import Mathlib
import Reckon.Proofs.Frames

/-!
What a rule does to the state of a parser, wherever in the tokens it is called and at
whatever depth. It comes back to the same depth, goes forward only and not past an end of
input, reads something if it succeeds, and otherwise rests on the token that it reports.
A parse starts anew, so it does not matter what was called before it.
-/

namespace Reckon

namespace Grammar

namespace State

/-- The state in front of the token with an index. It sees the tokens up to the next end
of input. -/
def ofIndex? (tokens : List Token) (k depth : Nat) : Option State := do
  let eof ← (tokens.drop k).find? Token.isEof
  pure ⟨beforeEof (tokens.drop k), eof, k, depth⟩

/-- The state is one of a parser of the tokens. -/
def Stands (tokens : List Token) (s : State) : Prop := ofIndex? tokens s.taken s.depth = some s

variable {tokens w : List Token} {s s' : State} {k depth : Nat}

theorem ofIndex?_eq_some_iff :
    ofIndex? tokens k depth = some s ↔ s.taken = k ∧ s.depth = depth ∧ s.eof.isEof ∧
      (∀ t ∈ s.ahead, t.isEof = false) ∧ ∃ more, tokens.drop k = s.ahead ++ s.eof :: more := by
  obtain ⟨ahead, eof, taken, depth'⟩ := s
  simp only [ofIndex?, Option.bind_eq_bind, Option.bind_eq_some_iff, find?_isEof_iff,
    Option.pure_def, Option.some.injEq, State.mk.injEq]
  constructor
  · rintro ⟨_, ⟨heof, more, hmore⟩, rfl, rfl, rfl, rfl⟩
    exact ⟨rfl, rfl, heof, fun t => beforeEof_not_isEof, more, hmore⟩
  · rintro ⟨rfl, rfl, heof, hahead, more, hmore⟩
    have hbefore : beforeEof (tokens.drop taken) = ahead := by
      rw [hmore, beforeEof_append hahead heof]
    exact ⟨eof, ⟨heof, more, by rwa [hbefore]⟩, hbefore, rfl, rfl, rfl⟩

theorem exists_ofIndex (h : Terminated tokens) (hk : k < tokens.length) (depth : Nat) :
    ∃ s, ofIndex? tokens k depth = some s := by
  obtain ⟨last, hlast, heof⟩ := h
  have hmem : last ∈ tokens.drop k := by
    apply List.mem_of_getLast?
    rwa [List.getLast?_drop, if_neg (by omega)]
  obtain ⟨eof, hfind⟩ : ∃ eof, (tokens.drop k).find? Token.isEof = some eof := by
    rw [← Option.isSome_iff_exists, List.find?_isSome]
    exact ⟨last, hmem, heof⟩
  exact ⟨_, by rw [ofIndex?, hfind]; rfl⟩

namespace Stands

theorem spec (h : s.Stands tokens) : s.eof.isEof ∧ (∀ t ∈ s.ahead, t.isEof = false) ∧
    ∃ more, tokens.drop s.taken = s.ahead ++ s.eof :: more :=
  (ofIndex?_eq_some_iff.mp h).2.2

theorem rests (h : s.Stands tokens) : tokens[s.taken]? = some s.next := by
  obtain ⟨-, -, more, hmore⟩ := h.spec
  rw [← List.head?_drop, hmore, next]
  cases s.ahead <;> rfl

theorem reads (h : s.Stands tokens) (hr : s.Reads w s') : s'.Stands tokens := by
  obtain ⟨heof, hahead, more, hmore⟩ := h.spec
  have htaken : s'.taken = s.taken + w.length := by rw [hr.2]
  refine ofIndex?_eq_some_iff.mpr ⟨rfl, rfl, by rwa [hr.eof], fun t ht => ?_, more, ?_⟩
  · exact hahead t (by simp [hr.1, ht])
  · rw [htaken, ← List.drop_drop, hmore, hr.1, hr.eof]
    simp

end Stands

/-- The state that comes after another one while tokens are read: not behind it, nor beyond
the next end of input, and at the same depth. -/
structure Moves (tokens : List Token) (s s' : State) : Prop where
  depth : s'.depth = s.depth
  stands : s'.Stands tokens
  rests : tokens[s'.taken]? = some s'.next
  forward : s.taken ≤ s'.taken
  guarded : ∀ j t, s.taken ≤ j → tokens[j]? = some t → t.isEof → s'.taken ≤ j

theorem Stands.moves (h : s.Stands tokens) (hr : s.Reads w s') : Moves tokens s s' := by
  obtain ⟨-, hahead, more, hmore⟩ := h.spec
  have htaken : s'.taken = s.taken + w.length := by rw [hr.2]
  refine ⟨hr.depth, h.reads hr, (h.reads hr).rests, by omega, fun j t hj htoken heof => ?_⟩
  by_contra hpast
  -- the token would be one of those read, and none of them is an end of input
  have hread : w[j - s.taken]? = some t := by
    rw [← htoken, ← Nat.add_sub_cancel' hj, ← List.getElem?_drop, hmore, hr.1,
      List.append_assoc, List.getElem?_append_left (by omega), Nat.add_sub_cancel_left]
  have hmem : t ∈ s.ahead := by
    rw [hr.1]
    exact List.mem_append_left _ (List.mem_of_getElem? hread)
  rw [hahead t hmem] at heof
  cases heof

theorem Stands.advance (h : s.Stands tokens) : s.advance.Stands tokens := by
  by_cases hend : s.ahead = []
  · rwa [State.advance, hend]
  · obtain ⟨t, rest, hcons⟩ := List.exists_cons_of_ne_nil hend
    have hreads : s.Reads [t] s.advance := by
      rw [State.advance, hcons]
      exact ⟨hcons, rfl⟩
    exact h.reads hreads

end State

theorem Derivation.yield_ne_nil {r : Rule} (d : Derivation (.rule r)) : d.yield ≠ [] := by
  cases r with
  | expr => exact d.expr_pos.2
  | term =>
    cases d with
    | term first rest => simp [yield, first.factor_pos.2]
  | factor => exact d.factor_pos.2
  | power =>
    obtain ⟨t, w, hw, -⟩ := d.power_head
    simp [hw]
  | atom =>
    obtain ⟨t, w, hw, -⟩ := d.atom_head
    simp [hw]

end Grammar

namespace Parser

open Grammar

/-- How a rule is read from the state of a parser of the tokens, with the state that this
leaves behind. -/
structure Obeys (tokens : List Token) (p : Parser) (rule : Rule) : Prop where
  /-- The rule comes to an end within the frames, and with more it does the same. -/
  ends : ∀ n, p.frames + framesPerLevel ≤ n →
    (∀ t, (rule.read p.limit n).run p.state ≠ .error .outOfFrames t) ∧
      p.run (rule.read p.limit n) = p.read rule
  kept : (p.read rule).2 = { p with state := (p.read rule).2.state }
  moves : State.Moves tokens p.state (p.read rule).2.state
  success : ∀ tree, (p.read rule).1 = .ok tree → p.state.taken < (p.read rule).2.state.taken ∧
    (Part.rule rule).continuedBy (p.read rule).2.peek.tag = false
  failure : ∀ e, (p.read rule).1 = .error (.error e) →
    tokens[(p.read rule).2.state.taken]? = some e.token

section
variable {p : Parser} {rule : Rule} {x : Read Tree} {s : State} {tokens : List Token}

/-- With all the frames of a parser a rule either reads what it derives, or stops at an
error of the tokens. -/
theorem read_cases (heof : p.state.eof.isEof) (rule : Rule) {n : Nat}
    (hn : p.frames + framesPerLevel ≤ n) :
    (∃ (d : Derivation (.rule rule)) (s : State),
      (rule.read p.limit n).run p.state = .ok d.tree s ∧ Spans p.limit d p.state s) ∨
    ∃ (m : Misfit) (s : State) (v : List Token),
      (rule.read p.limit n).run p.state = .error (.error m) s ∧
        Stops p.limit (.rule rule) p.state s m v := by
  cases hrun : (rule.read p.limit n).run p.state with
  | ok t s =>
    obtain ⟨d, rfl, hd⟩ := read_sound heof hrun
    exact .inl ⟨d, s, rfl, hd⟩
  | error h s =>
    have hframes : 5 * p.state.room p.limit + (Part.rule rule).frames ≤ n := by
      have hrule : (Part.rule rule).frames ≤ 5 := by cases rule <;> decide
      simp only [frames, framesPerLevel] at hn
      simp only [State.room]
      omega
    obtain ⟨e, v, rfl, hstops, -⟩ := read_stops heof hframes hrun
    exact .inr ⟨e, s, v, rfl, hstops⟩

theorem read_not_outOfFrames (heof : p.state.eof.isEof) (rule : Rule) {n : Nat}
    (hn : p.frames + framesPerLevel ≤ n) (t : State) :
    (rule.read p.limit n).run p.state ≠ .error .outOfFrames t := by
  obtain ⟨d, s, hrun, -⟩ | ⟨e, s, v, hrun, -⟩ := read_cases heof rule hn <;> simp [hrun]

theorem run_of_more_frames (heof : p.state.eof.isEof) (rule : Rule) {n : Nat}
    (hn : p.frames + framesPerLevel ≤ n) : p.run (rule.read p.limit n) = p.read rule := by
  have hagrees : Agrees (· = .outOfFrames) (rule.read p.limit (p.frames + framesPerLevel))
      (rule.read p.limit n) := agrees_read (by rfl) (.inl rfl) hn rule
  exact run_congr (hagrees.run_eq (read_not_outOfFrames heof rule (Nat.le_refl _)))

theorem obeys (h : p.state.Stands tokens) (rule : Rule) : p.Obeys tokens rule := by
  have heof := h.spec.1
  have hends := fun n (hn : p.frames + framesPerLevel ≤ n) =>
    And.intro (read_not_outOfFrames heof rule hn) (run_of_more_frames heof rule hn)
  obtain ⟨d, s, hrun, hd⟩ | ⟨m, s, v, hrun, hstops⟩ := read_cases heof rule (Nat.le_refl _)
  · have hread : p.read rule = (.ok d.tree, { p with state := s }) := run_of_ok hrun
    have hmoves := h.moves hd.reads
    refine ⟨hends, by rw [hread], by rwa [hread], fun tree _ => ?_, fun e he => ?_⟩
    · rw [hread]
      have htaken : s.taken = p.state.taken + d.yield.length := by rw [hd.reads.2]
      have hpos := List.length_pos_iff.mpr d.yield_ne_nil
      exact ⟨by simp only; omega, (State.ends_iff hmoves.stands.spec.1).mp hd.ends⟩
    · rw [hread] at he
      cases he
  · have hread : p.read rule = (.error (.ofMisfit m), { p with state := s }) := run_of_error hrun
    have hmoves := h.moves hstops.reads
    refine ⟨hends, by rw [hread], by rwa [hread], fun tree ht => ?_, fun e he => ?_⟩
    · rw [hread] at ht
      cases ht
    · rw [hread] at he ⊢
      obtain rfl := ofMisfit_eq_error_iff.mp (Except.error.inj he)
      rw [hstops.token]
      exact hmoves.rests

end

/-- What can be done with a parser. -/
inductive Step where
  | read (rule : Rule)
  | advance
  | parse

/-- The parser after a step, whether that succeeds or not. -/
def Step.apply (p : Parser) : Step → Parser
  | read rule => (p.read rule).2
  | advance => p.advance.2
  | parse => p.parse.2

def after (p : Parser) (steps : List Step) : Parser := steps.foldl Step.apply p

/-- The second parser is the first one after some use, and still at one of the tokens. -/
structure Serves (tokens : List Token) (p q : Parser) : Prop where
  start : q.start = p.start
  limit : q.limit = p.limit
  stands : q.state.Stands tokens

section
variable {p q : Parser} {tokens : List Token}

/-- A parse starts anew, wherever the parser is. -/
theorem Serves.parse_eq (h : Serves tokens p q) : q.parse = p.parse := by
  rw [parse, parse, frames, frames, parseWithin, parseWithin, h.start, h.limit]

/-- A parse reads from the first token on, as far as it comes. -/
theorem parse_reads (h : State.ofIndex? tokens 0 0 = some p.start) :
    ∃ w s, p.start.Reads w s ∧ p.parse.2 = { p with state := s } := by
  obtain ⟨-, hdepth, heof, -⟩ := State.ofIndex?_eq_some_iff.mp h
  cases hrun : (whole p.limit p.frames).run p.start with
  | ok t s =>
    obtain ⟨-, hread, -⟩ := whole_eq_ok.mp hrun
    obtain ⟨d, -, hd⟩ := read_sound heof hread
    exact ⟨d.yield, s, hd.reads, congrArg Prod.snd (run_of_ok hrun)⟩
  | error h s =>
    obtain ⟨e, v, rfl, hrejects⟩ := whole_rejects heof hdepth hrun
    exact ⟨v, s, hrejects.reads, congrArg Prod.snd (run_of_error hrun)⟩

theorem Serves.apply (hstart : State.ofIndex? tokens 0 0 = some p.start) (h : Serves tokens p q)
    (step : Step) : Serves tokens p (step.apply q) := by
  cases step with
  | read rule =>
    have hobeys := obeys h.stands rule
    refine ⟨?_, ?_, hobeys.moves.stands⟩
    · rw [Step.apply, hobeys.kept, h.start]
    · rw [Step.apply, hobeys.kept, h.limit]
  | advance => exact ⟨h.start, h.limit, h.stands.advance⟩
  | parse =>
    obtain ⟨w, s, hreads, hparse⟩ := parse_reads hstart
    obtain ⟨htaken, hdepth, -⟩ := State.ofIndex?_eq_some_iff.mp hstart
    have hstands : p.start.Stands tokens := by rwa [State.Stands, htaken, hdepth]
    rw [Step.apply, h.parse_eq, hparse]
    exact ⟨rfl, rfl, hstands.reads hreads⟩

theorem Serves.after (hstart : State.ofIndex? tokens 0 0 = some p.start) (h : Serves tokens p q)
    (steps : List Step) : Serves tokens p (q.after steps) := by
  induction steps generalizing q with
  | nil => exact h
  | cons step steps ih => exact ih (h.apply hstart step)

end

/-- From every token of a list and at every depth, a rule comes to an end and leaves the
parser at the depth where it was, not before the token where it started and not past the next
end of input. If it succeeds it has read something and the next token does not go on with it;
if it fails the next token is the one reported. Whatever was done before it, a parse does the
same. -/
theorem read_disciplined {tokens : List Token} (h : Terminated tokens) (limits : Limits) :
    ∃ p : Parser, Expression.parser tokens limits = .ok p ∧
      ∀ k < tokens.length, ∀ depth, ∃ s, State.ofIndex? tokens k depth = some s ∧
        (∀ rule, Obeys tokens { p with state := s } rule) ∧
        ∀ steps, ({ p with state := s }.after steps).state.Stands tokens ∧
          ({ p with state := s }.after steps).parse = p.parse := by
  obtain ⟨eof, more, heof, hsplit, hparser⟩ := parser_eq h
  have hstart : State.ofIndex? tokens 0 0 = some ⟨beforeEof tokens, eof, 0, 0⟩ :=
    State.ofIndex?_eq_some_iff.mpr
      ⟨rfl, rfl, heof, fun t => beforeEof_not_isEof, more, by rwa [List.drop_zero]⟩
  refine ⟨_, hparser limits, fun k hk depth => ?_⟩
  obtain ⟨s, hs⟩ := State.exists_ofIndex h hk depth
  have hstands : s.Stands tokens := by
    obtain ⟨rfl, rfl, -⟩ := State.ofIndex?_eq_some_iff.mp hs
    exact hs
  refine ⟨s, hs, fun rule => obeys hstands rule, fun steps => ?_⟩
  have hserves : Serves tokens _ (Parser.after ⟨_, limits.deepest, s⟩ steps) :=
    Serves.after hstart ⟨rfl, rfl, hstands⟩ steps
  exact ⟨hserves.stands, hserves.parse_eq⟩

section
private def brokenOne : Token := .spanning "1+2^" (.number (.int 1)) 0 1
private def brokenPlus : Token := .spanning "1+2^" .plus 1 2
private def innerEnd : Token := .spanning "1+2^" .eof 2 2
private def baseTwo : Token := .spanning "1+2^" (.number (.int 2)) 2 3
private def danglingPower : Token := .spanning "1+2^" .pow 3 4
private def outerEnd : Token := .spanning "1+2^" .eof 4 4

/-- The tokens of `1+` and `2^`, each with its end of input. -/
private def broken : List Token :=
  [brokenOne, brokenPlus, innerEnd, baseTwo, danglingPower, outerEnd]

/-- Their parser, in front of the `1`. -/
private def atOne : Parser :=
  let start : State := ⟨[brokenOne, brokenPlus], innerEnd, 0, 0⟩
  ⟨start, 3, start⟩

/-- The same one in front of the `2`, two levels deep. -/
private def atTwo : Parser := { atOne with state := ⟨[baseTwo, danglingPower], outerEnd, 3, 2⟩ }

/-- In front of the `2` an atom is read, and a power fails at the last end of input. Parsing
fails at the first one, before and after that. -/
theorem read_disciplined_broken :
    Terminated broken ∧ 3 < broken.length ∧ State.ofIndex? broken 3 2 = some atTwo.state ∧
    ((atTwo.read .atom).1 = .ok (.number baseTwo) ∧ 3 < (atTwo.read .atom).2.state.taken) ∧
    ((atTwo.read .power).1 = .error (.error ⟨.unexpected operandText outerEnd, rfl⟩) ∧
      (atTwo.read .power).2.state.depth = 2 ∧
      broken[(atTwo.read .power).2.state.taken]? = some outerEnd) ∧
    atOne.parse.1 = .error (.error ⟨.unexpected operandText innerEnd, rfl⟩) ∧
    (atTwo.after [.read .power, .advance, .parse, .read .term]).parse = atOne.parse := by
  have hend : Terminated broken := ⟨outerEnd, rfl, rfl⟩
  obtain ⟨p, hp, hcalls⟩ := read_disciplined hend { depth := 3 }
  obtain ⟨s, hs, hobeys, hafter⟩ := hcalls 3 (by decide) 2
  obtain rfl : atOne = p := Except.ok.inj hp
  obtain rfl : atTwo.state = s := Option.some.inj hs
  have hatom := (hobeys .atom).success (.number baseTwo) rfl
  have hpower := hobeys .power
  exact ⟨hend, by decide, hs, ⟨rfl, hatom.1⟩, ⟨rfl, hpower.moves.depth, hpower.failure _ rfl⟩, rfl,
    (hafter _).2⟩

end

end Parser

end Reckon
