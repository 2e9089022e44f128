import Mathlib
import Reckon.Proofs.EarliestError

/-!
How many rules are in progress at one time. A rule that is read calls others, and the calls
in progress form a stack, each made by the one before. Every call leaves less room for
further ones, five of them for a level of nesting, so that five frames for each level and
three more are enough for any expression, however long.
-/

namespace Reckon.Grammar

/-- A chain that starts at the first state has been read up to the second one. -/
inductive Reached (limit : Int) (l : Level) (s : State) : State → Prop where
  | first {n : Nat} {s₁ : State} {t : Tree} (h : (l.operand.read limit n).run s = .ok t s₁) :
      Reached limit l s s₁
  | further {n : Nat} {s₁ s₂ : State} {t : Tree} (h : Reached limit l s s₁)
      (hj : l.joins s₁.next.tag) (hright : (l.operand.read limit n).run s₁.advance = .ok t s₂) :
      Reached limit l s s₂

/-- A rule and the state from which it is read. -/
structure Call where
  rule : Rule
  state : State

/-- Reading by one rule comes to read by another one. -/
inductive Call.Makes (limit : Int) : Call → Call → Prop where
  | operand (l : Level) (s : State) : Makes limit ⟨l.rule, s⟩ ⟨l.operand, s⟩
  | further {l : Level} {s s₁ : State} (h : Reached limit l s s₁) (hj : l.joins s₁.next.tag) :
      Makes limit ⟨l.rule, s⟩ ⟨l.operand, s₁.advance⟩
  | signed {s : State} (hroom : (s.depth : Int) < limit) (hs : isSign s.next.tag = true) :
      Makes limit ⟨.factor, s⟩ ⟨.factor, s.deeper.advance⟩
  | unsigned {s : State} (hroom : (s.depth : Int) < limit) (hs : isSign s.next.tag = false) :
      Makes limit ⟨.factor, s⟩ ⟨.power, s.deeper⟩
  | base (s : State) : Makes limit ⟨.power, s⟩ ⟨.atom, s⟩
  | exponent {n : Nat} {s s₁ : State} {base : Tree}
      (h : (Rule.atom.read limit n).run s = .ok base s₁) (hp : s₁.next.tag = .pow) :
      Makes limit ⟨.power, s⟩ ⟨.factor, s₁.advance⟩
  | inner {s : State} (hl : s.next.tag = .lparen) : Makes limit ⟨.atom, s⟩ ⟨.expr, s.advance⟩

/-- The calls in progress at one time of reading an expression, the first one first. -/
structure Active (limit : Int) (start : State) (calls : List Call) : Prop where
  head : calls.head? = some ⟨.expr, start⟩
  made : calls.IsChain (Call.Makes limit)

/-- The frames that are enough for a call. -/
def Call.frames (limit : Int) (c : Call) : Nat :=
  5 * c.state.room limit + (Part.rule c.rule).frames

section
variable {limit : Int} {l : Level} {s s₁ t : State} {c c' : Call}

theorem Reached.keeps (h : Reached limit l s s₁) (heof : s.eof.isEof) :
    s₁.eof.isEof ∧ s₁.room limit = s.room limit := by
  induction h with
  | first h =>
    obtain ⟨d, -, hd⟩ := read_sound heof h
    exact ⟨by rwa [hd.reads.eof], hd.reads.room limit⟩
  | further _ _ hright ih =>
    obtain ⟨d, -, hd⟩ := read_sound (by simpa using ih.1) hright
    exact ⟨by simpa [hd.reads.eof] using ih.1, by rw [hd.reads.room, State.advance_room, ih.2]⟩

theorem Call.frames_pos : 0 < c.frames limit := by
  obtain ⟨rule, state⟩ := c
  cases rule <;> simp [frames, Part.frames]

/-- Each call needs a frame less than the one that makes it. A factor takes five for its
level; its sign and the power need one and five of the level inside. -/
theorem Call.Makes.frames_lt (h : Makes limit c c') (heof : c.state.eof.isEof) :
    c'.state.eof.isEof ∧ c'.frames limit < c.frames limit := by
  have hlevel : ∀ {s : State}, (s.depth : Int) < limit →
      s.room limit = s.deeper.room limit + 1 := by
    intro s hroom
    simp only [State.room, State.deeper]
    omega
  have hoperand : ∀ l : Level, (Part.rule l.operand).frames < (Part.rule l.rule).frames := by
    intro l
    cases l <;> decide
  cases h with
  | operand l s => exact ⟨heof, Nat.add_lt_add_left (hoperand l) _⟩
  | @further l s s₁ h hj =>
    obtain ⟨heof₁, hroom⟩ := h.keeps heof
    refine ⟨by simpa using heof₁, ?_⟩
    simp only [frames, State.advance_room, hroom]
    exact Nat.add_lt_add_left (hoperand l) _
  | signed hroom hs =>
    refine ⟨by simpa using heof, ?_⟩
    simp only [frames, State.advance_room, hlevel hroom]
    omega
  | unsigned hroom hs =>
    refine ⟨heof, ?_⟩
    simp only [frames, hlevel hroom, Part.frames]
    omega
  | base s => exact ⟨heof, Nat.lt_succ_self _⟩
  | exponent h hp =>
    obtain ⟨d, -, hd⟩ := read_sound heof h
    refine ⟨by simpa [hd.reads.eof] using heof, ?_⟩
    simp only [frames, State.advance_room, hd.reads.room]
    exact Nat.add_lt_add_left (by decide) _
  | inner hl =>
    refine ⟨by simpa using heof, ?_⟩
    simp only [frames, State.advance_room]
    exact Nat.add_lt_add_left (by decide) _

/-- There are never more calls in progress than the first of them has frames for. -/
theorem calls_length_le {calls : List Call} (h : (c :: calls).IsChain (Call.Makes limit))
    (heof : c.state.eof.isEof) : (c :: calls).length ≤ c.frames limit := by
  induction calls generalizing c with
  | nil => exact Call.frames_pos
  | cons c' calls ih =>
    obtain ⟨hmakes, hrest⟩ := List.isChain_cons_cons.mp h
    obtain ⟨heof', hlt⟩ := hmakes.frames_lt heof
    exact Nat.succ_le_of_lt (Nat.lt_of_le_of_lt (ih hrest heof') hlt)

/-- A chain runs out of frames in one of its operands. -/
theorem chain_runs_out {n k : Nat} {left : Tree} (h : Reached limit l s s₁)
    (hrun : (chain l.joins (l.operand.read limit n) k left).run s₁ = .error .outOfFrames t) :
    ∃ s₂, Call.Makes limit ⟨l.rule, s⟩ ⟨l.operand, s₂⟩ ∧
      (l.operand.read limit n).run s₂ = .error .outOfFrames t := by
  induction k generalizing left s₁ with
  | zero => cases hrun
  | succ k ih =>
    obtain ⟨hj, hoperand | ⟨j, right, s₂, hk, hoperand, hrest⟩⟩ := chain_eq_error hrun
    · exact ⟨s₁.advance, .further h hj, hoperand⟩
    · obtain rfl : k = j := by omega
      exact ih (h.further hj hoperand) hrest

theorem chained_runs_out {n : Nat}
    (hrun : (l.rule.read limit (n + 1)).run s = .error .outOfFrames t) :
    ∃ s₁, Call.Makes limit ⟨l.rule, s⟩ ⟨l.operand, s₁⟩ ∧
      (l.operand.read limit n).run s₁ = .error .outOfFrames t := by
  rw [l.read_rule] at hrun
  rcases chained_eq_error hrun with hfirst | ⟨left, s₁, hleft, hrest⟩
  · exact ⟨s, .operand l s, hfirst⟩
  · exact chain_runs_out (.first hleft) hrest

/-- A rule that runs out of frames makes a call that runs out of the frames left to it. -/
theorem read_runs_out {n : Nat} {r : Rule}
    (hrun : (r.read limit (n + 1)).run s = .error .outOfFrames t) :
    ∃ (c : Call) (t' : State), Call.Makes limit ⟨r, s⟩ c ∧
      (c.rule.read limit n).run c.state = .error .outOfFrames t' := by
  cases r with
  | expr =>
    obtain ⟨s₁, hmakes, hoperand⟩ := chained_runs_out (l := .sum) hrun
    exact ⟨_, _, hmakes, hoperand⟩
  | term =>
    obtain ⟨s₁, hmakes, hoperand⟩ := chained_runs_out (l := .product) hrun
    exact ⟨_, _, hmakes, hoperand⟩
  | factor =>
    obtain ⟨-, h, -⟩ | ⟨hroom, t', -, ⟨hs, hbody⟩ | ⟨hs, hbody⟩⟩ := factor_eq_error hrun
    · cases h
    · exact ⟨_, _, .signed hroom hs, hbody⟩
    · exact ⟨_, _, .unsigned hroom hs, hbody⟩
  | power =>
    rcases power_eq_error hrun with hbase | ⟨base, s₁, hbase, hp, hexp⟩
    · exact ⟨_, _, .base s, hbase⟩
    · exact ⟨_, _, .exponent hbase hp, hexp⟩
  | atom =>
    obtain ⟨hl, hinner⟩ | ⟨-, -, h, -⟩ | ⟨-, -, h, -⟩ := atom_eq_error hrun
    · exact ⟨_, _, .inner hl, hinner⟩
    · cases h
    · cases h

/-- Where reading runs out of frames, more calls than there are frames are in progress. -/
theorem exists_calls {n : Nat} {r : Rule}
    (hrun : (r.read limit n).run s = .error .outOfFrames t) :
    ∃ calls, (⟨r, s⟩ :: calls : List Call).IsChain (Call.Makes limit) ∧ n ≤ calls.length := by
  induction n generalizing r s t with
  | zero => exact ⟨[], List.isChain_singleton _, Nat.le_refl 0⟩
  | succ n ih =>
    obtain ⟨c, t', hmakes, hcall⟩ := read_runs_out hrun
    obtain ⟨calls, hchain, hlength⟩ := ih hcall
    exact ⟨c :: calls, List.isChain_cons_cons.mpr ⟨hmakes, hchain⟩, Nat.succ_le_succ hlength⟩

theorem whole_runs_out {n : Nat} (hrun : (Parser.whole limit n).run s = .error .outOfFrames t) :
    ∃ calls, Active limit s calls ∧ n < calls.length := by
  obtain ⟨-, h, -⟩ | hread | ⟨-, h, -⟩ := whole_eq_error hrun
  · cases h
  · obtain ⟨calls, hchain, hlength⟩ := exists_calls hread
    exact ⟨_, ⟨rfl, hchain⟩, Nat.lt_succ_of_le hlength⟩
  · cases h

theorem Active.length_le {calls : List Call} (h : Active limit s calls) (heof : s.eof.isEof)
    (hdepth : s.depth = 0) : calls.length ≤ 5 * limit.toNat + 3 := by
  obtain ⟨hhead, hmade⟩ := h
  cases calls with
  | nil => cases hhead
  | cons c calls =>
    obtain rfl := Option.some.inj hhead
    have hlength := calls_length_le hmade heof
    simpa [Call.frames, State.room, hdepth, Part.frames] using hlength

/-- With five frames for each level and three more, no expression runs out of them. -/
theorem whole_in_frames (heof : s.eof.isEof) (hdepth : s.depth = 0) {n : Nat}
    (hn : 5 * limit.toNat + 3 ≤ n) (t : State) :
    (Parser.whole limit n).run s ≠ .error .outOfFrames t := by
  intro hrun
  obtain ⟨calls, hactive, hlength⟩ := whole_runs_out hrun
  have := hactive.length_le heof hdepth
  omega

theorem whole_of_more_frames (heof : s.eof.isEof) (hdepth : s.depth = 0) {n : Nat}
    (hn : 5 * limit.toNat + 3 ≤ n) :
    (Parser.whole limit n).run s = (Parser.whole limit (5 * limit.toNat + 3)).run s := by
  have hagrees : Agrees (· = .outOfFrames) (Parser.whole limit (5 * limit.toNat + 3))
      (Parser.whole limit n) := agrees_whole (by rfl) (.inl rfl) hn
  exact hagrees.run_eq (whole_in_frames heof hdepth (Nat.le_refl _))

end

theorem run_congr {p : Parser} {x y : Read Tree} (h : x.run p.state = y.run p.state) :
    p.run x = p.run y := by
  have happly : x p.state = y p.state := h
  unfold Parser.run
  rw [happly]

/-- The frames for the deepest nesting that a call stack supports leave most of the reserve. -/
theorem frames_le_stack {limits : Limits} (h : 205 ≤ limits.stack) :
    5 * (limits.deepest.toNat : Int) + 3 ≤ limits.stack - 197 := by
  rw [Limits.deepest, supportedDepth_eq]
  omega

/-- While tokens are parsed there are never more calls in progress than five for each level
that the limit allows and three, whatever the length of the list. A parser with that many
frames does not run out of them, and does the same with any larger number; if it runs out of
fewer, that is for calls in progress. With the limit that a call stack supports they stay
below the size of the stack. -/
theorem parse_in_frames {tokens : List Token} (h : Terminated tokens) (limits : Limits) :
    ∃ p : Parser, Expression.parser tokens limits = .ok p ∧ p.limit = limits.deepest ∧
      (∀ calls, Active p.limit p.start calls → calls.length ≤ 5 * p.limit.toNat + 3) ∧
      (∀ n t, (Parser.whole p.limit n).run p.start = .error .outOfFrames t →
        ∃ calls, Active p.limit p.start calls ∧ n < calls.length) ∧
      (∀ n, 5 * p.limit.toNat + 3 ≤ n →
        (∀ t, (Parser.whole p.limit n).run p.start ≠ .error .outOfFrames t) ∧
        p.parseWithin n = p.parseWithin (5 * p.limit.toNat + 3)) ∧
      p.parse = p.parseWithin (5 * p.limit.toNat + 3) ∧
      (205 ≤ limits.stack → 5 * (p.limit.toNat : Int) + 3 ≤ limits.stack - 197) := by
  obtain ⟨eof, more, heof, -, hparser⟩ := parser_eq h
  refine ⟨_, hparser limits, rfl, fun calls hcalls => hcalls.length_le heof rfl,
    fun n t => whole_runs_out, fun n hn => ⟨whole_in_frames heof rfl hn, ?_⟩, rfl,
    frames_le_stack⟩
  exact run_congr (whole_of_more_frames heof rfl hn)

section
private def outerParen : Token := .spanning "(1)" .lparen 0 1
private def enclosedOne : Token := .spanning "(1)" (.number (.int 1)) 1 2
private def closingParen : Token := .spanning "(1)" .rparen 2 3
private def afterParen : Token := .spanning "(1)" .eof 3 3

/-- In front of `(1)`. -/
private def enclosed : State := ⟨[outerParen, enclosedOne, closingParen], afterParen, 0, 0⟩

/-- The calls in progress when `(1)` turns out to be nested too deep for one level. -/
private def enclosedCalls : List Call :=
  let inside := enclosed.deeper.advance
  [⟨.expr, enclosed⟩, ⟨.term, enclosed⟩, ⟨.factor, enclosed⟩, ⟨.power, enclosed.deeper⟩,
    ⟨.atom, enclosed.deeper⟩, ⟨.expr, inside⟩, ⟨.term, inside⟩, ⟨.factor, inside⟩]

/-- For `(1)` and one level all of the frames are used, and with one frame less it runs out. -/
theorem parse_in_frames_enclosed :
    Terminated [outerParen, enclosedOne, closingParen, afterParen] ∧
    ∃ p : Parser, Expression.parser [outerParen, enclosedOne, closingParen, afterParen]
        { depth := 1 } = .ok p ∧
      (Active p.limit p.start enclosedCalls ∧ enclosedCalls.length = 5 * p.limit.toNat + 3) ∧
      (∃ calls, Active p.limit p.start calls ∧ 7 < calls.length) ∧
      p.parseWithin 1000 = p.parse ∧ 5 * (p.limit.toNat : Int) + 3 ≤ 1000 - 197 := by
  have hend : Terminated [outerParen, enclosedOne, closingParen, afterParen] :=
    ⟨afterParen, rfl, rfl⟩
  have hactive : Active 1 enclosed enclosedCalls := by
    refine ⟨rfl, ?_⟩
    simp only [enclosedCalls, List.isChain_cons_cons, List.isChain_singleton, and_true]
    exact ⟨.operand .sum _, .operand .product _, .unsigned (by decide) rfl, .base _, .inner rfl,
      .operand .sum _, .operand .product _⟩
  obtain ⟨p, hp, -, -, hout, hmore, hparse, hstack⟩ := parse_in_frames hend { depth := 1 }
  have hparser : Expression.parser [outerParen, enclosedOne, closingParen, afterParen]
      { depth := 1 } = .ok ⟨enclosed, 1, enclosed⟩ := rfl
  obtain rfl := Except.ok.inj (hp.symm.trans hparser)
  exact ⟨hend, _, hp, ⟨hactive, rfl⟩, hout 7 _ rfl, (hmore 1000 (by decide)).2.trans hparse.symm,
    hstack (by decide)⟩

end

end Reckon.Grammar
