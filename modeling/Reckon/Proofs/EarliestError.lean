import Mathlib
import Reckon.Proofs.Parsing
import Reckon.Proofs.Stopping

/-!
Errors are reported as early as can be. The tokens before the one at fault are the start of
some expression and with it they are not; nesting is reported as soon as the tokens read
cannot be the start of any expression within the limit.
-/

namespace Reckon

theorem Token.isEof_iff {t : Token} : t.isEof = true ↔ t.tag = .eof := by
  obtain ⟨kind, start, stop⟩ := t
  cases kind <;> simp [isEof, tag, Kind.tag]

namespace Grammar

/-- Tokens without an end of input among them that parse under a limit. -/
def Parses (limit : Int) (w : List Token) : Prop :=
  (∀ t ∈ w, t.isEof = false) ∧ ∃ (eof : Token) (limits : Limits) (t : Tree),
    eof.isEof ∧ limits.deepest = limit ∧ Expression.parseTokens (w ++ [eof]) limits = .ok t

/-- Tokens with which something that parses under the limit starts. -/
def Viable (limit : Int) (v : List Token) : Prop := ∃ w, Parses limit w ∧ v <+: w

theorem Derivation.yield_not_isEof {p : Part} (d : Derivation p) :
    ∀ t ∈ d.yield, t.isEof = false := by
  have hother : ∀ t : Token, t.tag ≠ .eof → t.isEof = false := by
    intro t ht
    rwa [← Bool.not_eq_true, Token.isEof_iff]
  induction d with
  | number t ht => simpa [yield] using hother t (by simp [ht])
  | parens l hl inner r hr ih =>
    have hl' := hother l (by simp [hl])
    have hr' := hother r (by simp [hr])
    simpa [yield, hl', or_imp, forall_and, hr'] using ih
  | lone base ih => exact ih
  | power base op hop exponent ihb ihe =>
    have hop' := hother op (by simp [hop])
    simpa [yield, or_imp, forall_and, hop'] using ⟨ihb, ihe⟩
  | signed op hop operand ih =>
    have hop' := hother op (joins_ne_eof (l := .sum) hop)
    simpa [yield, hop'] using ih
  | unsigned body ih => exact ih
  | term first rest ihf ihr => simpa [yield, or_imp, forall_and] using ⟨ihf, ihr⟩
  | expr first rest ihf ihr => simpa [yield, or_imp, forall_and] using ⟨ihf, ihr⟩
  | done l => simp [yield]
  | more l op hop operand rest iho ihr =>
    have hop' := hother op (joins_ne_eof hop)
    simpa [yield, hop', or_imp, forall_and] using ⟨iho, ihr⟩

/-- Every limit is the effective one for a call stack that is large enough. -/
theorem exists_deepest (limit : Int) : ∃ limits : Limits, limits.deepest = limit := by
  refine ⟨{ depth := limit, stack := (framesPerLevel : Int) * limit.toNat + frameReserve }, ?_⟩
  have hdiv : Int.fdiv ((framesPerLevel : Int) * limit.toNat) framesPerLevel = limit.toNat :=
    Int.mul_fdiv_cancel_left _ (by decide)
  simp only [Limits.deepest, supportedDepth, Int.add_sub_cancel, hdiv]
  omega

theorem parses_iff {limit : Int} {w : List Token} :
    Parses limit w ↔ ∃ d : Derivation (.rule .expr), d.yield = w ∧ (d.nesting : Int) ≤ limit := by
  constructor
  · rintro ⟨hw, eof, limits, t, heof, rfl, hparse⟩
    have hend : Terminated (w ++ [eof]) := ⟨eof, by simp, heof⟩
    obtain ⟨eof', heof', houtcome⟩ := parseTokens_eq_outcome hend
    rw [houtcome, beforeEof_append hw heof, outcome_eq_ok_iff heof' hw] at hparse
    obtain ⟨d, hyield, hlimit, -⟩ := hparse
    exact ⟨d, hyield, hlimit⟩
  · rintro ⟨d, rfl, hlimit⟩
    obtain ⟨limits, rfl⟩ := exists_deepest limit
    let eof : Token := .spanning "" .eof 0 0
    have hend : Terminated (d.yield ++ [eof]) := ⟨eof, by simp, rfl⟩
    obtain ⟨eof', heof', houtcome⟩ := parseTokens_eq_outcome hend
    rw [beforeEof_append d.yield_not_isEof rfl] at houtcome
    refine ⟨d.yield_not_isEof, eof, limits, d.tree, rfl, rfl, ?_⟩
    rw [houtcome, outcome_eq_ok_iff heof' d.yield_not_isEof]
    exact ⟨d, rfl, hlimit, rfl⟩

theorem whole_eq_error {limit : Int} {n : Nat} {s t : State} {h : Halt}
    (hrun : (Parser.whole limit n).run s = .error h t) :
    (s.next.isEof = true ∧ h = .error (.unexpected "an expression" s.next) ∧ t = s) ∨
      (Rule.expr.read limit n).run s = .error h t ∨
      (t.next.isEof = false ∧ h = .error ⟨.trailingInput, t.next⟩ ∧
        ∃ tree, (Rule.expr.read limit n).run s = .ok tree t) := by
  rw [Parser.whole, peek_bind] at hrun
  cases heof : s.next.isEof with
  | true =>
    simp only [heof, ↓reduceIte] at hrun
    cases hrun
    exact .inl ⟨rfl, rfl, rfl⟩
  | false =>
    simp only [heof, Bool.false_eq_true, ↓reduceIte] at hrun
    rcases bind_eq_error.mp hrun with hread | ⟨tree, s₁, hread, hend⟩
    · exact .inr (.inl hread)
    · rw [peek_bind] at hend
      split at hend
      · cases hend
      · next hs₁ =>
        cases hend
        exact .inr (.inr ⟨by simpa using hs₁, rfl, tree, hread⟩)

/-- A parse under a limit stops at a state, after the tokens `v`. -/
structure Rejects (limit : Int) (s t : State) (e : Misfit) (v : List Token) : Prop where
  reads : s.Reads v t
  token : e.token = t.next
  viable : 1 ≤ limit → ∃ (d : Derivation (.rule .expr)) (more : List Token),
    d.yield = v ++ more ∧ (e.code ≠ "P004" → (d.nesting : Int) ≤ limit)
  refuted : ∀ d : Derivation (.rule .expr), evidence e v <+: d.yield →
    e.code = "P004" ∧ limit < d.nesting

theorem Stops.rejects {limit : Int} {s t : State} {e : Misfit} {v : List Token}
    (h : Stops limit (.rule .expr) s t e v) (hdepth : s.depth = 0) :
    Rejects limit s t e v := by
  have hroom : s.room limit = limit.toNat := by simp [State.room, hdepth]
  refine ⟨h.reads, h.token, fun _ => ?_, fun d hpre => ?_⟩
  · obtain ⟨d, more, hd, hfits⟩ := h.viable
    refine ⟨d, more, hd, fun hcode => ?_⟩
    have := hfits hcode
    omega
  · obtain ⟨hcode, hlt⟩ := h.refuted d [] (ends_nil _) (by simpa using hpre)
    exact ⟨hcode, by omega⟩

theorem rejects_empty {limit : Int} {s : State} (heof : s.next.isEof = true) :
    Rejects limit s s (.unexpected "an expression" s.next) [] := by
  refine ⟨.nil s, rfl, fun hlimit => ?_, fun d hpre => ?_⟩
  · let zero : Token := .spanning "0" (.number (.int 0)) 0 1
    refine ⟨.expr (.term (.unsigned (.lone (.number zero rfl))) (.done _)) (.done _), [zero], rfl,
      fun _ => ?_⟩
    simpa [Derivation.nesting] using hlimit
  · rw [evidence, if_neg (unexpected_code _ _)] at hpre
    have hmem : s.next ∈ d.yield := hpre.subset (by simp [Misfit.unexpected])
    rw [d.yield_not_isEof _ hmem] at heof
    cases heof

theorem rejects_trailing {limit : Int} {s t : State} {d : Derivation (.rule .expr)}
    (heof : s.eof.isEof) (hdepth : s.depth = 0) (hd : Spans limit d s t) :
    Rejects limit s t ⟨.trailingInput, t.next⟩ d.yield := by
  refine ⟨hd.reads, rfl, fun _ => ⟨d, [], by simp, fun _ => ?_⟩, fun d' hpre => ?_⟩
  · have hfits := hd.fits
    have hpos := d.expr_pos.1
    simp only [State.room, hdepth] at hfits
    omega
  · -- the token after the expression does not go on with it
    obtain ⟨more, hmore⟩ := hpre
    have hevidence : evidence ⟨.trailingInput, t.next⟩ d.yield = d.yield ++ [t.next] := rfl
    rw [hevidence, List.append_assoc, ← List.append_nil d'.yield] at hmore
    have hends : Ends (.rule .expr) ([t.next] ++ more) := by
      rw [List.singleton_append, ends_cons, ← State.ends_iff (by rwa [hd.reads.eof])]
      exact hd.ends
    obtain ⟨-, htail⟩ := d.unique d' hmore hends (ends_nil _)
    cases htail

theorem whole_rejects {limit : Int} {s t : State} {h : Halt} (heof : s.eof.isEof)
    (hdepth : s.depth = 0)
    (hrun : (Parser.whole limit (framesPerLevel * limit.toNat + 3)).run s = .error h t) :
    ∃ e v, h = .error e ∧ Rejects limit s t e v := by
  rcases whole_eq_error hrun with ⟨hempty, rfl, rfl⟩ | hread | ⟨-, rfl, tree, hread⟩
  · exact ⟨_, _, rfl, rejects_empty hempty⟩
  · have hframes :
        5 * s.room limit + (Part.rule .expr).frames ≤ framesPerLevel * limit.toNat + 3 := by
      simp [State.room, hdepth, framesPerLevel, Part.frames]
    obtain ⟨e, v, rfl, hstops, -⟩ := read_stops heof hframes hread
    exact ⟨e, v, rfl, hstops.rejects hdepth⟩
  · obtain ⟨d, -, hd⟩ := read_sound heof hread
    exact ⟨_, _, rfl, rejects_trailing heof hdepth hd⟩

theorem terminated_of_parser_ok {tokens : List Token} {limits : Limits} {p : Parser}
    (h : Expression.parser tokens limits = .ok p) : Terminated tokens := by
  unfold Expression.parser Parser.ofTokens? Parser.initialState? at h
  cases hlast : tokens.getLast? with
  | none => simp [hlast] at h
  | some last =>
    by_cases heof : last.isEof
    · exact ⟨last, hlast, heof⟩
    · simp [hlast, heof] at h

/-- What a failed parse leaves behind: the tokens do not parse, and the parser rests where
the grammar rejects them. -/
theorem parse_rejects {tokens : List Token} {limits : Limits} {p : Parser} {e : ParseError}
    (hp : Expression.parser tokens limits = .ok p) (herror : p.parse.1 = .error (.error e)) :
    ∃ (eof : Token) (more v : List Token), tokens = beforeEof tokens ++ eof :: more ∧
      ¬ Parses p.limit (beforeEof tokens) ∧
      Rejects p.limit ⟨beforeEof tokens, eof, 0, 0⟩ p.parse.2.state e.toMisfit v := by
  obtain ⟨eof, more, heof, hsplit, hparser⟩ := parser_eq (terminated_of_parser_ok hp)
  obtain rfl := Except.ok.inj (hp.symm.trans (hparser limits))
  refine ⟨eof, more, ?_⟩
  unfold Parser.parse Parser.parseWithin Parser.run at *
  cases hrun : Parser.whole limits.deepest _ ⟨beforeEof tokens, eof, 0, 0⟩ with
  | ok t s =>
    rw [hrun] at herror
    cases herror
  | error h s =>
    obtain ⟨e', v, rfl, hrejects⟩ := whole_rejects heof rfl hrun
    simp only [hrun] at herror ⊢
    obtain rfl := ofMisfit_eq_error_iff.mp (Except.error.inj herror)
    refine ⟨v, hsplit, fun hparses => ?_, hrejects⟩
    obtain ⟨d, hyield, hlimit⟩ := parses_iff.mp hparses
    obtain ⟨s', hok⟩ := whole_of_derivation d heof d.yield_not_isEof hlimit
    rw [hyield] at hok
    cases hok.symm.trans hrun

/-- A parser that has read the tokens `v` of a list rests on the one after them. -/
theorem State.Reads.located {w v : List Token} {eof : Token} {depth : Nat} {t : State}
    (h : State.Reads ⟨w, eof, 0, depth⟩ v t) (more : List Token) :
    t.taken = v.length ∧ ∃ rest, w ++ eof :: more = v ++ t.next :: rest := by
  have hw : w = v ++ t.ahead := h.1
  have heof : t.eof = eof := h.eof
  refine ⟨by rw [h.2]; simp, ?_⟩
  rw [hw, List.append_assoc, next, heof]
  cases t.ahead with
  | nil => exact ⟨more, rfl⟩
  | cons x rest => exact ⟨rest ++ eof :: more, rfl⟩

/-- A parse that fails rests on the token that does not fit. -/
theorem whole_located {tokens : List Token} {limits : Limits} {p : Parser}
    (hp : Expression.parser tokens limits = .ok p) {h : Halt} {s : State}
    (hrun : (Parser.whole p.limit p.frames).run p.start = .error h s) :
    ∃ m, h = .error m ∧ tokens[s.taken]? = some m.token := by
  obtain ⟨eof, more, heof, hsplit, hparser⟩ := parser_eq (terminated_of_parser_ok hp)
  obtain rfl := Except.ok.inj (hp.symm.trans (hparser limits))
  obtain ⟨m, v, rfl, hrejects⟩ := whole_rejects heof rfl hrun
  obtain ⟨htaken, rest, hrest⟩ := hrejects.reads.located more
  refine ⟨m, rfl, ?_⟩
  rw [hsplit, hrest, htaken, hrejects.token]
  simp

section
variable {limit : Int} {s t : State} {e : Misfit} {v : List Token}

theorem Rejects.not_viable (h : Rejects limit s t e v) : ¬ Viable limit (evidence e v) := by
  rintro ⟨w, hparses, hpre⟩
  obtain ⟨d, rfl, hlimit⟩ := parses_iff.mp hparses
  have := (h.refuted d hpre).2
  omega

theorem Rejects.viable_within (h : Rejects limit s t e v) (hlimit : 1 ≤ limit)
    (hcode : e.code ≠ "P004") : Viable limit v := by
  obtain ⟨d, more, hd, hfits⟩ := h.viable hlimit
  exact ⟨d.yield, parses_iff.mpr ⟨d, rfl, hfits hcode⟩, more, hd.symm⟩

theorem Rejects.viable_beyond (h : Rejects limit s t e v) (hlimit : 1 ≤ limit) :
    ∃ higher, limit < higher ∧ Viable higher v := by
  obtain ⟨d, more, hd, -⟩ := h.viable hlimit
  refine ⟨max (limit + 1) d.nesting, by omega, d.yield, parses_iff.mpr ⟨d, rfl, by omega⟩, more,
    hd.symm⟩

end

/-- The parser rests on the token at fault, which is the earliest that can be: the tokens
before it are the start of an expression, and no expression goes on with it, or ends there
if it is the end of input. Only where it is nesting that is at fault no expression within
the limit starts with the tokens before it. -/
theorem parse_error_earliest {tokens : List Token} {limits : Limits} {p : Parser}
    {e : ParseError} (hp : Expression.parser tokens limits = .ok p) (hlimit : 1 ≤ p.limit)
    (herror : p.parse.1 = .error (.error e)) :
    ∃ k, p.parse.2.state.taken = k ∧ k ≤ (beforeEof tokens).length ∧
      tokens[k]? = some e.token ∧
      (e.code ≠ "P004" → Viable p.limit (tokens.take k) ∧
        ((e.token.isEof = true ∧ ¬ Parses p.limit (tokens.take k)) ∨
          (e.token.isEof = false ∧ ¬ Viable p.limit (tokens.take (k + 1))))) ∧
      (e.code = "P004" → ¬ Viable p.limit (tokens.take k) ∧
        ∃ higher, p.limit < higher ∧ Viable higher (tokens.take k)) := by
  obtain ⟨eof, more, v, hsplit, hnone, hrejects⟩ := parse_rejects hp herror
  obtain ⟨htaken, rest, hrest⟩ := hrejects.reads.located more
  rw [← hsplit, ← hrejects.token] at hrest
  have hbefore : beforeEof tokens = v ++ p.parse.2.state.ahead := hrejects.reads.1
  have htake : tokens.take v.length = v := by simp [hrest]
  refine ⟨v.length, htaken, by simp [hbefore], by simp [hrest], fun hcode => ?_, fun hcode => ?_⟩
  · rw [htake]
    refine ⟨hrejects.viable_within hlimit hcode, ?_⟩
    cases heof : e.token.isEof with
    | true =>
      -- nothing is left in front of the end of input, so these are all the tokens
      have hahead : p.parse.2.state.ahead = [] := by
        cases hs : p.parse.2.state.ahead with
        | nil => rfl
        | cons x ahead =>
          rw [hrejects.token, State.next, hs, List.headD_cons] at heof
          have hmem : x ∈ beforeEof tokens := by simp [hbefore, hs]
          have hx := beforeEof_not_isEof hmem
          rw [hx] at heof
          cases heof
      rw [hahead, List.append_nil] at hbefore
      exact .inl ⟨rfl, hbefore ▸ hnone⟩
    | false =>
      have hnext : tokens.take (v.length + 1) = evidence e.toMisfit v := by
        rw [evidence, if_neg hcode, hrest]
        simp [List.take_append]
      exact .inr ⟨rfl, hnext ▸ hrejects.not_viable⟩
  · have hviable := hrejects.not_viable
    rw [evidence, if_pos hcode] at hviable
    rw [htake]
    exact ⟨hviable, hrejects.viable_beyond hlimit⟩

section
private def openParen : Token := .spanning "(2 3" .lparen 0 1
private def boundTwo : Token := .spanning "(2 3" (.number (.int 2)) 1 2
private def strayThree : Token := .spanning "(2 3" (.number (.int 3)) 3 4
private def endOfTokens : Token := .spanning "(2 3" .eof 4 4

/-- The parser of `(2 3` under a limit. -/
private def unclosed (limit : Int) : Parser :=
  let start : State := ⟨[openParen, boundTwo, strayThree], endOfTokens, 0, 0⟩
  ⟨start, limit, start⟩

/-- With two levels `(2 3` fails at the `3`; with one it fails at the `2`, since nothing
that starts with a parenthesis is within the limit. -/
theorem parse_error_earliest_unclosed :
    ((unclosed 2).parse.1 = .error (.error ⟨⟨.missingParen, strayThree⟩, rfl⟩) ∧
      Viable 2 [openParen, boundTwo] ∧ ¬ Viable 2 [openParen, boundTwo, strayThree]) ∧
    ((unclosed 1).parse.1 = .error (.error ⟨⟨.nestedTooDeep 1, boundTwo⟩, rfl⟩) ∧
      ¬ Viable 1 [openParen] ∧ ∃ higher, 1 < higher ∧ Viable higher [openParen]) := by
  have herror : (unclosed 2).parse.1 = .error (.error ⟨⟨.missingParen, strayThree⟩, rfl⟩) := by cbv
  have htaken : (unclosed 2).parse.2.state.taken = 2 := by cbv
  have hdeep : (unclosed 1).parse.1 = .error (.error ⟨⟨.nestedTooDeep 1, boundTwo⟩, rfl⟩) := by cbv
  have hdeepTaken : (unclosed 1).parse.2.state.taken = 1 := by cbv
  have hparser : ∀ limits : Limits, Expression.parser
      [openParen, boundTwo, strayThree, endOfTokens] limits = .ok (unclosed limits.deepest) :=
    fun _ => rfl
  obtain ⟨k, hk, -, -, hother, -⟩ :=
    parse_error_earliest (hparser { depth := 2 }) (by decide) herror
  obtain ⟨j, hj, -, -, -, hnested⟩ :=
    parse_error_earliest (hparser { depth := 1 }) (by decide) hdeep
  obtain rfl : 2 = k := htaken.symm.trans hk
  obtain rfl : 1 = j := hdeepTaken.symm.trans hj
  obtain ⟨hviable, ⟨heof, -⟩ | ⟨-, hnot⟩⟩ := hother (by decide)
  · cases heof
  · exact ⟨⟨herror, hviable, hnot⟩, hdeep, hnested rfl⟩

end

end Grammar

end Reckon
