import Reckon.Proofs.Reading

/-!
Where reading stops with an error. The tokens read up to there can always be completed to a
derivation, and no derivation starts with them and the token at fault; if it is the depth
limit that stops reading, every derivation that starts with the tokens read goes beyond it.
That is `Stops`, and `read_stops` says it of every rule. With five frames for each level
reading never runs out of frames.
-/

namespace Reckon.Grammar

section
variable {α β : Type} {s t : State} {limit : Int} {n : Nat} {h : Halt}

theorem bind_eq_error {x : Read α} {f : α → Read β} :
    (x >>= f).run s = .error h t ↔
      x.run s = .error h t ∨ ∃ a s₁, x.run s = .ok a s₁ ∧ (f a).run s₁ = .error h t := by
  rw [EStateM.run_bind]
  cases hx : x.run s with
  | ok a s₁ =>
    constructor
    · intro hf
      exact .inr ⟨a, s₁, rfl, hf⟩
    · rintro (heq | ⟨a', s₂, heq, hf⟩)
      · cases heq
      · cases heq
        exact hf
  | error h' s₁ => simp

theorem bind_pure_eq_error {x : Read α} {g : α → β} :
    (x >>= fun a => pure (g a)).run s = .error h t ↔ x.run s = .error h t := by
  rw [bind_eq_error]
  simp

theorem nested_eq_error {body : Read Tree} (hrun : (nested limit body).run s = .error h t) :
    (limit ≤ s.depth ∧ h = .error ⟨.nestedTooDeep limit, s.next⟩ ∧ t = s) ∨
      ((s.depth : Int) < limit ∧ ∃ t', body.run s.deeper = .error h t' ∧ t = t'.shallower) := by
  by_cases hroom : (s.depth : Int) < limit
  · rw [nested_of_room body hroom] at hrun
    cases hbody : body.run s.deeper with
    | ok a s₁ =>
      rw [hbody] at hrun
      cases hrun
    | error h' t' =>
      rw [hbody] at hrun
      cases hrun
      exact .inr ⟨hroom, t', rfl, rfl⟩
  · rw [nested_of_full body (by omega)] at hrun
    cases hrun
    exact .inl ⟨by omega, rfl, rfl⟩

theorem factor_eq_error (hrun : (Rule.factor.read limit (n + 1)).run s = .error h t) :
    (limit ≤ s.depth ∧ h = .error ⟨.nestedTooDeep limit, s.next⟩ ∧ t = s) ∨
      ((s.depth : Int) < limit ∧ ∃ t', t = t'.shallower ∧
        ((isSign s.next.tag = true ∧
            (Rule.factor.read limit n).run s.deeper.advance = .error h t') ∨
          (isSign s.next.tag = false ∧ (Rule.power.read limit n).run s.deeper = .error h t'))) := by
  rw [Rule.read] at hrun
  rcases nested_eq_error hrun with hfull | ⟨hroom, t', hbody, ht⟩
  · exact .inl hfull
  · refine .inr ⟨hroom, t', ht, ?_⟩
    rw [peek_bind, State.deeper_next] at hbody
    cases hs : isSign s.next.tag with
    | false => exact .inr ⟨rfl, by simpa [hs] using hbody⟩
    | true =>
      simp only [hs, ↓reduceIte, advance_bind, bind_pure_eq_error] at hbody
      exact .inl ⟨rfl, hbody⟩

theorem power_eq_error (hrun : (Rule.power.read limit (n + 1)).run s = .error h t) :
    (Rule.atom.read limit n).run s = .error h t ∨
      ∃ base s₁, (Rule.atom.read limit n).run s = .ok base s₁ ∧ s₁.next.tag = .pow ∧
        (Rule.factor.read limit n).run s₁.advance = .error h t := by
  rw [Rule.read, bind_eq_error] at hrun
  rcases hrun with hbase | ⟨base, s₁, hbase, hrest⟩
  · exact .inl hbase
  · rw [peek_bind] at hrest
    by_cases hp : s₁.next.tag = .pow
    · simp only [hp, ↓reduceIte, advance_bind, bind_pure_eq_error] at hrest
      exact .inr ⟨base, s₁, hbase, hp, hrest⟩
    · simp [hp] at hrest

theorem atom_eq_error (hrun : (Rule.atom.read limit (n + 1)).run s = .error h t) :
    (s.next.tag = .lparen ∧ (Rule.expr.read limit n).run s.advance = .error h t) ∨
      (s.next.tag = .lparen ∧ t.next.tag ≠ .rparen ∧ h = .error ⟨.missingParen, t.next⟩ ∧
        ∃ inner, (Rule.expr.read limit n).run s.advance = .ok inner t) ∨
      (s.next.tag ≠ .number ∧ s.next.tag ≠ .lparen ∧
        h = .error (.unexpected operandText s.next) ∧ t = s) := by
  rw [Rule.read, peek_bind] at hrun
  cases hk : s.next.kind with
  | number v =>
    rw [hk] at hrun
    cases hrun
  | lparen =>
    have ht : s.next.tag = .lparen := by rw [Token.tag, hk]; rfl
    rw [hk] at hrun
    change (Rule.read limit n .expr >>= _).run s.advance = _ at hrun
    rcases bind_eq_error.mp hrun with hinner | ⟨inner, s₁, hinner, hclose⟩
    · exact .inl ⟨ht, hinner⟩
    · rw [peek_bind] at hclose
      split at hclose
      · cases hclose
      · next hr =>
        cases hclose
        exact .inr (.inl ⟨ht, hr, rfl, inner, hinner⟩)
  | _ =>
    have ht : s.next.tag ≠ .number ∧ s.next.tag ≠ .lparen := by
      rw [Token.tag, hk]
      simp [Kind.tag]
    rw [hk] at hrun
    cases hrun
    exact .inr (.inr ⟨ht.1, ht.2, rfl, rfl⟩)

/-- A chain fails only after an operator, at the operand or further on. -/
theorem chain_eq_error {joins : Tag → Bool} {operand : Read Tree} {k : Nat} {left : Tree}
    (hrun : (chain joins operand k left).run s = .error h t) :
    joins s.next.tag = true ∧ (operand.run s.advance = .error h t ∨
      ∃ j right s₁, k = j + 1 ∧ operand.run s.advance = .ok right s₁ ∧
        (chain joins operand j (.binary left s.next right)).run s₁ = .error h t) := by
  cases k with
  | zero => cases hrun
  | succ j =>
    rw [chain, peek_bind] at hrun
    cases hj : joins s.next.tag with
    | false => simp [hj] at hrun
    | true =>
      simp only [hj, ↓reduceIte, advance_bind] at hrun
      rcases bind_eq_error.mp hrun with hoperand | ⟨right, s₁, hoperand, hrest⟩
      · exact ⟨rfl, .inl hoperand⟩
      · exact ⟨rfl, .inr ⟨j, right, s₁, rfl, hoperand, hrest⟩⟩

theorem chained_eq_error {joins : Tag → Bool} {operand : Read Tree}
    (hrun : (chained joins operand).run s = .error h t) :
    operand.run s = .error h t ∨ ∃ left s₁, operand.run s = .ok left s₁ ∧
      (chain joins operand s₁.ahead.length left).run s₁ = .error h t := by
  rw [chained, bind_eq_error] at hrun
  exact hrun

end

namespace Level

/-- The rule by which the chain is read. -/
def rule : Level → Rule
  | sum => .expr
  | product => .term

theorem read_rule (l : Level) (limit : Int) (n : Nat) :
    l.rule.read limit (n + 1) = chained l.joins (l.operand.read limit n) := by
  cases l <;> rfl

theorem ends_rule {l : Level} {rest : List Token} :
    Ends (.rule l.rule) rest ↔ Ends (.further l) rest := by
  cases l <;> rfl

end Level

namespace Derivation

/-- A chain, of whichever kind. -/
def chain : (l : Level) → Derivation (.rule l.operand) → Derivation (.further l) →
    Derivation (.rule l.rule)
  | .sum, first, rest => .expr first rest
  | .product, first, rest => .term first rest

@[simp] theorem yield_chain {l : Level} (first : Derivation (.rule l.operand))
    (rest : Derivation (.further l)) : (chain l first rest).yield = first.yield ++ rest.yield := by
  cases l <;> rfl

@[simp] theorem nesting_chain {l : Level} (first : Derivation (.rule l.operand))
    (rest : Derivation (.further l)) :
    (chain l first rest).nesting = max first.nesting rest.nesting := by
  cases l <;> rfl

theorem exists_chain {l : Level} (d : Derivation (.rule l.rule)) :
    ∃ first rest, d = chain l first rest := by
  cases l with
  | sum =>
    cases d with
    | expr first rest => exact ⟨first, rest, rfl⟩
  | product =>
    cases d with
    | term first rest => exact ⟨first, rest, rfl⟩

end Derivation

/-- What shows that there is an error: the tokens read and the one at fault. A limit is
passed by the tokens read alone. -/
def evidence (e : Misfit) (v : List Token) : List Token :=
  if e.code = "P004" then v else v ++ [e.token]

theorem evidence_append (e : Misfit) (v w : List Token) :
    evidence e (v ++ w) = v ++ evidence e w := by
  unfold evidence
  split <;> simp

theorem evidence_cons (e : Misfit) (t : Token) (v : List Token) :
    evidence e (t :: v) = t :: evidence e v := evidence_append e [t] v

/-- Reading the part from one state on stops at the other, after the tokens `v`. -/
structure Stops (limit : Int) (p : Part) (s t : State) (e : Misfit) (v : List Token) :
    Prop where
  reads : s.Reads v t
  token : e.token = t.next
  viable : ∃ (d : Derivation p) (more : List Token), d.yield = v ++ more ∧
    (e.code ≠ "P004" → d.nesting ≤ s.room limit)
  refuted : ∀ (d : Derivation p) (rest : List Token), Ends p rest →
    evidence e v <+: d.yield ++ rest → e.code = "P004" ∧ s.room limit < d.nesting

/-- The evidence starts with the first token there is. -/
theorem Stops.head {limit : Int} {p : Part} {s t : State} {e : Misfit} {v : List Token}
    (h : Stops limit p s t e v) (hne : evidence e v ≠ []) :
    ∃ w, evidence e v = s.next :: w := by
  cases v with
  | nil =>
    obtain rfl := h.reads.eq_of_nil
    unfold evidence at hne ⊢
    split
    · next hcode => simp [hcode] at hne
    · exact ⟨[], by rw [h.token]; rfl⟩
  | cons x v => exact ⟨evidence e v, by rw [evidence_cons, h.reads.cons.1]⟩

theorem unexpected_code (expected : String) (t : Token) :
    (Misfit.unexpected expected t).code ≠ "P004" := by
  unfold Misfit.unexpected
  cases t.isEof <;> simp [Misfit.code]

/-- Any number there may be, to complete a derivation with. -/
private def someNumber : Token := .spanning "0" (.number (.int 0)) 0 1

/-- Any closing parenthesis there may be. -/
private def someRparen : Token := .spanning ")" .rparen 0 1

private def someAtom : Derivation (.rule .atom) := .number someNumber rfl

section
variable {limit : Int} {s s₁ t : State} {e : Misfit} {v : List Token}

theorem stops_full (h : limit ≤ s.depth) :
    Stops limit (.rule .factor) s s ⟨.nestedTooDeep limit, s.next⟩ [] := by
  refine ⟨.nil s, rfl, ?_, ?_⟩
  · refine ⟨.unsigned (.lone someAtom), [someNumber], rfl, fun hcode => absurd rfl hcode⟩
  · intro d rest _ _
    have hpos := d.factor_pos.1
    refine ⟨rfl, ?_⟩
    simp only [State.room]
    omega

theorem Stops.signed (heof : s.eof.isEof) (hroom : (s.depth : Int) < limit)
    (hs : isSign s.next.tag) (h : Stops limit (.rule .factor) s.deeper.advance t e v) :
    Stops limit (.rule .factor) s t.shallower e (s.next :: v) := by
  have hadv : s.deeper.Reads [s.next] s.deeper.advance :=
    State.advance_reads heof (joins_ne_eof (l := .sum) hs)
  have hdeeper : s.deeper.advance.room limit = s.deeper.room limit := State.advance_room limit
  refine ⟨(hadv.trans h.reads).shallower, h.token, ?_, ?_⟩
  · obtain ⟨d, more, hd, hfits⟩ := h.viable
    refine ⟨.signed s.next hs d, more, by simp [Derivation.yield, hd], fun hcode => ?_⟩
    exact State.lt_room_iff.mpr ⟨hroom, hdeeper ▸ hfits hcode⟩
  · intro d rest hends hpre
    rw [evidence_cons] at hpre
    cases d with
    | signed op hop operand =>
      obtain ⟨rfl, htail⟩ := List.cons_prefix_cons.mp hpre
      obtain ⟨hcode, hlt⟩ := h.refuted operand rest hends htail
      refine ⟨hcode, ?_⟩
      simp only [Derivation.nesting, State.room, State.deeper] at hlt hdeeper ⊢
      omega
    | unsigned body =>
      obtain ⟨more, hmore⟩ := hpre
      exact absurd hmore.symm (body.power_ne_signed hs _ _)

theorem Stops.unsigned (hroom : (s.depth : Int) < limit) (hs : isSign s.next.tag = false)
    (h : Stops limit (.rule .power) s.deeper t e v) (hne : evidence e v ≠ []) :
    Stops limit (.rule .factor) s t.shallower e v := by
  refine ⟨h.reads.shallower, h.token, ?_, ?_⟩
  · obtain ⟨d, more, hd, hfits⟩ := h.viable
    refine ⟨.unsigned d, more, hd, fun hcode => ?_⟩
    exact State.lt_room_iff.mpr ⟨hroom, hfits hcode⟩
  · intro d rest hends hpre
    cases d with
    | signed op hop operand =>
      obtain ⟨w, hw⟩ := h.head hne
      rw [hw] at hpre
      obtain ⟨rfl, -⟩ := List.cons_prefix_cons.mp hpre
      rw [State.deeper_next, hs] at hop
      cases hop
    | unsigned body =>
      obtain ⟨hcode, hlt⟩ := h.refuted body rest hends hpre
      refine ⟨hcode, ?_⟩
      simp only [Derivation.nesting, State.room, State.deeper] at hlt ⊢
      omega

theorem Stops.base (h : Stops limit (.rule .atom) s t e v) :
    Stops limit (.rule .power) s t e v := by
  refine ⟨h.reads, h.token, ?_, ?_⟩
  · obtain ⟨d, more, hd, hfits⟩ := h.viable
    exact ⟨.lone d, more, hd, hfits⟩
  · intro d rest _ hpre
    cases d with
    | lone base => exact h.refuted base rest (ends_atom _) hpre
    | power base op hop exponent =>
      simp only [Derivation.yield, List.append_assoc] at hpre
      obtain ⟨hcode, hlt⟩ := h.refuted base _ (ends_atom _) hpre
      exact ⟨hcode, Nat.lt_of_lt_of_le hlt (Nat.le_max_left _ _)⟩

theorem Stops.exponent {base : Derivation (.rule .atom)} (heof : s.eof.isEof)
    (hbase : Spans limit base s s₁) (hp : s₁.next.tag = .pow)
    (h : Stops limit (.rule .factor) s₁.advance t e v) :
    Stops limit (.rule .power) s t e (base.yield ++ s₁.next :: v) := by
  have hadv := State.advance_reads (by rwa [hbase.reads.eof]) (s := s₁) (by simp [hp])
  have hroom : s₁.advance.room limit = s.room limit := by
    rw [State.advance_room, hbase.reads.room]
  refine ⟨hbase.reads.trans (hadv.trans h.reads), h.token, ?_, ?_⟩
  · obtain ⟨d, more, hd, hfits⟩ := h.viable
    refine ⟨.power base s₁.next hp d, more, by simp [Derivation.yield, hd], fun hcode => ?_⟩
    exact Nat.max_le.mpr ⟨hbase.fits, hroom ▸ hfits hcode⟩
  · intro d rest hends hpre
    rw [evidence_append, evidence_cons] at hpre
    obtain ⟨more, hmore⟩ := hpre
    rw [List.append_assoc] at hmore
    cases d with
    | lone base' =>
      -- the operator would have to follow the power, which it does not end
      obtain ⟨-, rfl⟩ := base.unique base' hmore (ends_atom _) (ends_atom _)
      simp [ends_cons, hp, Part.continuedBy] at hends
    | power base' op' hop' exponent' =>
      simp only [Derivation.yield, List.append_assoc, List.cons_append] at hmore
      obtain ⟨rfl, htail⟩ := base.unique base' hmore (ends_atom _) (ends_atom _)
      obtain ⟨rfl, hexp⟩ := List.cons.inj htail
      obtain ⟨hcode, hlt⟩ := h.refuted exponent' rest hends ⟨more, hexp⟩
      exact ⟨hcode, Nat.lt_of_lt_of_le (hroom ▸ hlt) (Nat.le_max_right _ _)⟩

theorem Stops.enclosed (heof : s.eof.isEof) (hl : s.next.tag = .lparen)
    (h : Stops limit (.rule .expr) s.advance t e v) :
    Stops limit (.rule .atom) s t e (s.next :: v) := by
  have hopen := State.advance_reads heof (by simp [hl])
  refine ⟨hopen.trans h.reads, h.token, ?_, ?_⟩
  · obtain ⟨d, more, hd, hfits⟩ := h.viable
    refine ⟨.parens s.next hl d someRparen rfl, more ++ [someRparen], ?_, ?_⟩
    · simp [Derivation.yield, hd]
    · simpa [Derivation.nesting] using hfits
  · intro d rest _ hpre
    rw [evidence_cons] at hpre
    cases d with
    | number u hu =>
      obtain ⟨rfl, -⟩ := List.cons_prefix_cons.mp hpre
      simp [hl] at hu
    | parens l' hl' inner r hr =>
      simp only [Derivation.yield, List.cons_append, List.append_assoc] at hpre
      obtain ⟨-, hpre⟩ := List.cons_prefix_cons.mp hpre
      obtain ⟨hcode, hlt⟩ := h.refuted inner _ (ends_rparen hr) hpre
      exact ⟨hcode, by simpa [Derivation.nesting] using hlt⟩

theorem stops_unclosed {inner : Derivation (.rule .expr)} (heof : s.eof.isEof)
    (hl : s.next.tag = .lparen) (hinner : Spans limit inner s.advance t)
    (hr : t.next.tag ≠ .rparen) :
    Stops limit (.rule .atom) s t ⟨.missingParen, t.next⟩ (s.next :: inner.yield) := by
  have hopen := State.advance_reads heof (by simp [hl])
  have hread := hopen.trans hinner.reads
  refine ⟨hread, rfl, ?_, ?_⟩
  · refine ⟨.parens s.next hl inner someRparen rfl, [someRparen], by simp [Derivation.yield], ?_⟩
    intro _
    simpa [Derivation.nesting] using hinner.fits
  · intro d rest _ hpre
    have hevidence : evidence ⟨.missingParen, t.next⟩ (s.next :: inner.yield) =
        s.next :: (inner.yield ++ [t.next]) := rfl
    rw [hevidence] at hpre
    cases d with
    | number u hu =>
      obtain ⟨rfl, -⟩ := List.cons_prefix_cons.mp hpre
      simp [hl] at hu
    | parens l' hl' inner' r hr' =>
      simp only [Derivation.yield, List.cons_append, List.append_assoc] at hpre
      obtain ⟨-, more, hmore⟩ := List.cons_prefix_cons.mp hpre
      simp only [List.append_assoc, List.cons_append] at hmore
      have hends : Ends (.rule .expr) (t.next :: ([] ++ more)) := by
        rw [ends_cons, ← State.ends_iff (by rwa [hread.eof])]
        exact hinner.ends
      obtain ⟨-, htail⟩ := inner.unique inner' hmore hends (ends_rparen hr')
      obtain ⟨hnext, -⟩ := List.cons.inj htail
      exact absurd (hnext ▸ hr') hr

theorem stops_unexpected (hnumber : s.next.tag ≠ .number) (hl : s.next.tag ≠ .lparen) :
    Stops limit (.rule .atom) s s (.unexpected operandText s.next) [] := by
  refine ⟨.nil s, rfl, ⟨someAtom, [someNumber], rfl, fun _ => Nat.zero_le _⟩, ?_⟩
  intro d rest _ hpre
  obtain ⟨x, w, hw, hx⟩ := d.atom_head
  rw [evidence, if_neg (unexpected_code _ _), hw] at hpre
  obtain ⟨hnext : s.next = x, -⟩ := List.cons_prefix_cons.mp hpre
  rcases hx with hx | hx
  · exact absurd (hnext ▸ hx) hnumber
  · exact absurd (hnext ▸ hx) hl

theorem Stops.first {l : Level} (h : Stops limit (.rule l.operand) s t e v) :
    Stops limit (.rule l.rule) s t e v := by
  refine ⟨h.reads, h.token, ?_, ?_⟩
  · obtain ⟨d, more, hd, hfits⟩ := h.viable
    refine ⟨.chain l d (.done l), more, by simp [Derivation.yield, hd], fun hcode => ?_⟩
    simpa [Derivation.nesting] using hfits hcode
  · intro d rest hends hpre
    obtain ⟨first, further, rfl⟩ := d.exists_chain
    rw [Derivation.yield_chain, List.append_assoc] at hpre
    rw [Level.ends_rule] at hends
    obtain ⟨hcode, hlt⟩ := h.refuted first _ (further.ends_operand hends) hpre
    rw [Derivation.nesting_chain]
    exact ⟨hcode, Nat.lt_of_lt_of_le hlt (Nat.le_max_left _ _)⟩

/-- A derivation that starts like the tokens read has the same first operand, since the
operator that was read after it ends it. -/
theorem Stops.rest {l : Level} {first : Derivation (.rule l.operand)}
    (hfirst : Spans limit first s s₁) (hj : l.joins s₁.next.tag)
    (h : Stops limit (.further l) s₁ t e (s₁.next :: v)) :
    Stops limit (.rule l.rule) s t e (first.yield ++ s₁.next :: v) := by
  refine ⟨hfirst.reads.trans h.reads, h.token, ?_, ?_⟩
  · obtain ⟨d, more, hd, hfits⟩ := h.viable
    refine ⟨.chain l first d, more, by simp [hd], fun hcode => ?_⟩
    rw [Derivation.nesting_chain]
    exact Nat.max_le.mpr ⟨hfirst.fits, hfirst.reads.room limit ▸ hfits hcode⟩
  · intro d rest hends hpre
    obtain ⟨first', further, rfl⟩ := d.exists_chain
    rw [evidence_append, evidence_cons, Derivation.yield_chain, List.append_assoc] at hpre
    rw [Level.ends_rule] at hends
    obtain ⟨more, hmore⟩ := hpre
    rw [List.append_assoc, List.cons_append] at hmore
    obtain ⟨rfl, htail⟩ := first.unique first' hmore (ends_operand_of_joins hj _)
      (further.ends_operand hends)
    obtain ⟨hcode, hlt⟩ := h.refuted further rest hends ⟨more, by rw [evidence_cons]; exact htail⟩
    rw [Derivation.nesting_chain, ← hfirst.reads.room limit]
    exact ⟨hcode, Nat.lt_of_lt_of_le hlt (Nat.le_max_right _ _)⟩

/-- After an operator of a chain the rest of it is a chain again. -/
theorem Stops.joined {l : Level} (heof : s.eof.isEof) (hj : l.joins s.next.tag)
    (h : Stops limit (.rule l.rule) s.advance t e v) :
    Stops limit (.further l) s t e (s.next :: v) := by
  have hadv := State.advance_reads heof (joins_ne_eof hj)
  refine ⟨hadv.trans h.reads, h.token, ?_, ?_⟩
  · obtain ⟨d, more, hd, hfits⟩ := h.viable
    obtain ⟨first, further, rfl⟩ := d.exists_chain
    rw [Derivation.yield_chain] at hd
    refine ⟨.more l s.next hj first further, more, by simp [Derivation.yield, hd], ?_⟩
    simpa [Derivation.nesting] using hfits
  · intro d rest hends hpre
    rw [evidence_cons] at hpre
    cases d with
    | done =>
      obtain ⟨more, hmore⟩ := hpre
      obtain rfl : _ = rest := hmore
      exact absurd hends (not_ends_of_joins hj _)
    | more _ op hop operand further =>
      simp only [Derivation.yield, List.cons_append] at hpre
      obtain ⟨-, hpre⟩ := List.cons_prefix_cons.mp hpre
      rw [← Derivation.yield_chain] at hpre
      obtain ⟨hcode, hlt⟩ := h.refuted _ rest (Level.ends_rule.mpr hends) hpre
      exact ⟨hcode, by simpa [Derivation.nesting] using hlt⟩

end

section
variable {limit : Int} {n : Nat} {l : Level}
    (ih : ∀ {s t : State} {h : Halt}, s.eof.isEof →
      5 * s.room limit + (Part.rule l.operand).frames ≤ n →
      (l.operand.read limit n).run s = .error h t →
      ∃ e v, h = .error e ∧ Stops limit (.rule l.operand) s t e v)
include ih

theorem chain_stops {k : Nat} {left : Tree} {s t : State} {h : Halt} (heof : s.eof.isEof)
    (hn : 5 * s.room limit + (Part.rule l.operand).frames ≤ n)
    (hrun : (chain l.joins (l.operand.read limit n) k left).run s = .error h t) :
    ∃ e v, h = .error e ∧ l.joins s.next.tag ∧ Stops limit (.further l) s t e (s.next :: v) := by
  induction k generalizing left s with
  | zero => cases hrun
  | succ k ihk =>
    obtain ⟨hj, hoperand | ⟨j, right, s₁, hk, hoperand, hrest⟩⟩ := chain_eq_error hrun
    · obtain ⟨e, v, rfl, hstops⟩ := ih (by simpa using heof) (by simpa using hn) hoperand
      exact ⟨e, v, rfl, hj, hstops.first.joined heof hj⟩
    · obtain rfl : k = j := by omega
      obtain ⟨first, -, hfirst⟩ := read_sound (by simpa using heof) hoperand
      have hroom : s₁.room limit = s.room limit := by
        rw [hfirst.reads.room, State.advance_room]
      obtain ⟨e, v, rfl, hj₁, hstops⟩ :=
        ihk (by simpa [hfirst.reads.eof] using heof) (by rwa [hroom]) hrest
      exact ⟨e, _, rfl, hj, (hstops.rest hfirst hj₁).joined heof hj⟩

theorem chained_stops {s t : State} {h : Halt} (heof : s.eof.isEof)
    (hn : 5 * s.room limit + (Part.rule l.operand).frames ≤ n)
    (hrun : (l.rule.read limit (n + 1)).run s = .error h t) :
    ∃ e v, h = .error e ∧ Stops limit (.rule l.rule) s t e v := by
  rw [l.read_rule] at hrun
  rcases chained_eq_error hrun with hfirst | ⟨left, s₁, hleft, hrest⟩
  · obtain ⟨e, v, rfl, hstops⟩ := ih heof hn hfirst
    exact ⟨e, v, rfl, hstops.first⟩
  · obtain ⟨first, -, hfirst⟩ := read_sound heof hleft
    obtain ⟨e, v, rfl, hj, hstops⟩ := chain_stops ih (by rwa [hfirst.reads.eof])
      (by rwa [hfirst.reads.room]) hrest
    exact ⟨e, _, rfl, hstops.rest hfirst hj⟩

end

/-- With five frames for each level reading fails only by an error that stops it. A power or
an atom looks at a token before it fails; the other rules start with the depth. -/
theorem read_stops {limit : Int} {n : Nat} {r : Rule} {s t : State} {h : Halt}
    (heof : s.eof.isEof) (hn : 5 * s.room limit + (Part.rule r).frames ≤ n)
    (hrun : (r.read limit n).run s = .error h t) :
    ∃ e v, h = .error e ∧ Stops limit (.rule r) s t e v ∧
      (r = .power ∨ r = .atom → evidence e v ≠ []) := by
  induction n generalizing r s t h with
  | zero => cases r <;> simp [Part.frames] at hn
  | succ n ih =>
    have ih' : ∀ {r : Rule} {s t : State} {h : Halt}, s.eof.isEof →
        5 * s.room limit + (Part.rule r).frames ≤ n → (r.read limit n).run s = .error h t →
        ∃ e v, h = .error e ∧ Stops limit (.rule r) s t e v := by
      intro r s t h heof hn hrun
      obtain ⟨e, v, he, hstops, -⟩ := ih heof hn hrun
      exact ⟨e, v, he, hstops⟩
    cases r with
    | expr =>
      obtain ⟨e, v, rfl, hstops⟩ :=
        chained_stops (l := .sum) ih' heof (Nat.le_of_succ_le_succ hn) hrun
      exact ⟨e, v, rfl, hstops, by simp⟩
    | term =>
      obtain ⟨e, v, rfl, hstops⟩ :=
        chained_stops (l := .product) ih' heof (Nat.le_of_succ_le_succ hn) hrun
      exact ⟨e, v, rfl, hstops, by simp⟩
    | factor =>
      simp only [Part.frames] at hn
      rcases factor_eq_error hrun with ⟨hfull, rfl, rfl⟩ | ⟨hroom, t', rfl, hbody⟩
      · exact ⟨_, _, rfl, stops_full hfull, by simp⟩
      · have hlevel : s.room limit = s.deeper.room limit + 1 := by
          simp only [State.room, State.deeper]
          omega
        rcases hbody with ⟨hs, hbody⟩ | ⟨hs, hbody⟩
        · obtain ⟨e, v, rfl, hstops⟩ := ih' (by simpa using heof)
            (by simp only [State.advance_room, Part.frames]; omega) hbody
          exact ⟨e, _, rfl, hstops.signed heof hroom hs, by simp⟩
        · obtain ⟨e, v, rfl, hstops, hne⟩ := ih (by simpa using heof)
            (by simp only [Part.frames]; omega) hbody
          exact ⟨e, v, rfl, hstops.unsigned hroom hs (hne (.inl rfl)), by simp⟩
    | power =>
      simp only [Part.frames] at hn
      rcases power_eq_error hrun with hbase | ⟨base, s₁, hbase, hp, hexp⟩
      · obtain ⟨e, v, rfl, hstops, hne⟩ := ih heof (by simp only [Part.frames]; omega) hbase
        exact ⟨e, v, rfl, hstops.base, fun _ => hne (.inr rfl)⟩
      · obtain ⟨d, -, hd⟩ := read_sound heof hbase
        obtain ⟨e, v, rfl, hstops⟩ := ih' (by simpa [hd.reads.eof] using heof)
          (by simp only [State.advance_room, hd.reads.room, Part.frames]; omega) hexp
        refine ⟨e, _, rfl, hstops.exponent heof hd hp, fun _ => ?_⟩
        simp [evidence_append, evidence_cons]
    | atom =>
      simp only [Part.frames] at hn
      rcases atom_eq_error hrun with ⟨hl, hinner⟩ | ⟨hl, hr, rfl, inner, hinner⟩ |
        ⟨hnumber, hl, rfl, rfl⟩
      · obtain ⟨e, v, rfl, hstops⟩ := ih' (by simpa using heof)
          (by simp only [State.advance_room, Part.frames]; omega) hinner
        exact ⟨e, _, rfl, hstops.enclosed heof hl, by simp [evidence_cons]⟩
      · obtain ⟨d, -, hd⟩ := read_sound (by simpa using heof) hinner
        exact ⟨_, _, rfl, stops_unclosed heof hl hd hr, by simp [evidence_cons]⟩
      · refine ⟨_, _, rfl, stops_unexpected hnumber hl, fun _ => ?_⟩
        simp [evidence, unexpected_code]

end Reckon.Grammar
