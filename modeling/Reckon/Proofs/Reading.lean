import Reckon.Proofs.Derivation

/-!
What reading by a rule amounts to. What a rule reads has a derivation by it (`read_sound`),
and a derivation is read if there is room for its levels and five frames for each of them
(`Derivation.accepted`). Both go by one lemma for each rule, `factor_eq_ok` and its like,
which says when that rule comes to a tree.
-/

namespace Reckon.Grammar

namespace State

/-- Reading the tokens `w` leads from one state to the other. -/
def Reads (s : State) (w : List Token) (s' : State) : Prop :=
  s.ahead = w ++ s'.ahead ∧ s' = { s with ahead := s'.ahead, taken := s.taken + w.length }

/-- One level further in. -/
def deeper (s : State) : State := { s with depth := s.depth + 1 }

/-- One level further out. -/
def shallower (s : State) : State := { s with depth := s.depth - 1 }

/-- How many levels there are below the present one. -/
def room (s : State) (limit : Int) : Nat := (limit - s.depth).toNat

variable {s s' s'' : State} {t : Token} {w w' : List Token}

@[simp] theorem deeper_next : s.deeper.next = s.next := rfl

@[simp] theorem deeper_eof : s.deeper.eof = s.eof := rfl

@[simp] theorem advance_eof : s.advance.eof = s.eof := by
  unfold advance
  split <;> rfl

@[simp] theorem advance_room (limit : Int) : s.advance.room limit = s.room limit := by
  unfold advance
  split <;> rfl

theorem lt_room_iff {limit : Int} {k : Nat} :
    k < s.room limit ↔ (s.depth : Int) < limit ∧ k ≤ s.deeper.room limit := by
  simp only [room, deeper]
  omega

namespace Reads

theorem nil (s : State) : s.Reads [] s := ⟨rfl, rfl⟩

theorem eof (h : s.Reads w s') : s'.eof = s.eof := by rw [h.2]

theorem depth (h : s.Reads w s') : s'.depth = s.depth := by rw [h.2]

theorem room (h : s.Reads w s') (limit : Int) : s'.room limit = s.room limit := by
  simp only [State.room, h.depth]

theorem eq_of_nil (h : s.Reads [] s') : s' = s := by
  obtain ⟨hahead, hs'⟩ := h
  rw [hs', ← List.nil_append s'.ahead, ← hahead]
  rfl

theorem trans (h : s.Reads w s') (h' : s'.Reads w' s'') : s.Reads (w ++ w') s'' := by
  refine ⟨by rw [h.1, h'.1, List.append_assoc], ?_⟩
  rw [h'.2, h.2]
  simp [Nat.add_assoc]

theorem split (h : s.Reads (w ++ w') s'') : ∃ s', s.Reads w s' ∧ s'.Reads w' s'' := by
  refine ⟨{ s with ahead := w' ++ s''.ahead, taken := s.taken + w.length }, ?_, rfl, ?_⟩
  · exact ⟨by rw [h.1, List.append_assoc], rfl⟩
  · rw [h.2]
    simp [Nat.add_assoc]

theorem cons (h : s.Reads (t :: w) s') : s.next = t ∧ s.advance.Reads w s' := by
  have hahead : s.ahead = t :: (w ++ s'.ahead) := h.1
  refine ⟨by rw [next, hahead]; rfl, by rw [advance, hahead], ?_⟩
  rw [h.2, advance, hahead]
  simp
  omega

theorem deeper (h : s.Reads w s') : s.deeper.Reads w s'.deeper :=
  ⟨h.1, by rw [h.2]; rfl⟩

theorem shallower (h : s.deeper.Reads w s') : s.Reads w s'.shallower := by
  refine ⟨h.1, ?_⟩
  rw [h.2]
  rfl

end Reads

theorem advance_reads (heof : s.eof.isEof) (h : s.next.tag ≠ .eof) :
    s.Reads [s.next] s.advance := by
  obtain ⟨ahead, eof, taken, depth⟩ := s
  cases ahead with
  | nil => simp_all [next, Token.isEof, Token.tag, Kind.tag]
  | cons t rest => exact ⟨rfl, rfl⟩

theorem ends_iff {p : Part} (heof : s.eof.isEof) :
    Ends p s.ahead ↔ p.continuedBy s.next.tag = false := by
  obtain ⟨ahead, eof, taken, depth⟩ := s
  cases ahead with
  | nil =>
    have htag : eof.tag = .eof := by simp_all [Token.isEof, Token.tag, Kind.tag]
    simp only [next, List.headD_nil, htag, ends_nil, true_iff]
    cases p with
    | rule r => cases r <;> rfl
    | further l => cases l <;> rfl
  | cons t rest => exact ends_cons

end State

theorem continuedBy_further (l : Level) (t : Tag) :
    (Part.further l).continuedBy t = ((Part.rule l.operand).continuedBy t || l.joins t) := by
  cases l <;> simp [Part.continuedBy, Level.operand, Level.joins]

theorem joins_ne_eof {l : Level} {t : Tag} (h : l.joins t) : t ≠ .eof := by
  rintro rfl
  cases l <;> cases h

section
variable {α β : Type} {s s' s'' : State} {limit : Int} {n : Nat} {t : Tree}

theorem bind_eq_ok {x : Read α} {f : α → Read β} {b : β} :
    (x >>= f).run s = .ok b s'' ↔ ∃ a s', x.run s = .ok a s' ∧ (f a).run s' = .ok b s'' := by
  rw [EStateM.run_bind]
  cases h : x.run s with
  | ok a s' =>
    constructor
    · intro hf
      exact ⟨a, s', rfl, hf⟩
    · rintro ⟨a', s₁, heq, hf⟩
      cases heq
      exact hf
  | error e s' => simp

@[simp] theorem run_pure (a : α) : (pure a : Read α).run s = .ok a s := rfl

theorem peek_bind {f : Token → Read β} : (peek >>= f).run s = (f s.next).run s := rfl

theorem advance_bind {f : Token → Read β} : (advance >>= f).run s = (f s.next).run s.advance := rfl

theorem bind_pure_eq_ok {x : Read α} {g : α → β} {b : β} :
    (x >>= fun a => pure (g a)).run s = .ok b s' ↔ ∃ a, b = g a ∧ x.run s = .ok a s' := by
  rw [bind_eq_ok]
  constructor
  · rintro ⟨a, s₁, hx, heq⟩
    cases heq
    exact ⟨a, rfl, hx⟩
  · rintro ⟨a, rfl, hx⟩
    exact ⟨a, s', hx, rfl⟩

/-- The outcome of what was read one level further in. -/
def outward : EStateM.Result Halt State Tree → EStateM.Result Halt State Tree
  | .ok t s => .ok t s.shallower
  | .error e s => .error e s.shallower

theorem nested_of_full (body : Read Tree) (h : limit ≤ s.depth) :
    (nested limit body).run s = .error (.error ⟨.nestedTooDeep limit, s.next⟩) s := by
  have hlt : limit < ((s.depth + 1 : Nat) : Int) := by omega
  change outward (if limit < ((s.depth + 1 : Nat) : Int)
    then (fail (.nestedTooDeep limit)).run s.deeper else body.run s.deeper) = _
  rw [if_pos hlt]
  rfl

theorem nested_of_room (body : Read Tree) (h : (s.depth : Int) < limit) :
    (nested limit body).run s = outward (body.run s.deeper) := by
  have hle : ¬ limit < ((s.depth + 1 : Nat) : Int) := by omega
  change outward (if limit < ((s.depth + 1 : Nat) : Int)
    then (fail (.nestedTooDeep limit)).run s.deeper else body.run s.deeper) = _
  rw [if_neg hle]

theorem nested_eq_ok {body : Read Tree} :
    (nested limit body).run s = .ok t s' ↔
      (s.depth : Int) < limit ∧ ∃ s₁, body.run s.deeper = .ok t s₁ ∧ s' = s₁.shallower := by
  by_cases h : (s.depth : Int) < limit
  · rw [nested_of_room body h]
    cases hb : body.run s.deeper with
    | ok t' s₁ =>
      simp only [outward, EStateM.Result.ok.injEq, h, true_and]
      constructor
      · rintro ⟨rfl, rfl⟩
        exact ⟨s₁, ⟨rfl, rfl⟩, rfl⟩
      · rintro ⟨_, ⟨rfl, rfl⟩, rfl⟩
        exact ⟨rfl, rfl⟩
    | error e s₁ => simp [outward]
  · rw [nested_of_full body (by omega)]
    simp [h]

theorem chain_succ_eq_ok {joins : Tag → Bool} {operand : Read Tree} {k : Nat} {left : Tree} :
    (chain joins operand (k + 1) left).run s = .ok t s' ↔
      (joins s.next.tag = false ∧ t = left ∧ s' = s) ∨
      (joins s.next.tag = true ∧ ∃ right s₁, operand.run s.advance = .ok right s₁ ∧
        (chain joins operand k (.binary left s.next right)).run s₁ = .ok t s') := by
  rw [chain, peek_bind]
  cases hj : joins s.next.tag with
  | false => simp [eq_comm]
  | true =>
    simp only [↓reduceIte]
    rw [advance_bind, bind_eq_ok]
    simp

theorem chained_eq_ok {joins : Tag → Bool} {operand : Read Tree} :
    (chained joins operand).run s = .ok t s' ↔
      ∃ left s₁, operand.run s = .ok left s₁ ∧
        (chain joins operand s₁.ahead.length left).run s₁ = .ok t s' := by
  rw [chained, bind_eq_ok]
  rfl

theorem factor_eq_ok :
    (Rule.factor.read limit (n + 1)).run s = .ok t s' ↔
      (s.depth : Int) < limit ∧ ∃ s₁, s' = s₁.shallower ∧
        ((isSign s.next.tag = true ∧ ∃ x, t = .unary s.next x ∧
            (Rule.factor.read limit n).run s.deeper.advance = .ok x s₁) ∨
          (isSign s.next.tag = false ∧ (Rule.power.read limit n).run s.deeper = .ok t s₁)) := by
  rw [Rule.read, nested_eq_ok, peek_bind, State.deeper_next]
  cases hs : isSign s.next.tag with
  | false => simp [and_comm]
  | true =>
    simp only [↓reduceIte, advance_bind, State.deeper_next, bind_pure_eq_ok]
    simp [and_comm]

theorem power_eq_ok :
    (Rule.power.read limit (n + 1)).run s = .ok t s' ↔
      ∃ base s₁, (Rule.atom.read limit n).run s = .ok base s₁ ∧
        ((s₁.next.tag ≠ .pow ∧ t = base ∧ s' = s₁) ∨
          (s₁.next.tag = .pow ∧ ∃ e, t = .binary base s₁.next e ∧
            (Rule.factor.read limit n).run s₁.advance = .ok e s')) := by
  rw [Rule.read, bind_eq_ok]
  refine exists_congr fun base => exists_congr fun s₁ => and_congr_right fun _ => ?_
  rw [peek_bind]
  by_cases hp : s₁.next.tag = .pow
  · simp only [hp, ↓reduceIte, advance_bind, bind_pure_eq_ok]
    simp
  · simp [hp, eq_comm]

theorem atom_eq_ok :
    (Rule.atom.read limit (n + 1)).run s = .ok t s' ↔
      (s.next.tag = .number ∧ t = .number s.next ∧ s' = s.advance) ∨
      (s.next.tag = .lparen ∧ ∃ s₁, (Rule.expr.read limit n).run s.advance = .ok t s₁ ∧
        s₁.next.tag = .rparen ∧ s' = s₁.advance) := by
  rw [Rule.read, peek_bind]
  cases hk : s.next.kind with
  | number v =>
    have ht : s.next.tag = .number := by rw [Token.tag, hk]; rfl
    simp only [advance_bind, run_pure, EStateM.Result.ok.injEq, ht, true_and, reduceCtorEq,
      false_and, or_false, eq_comm]
  | lparen =>
    have ht : s.next.tag = .lparen := by rw [Token.tag, hk]; rfl
    simp only [ht, reduceCtorEq, false_and, false_or, true_and]
    change (Rule.read limit n .expr >>= _).run s.advance = _ ↔ _
    rw [bind_eq_ok]
    constructor
    · rintro ⟨inner, s₁, hinner, hclose⟩
      rw [peek_bind] at hclose
      split at hclose
      · next hr =>
        cases hclose
        exact ⟨s₁, hinner, hr, rfl⟩
      · cases hclose
    · rintro ⟨s₁, hinner, hr, rfl⟩
      refine ⟨t, s₁, hinner, ?_⟩
      rw [peek_bind, if_pos hr]
      rfl
  | _ =>
    have ht : s.next.tag ≠ .number ∧ s.next.tag ≠ .lparen := by
      rw [Token.tag, hk]
      simp [Kind.tag]
    simp only [ht, false_and, or_self, iff_false]
    intro h
    cases h

end

/-- The derivation stands at the first state and ends at the second, within the limit. -/
structure Spans (limit : Int) {p : Part} (d : Derivation p) (s s' : State) : Prop where
  reads : s.Reads d.yield s'
  fits : d.nesting ≤ s.room limit
  ends : Ends p s'.ahead

section
variable {limit : Int} {l : Level} {operand : Read Tree}

/-- An operand followed by further ones, seen as two derivations or as one chain. -/
theorem spans_chain_iff (first : Derivation (.rule l.operand)) (rest : Derivation (.further l))
    {s s' : State} :
    (∃ s₁, Spans limit first s s₁ ∧ Spans limit rest s₁ s') ↔
      s.Reads (first.yield ++ rest.yield) s' ∧
        max first.nesting rest.nesting ≤ s.room limit ∧ Ends (.further l) s'.ahead := by
  constructor
  · rintro ⟨s₁, hf, hr⟩
    have hfits := hr.fits
    rw [hf.reads.room] at hfits
    exact ⟨hf.reads.trans hr.reads, Nat.max_le.mpr ⟨hf.fits, hfits⟩, hr.ends⟩
  · rintro ⟨hreads, hfits, hends⟩
    obtain ⟨s₁, hf, hr⟩ := hreads.split
    obtain ⟨hfitsf, hfitsr⟩ := Nat.max_le.mp hfits
    exact ⟨s₁, ⟨hf, hfitsf, hr.1 ▸ rest.ends_operand hends⟩, hr, by rwa [hf.room], hends⟩

theorem chain_sound
    (hoperand : ∀ {s s' : State} {t : Tree}, s.eof.isEof → operand.run s = .ok t s' →
      ∃ d : Derivation (.rule l.operand), d.tree = t ∧ Spans limit d s s')
    {k : Nat} {left t : Tree} {s s' : State} (heof : s.eof.isEof) (hk : s.ahead.length ≤ k)
    (hends : Ends (.rule l.operand) s.ahead)
    (h : (chain l.joins operand k left).run s = .ok t s') :
    ∃ d : Derivation (.further l), d.tree left = t ∧ Spans limit d s s' := by
  induction k generalizing left s with
  | zero =>
    cases h
    have hnil : s'.ahead = [] := List.length_eq_zero_iff.mp (by omega)
    exact ⟨.done l, rfl, .nil s', Nat.zero_le _, hnil ▸ ends_nil _⟩
  | succ k ih =>
    rcases chain_succ_eq_ok.mp h with ⟨hj, rfl, rfl⟩ | ⟨hj, right, s₁, hright, hrest⟩
    · refine ⟨.done l, rfl, .nil _, Nat.zero_le _, ?_⟩
      rw [State.ends_iff heof] at hends ⊢
      rw [continuedBy_further, hends, hj]
      rfl
    · have hadv := State.advance_reads heof (joins_ne_eof hj)
      obtain ⟨d, rfl, hd⟩ := hoperand (by simpa using heof) hright
      have hread := hadv.trans hd.reads
      have hshort : s₁.ahead.length ≤ k := by
        have := congrArg List.length hread.1
        simp at this
        omega
      obtain ⟨d', rfl, hd'⟩ := ih (by rwa [hread.eof]) hshort hd.ends hrest
      obtain ⟨hreads, hfits, hends'⟩ := (spans_chain_iff _ _).mp ⟨s₁, hd, hd'⟩
      rw [State.advance_room] at hfits
      exact ⟨.more l s.next hj d d', rfl, hadv.trans hreads, hfits, hends'⟩

theorem chained_sound
    (hoperand : ∀ {s s' : State} {t : Tree}, s.eof.isEof → operand.run s = .ok t s' →
      ∃ d : Derivation (.rule l.operand), d.tree = t ∧ Spans limit d s s')
    {t : Tree} {s s' : State} (heof : s.eof.isEof)
    (h : (chained l.joins operand).run s = .ok t s') :
    ∃ (first : Derivation (.rule l.operand)) (rest : Derivation (.further l)),
      rest.tree first.tree = t ∧ ∃ s₁, Spans limit first s s₁ ∧ Spans limit rest s₁ s' := by
  obtain ⟨left, s₁, hleft, hrest⟩ := chained_eq_ok.mp h
  obtain ⟨d, rfl, hd⟩ := hoperand heof hleft
  obtain ⟨d', rfl, hd'⟩ :=
    chain_sound hoperand (by rwa [hd.reads.eof]) (Nat.le_refl _) hd.ends hrest
  exact ⟨d, d', rfl, s₁, hd, hd'⟩

/-- What a rule reads has a derivation by it, which leaves nothing for it to go on with. -/
theorem read_sound {n : Nat} {r : Rule} {s s' : State} {t : Tree} (heof : s.eof.isEof)
    (h : (r.read limit n).run s = .ok t s') :
    ∃ d : Derivation (.rule r), d.tree = t ∧ Spans limit d s s' := by
  induction n generalizing r s s' t with
  | zero => cases h
  | succ n ih =>
    cases r with
    | expr =>
      obtain ⟨d, d', rfl, hspans⟩ := chained_sound (l := .sum) ih heof h
      obtain ⟨hreads, hfits, hends⟩ := (spans_chain_iff _ _).mp hspans
      exact ⟨.expr d d', rfl, hreads, hfits, hends⟩
    | term =>
      obtain ⟨d, d', rfl, hspans⟩ := chained_sound (l := .product) ih heof h
      obtain ⟨hreads, hfits, hends⟩ := (spans_chain_iff _ _).mp hspans
      exact ⟨.term d d', rfl, hreads, hfits, hends⟩
    | factor =>
      obtain ⟨hroom, s₁, rfl, ⟨hs, x, rfl, hx⟩ | ⟨hs, hp⟩⟩ := factor_eq_ok.mp h
      · have hadv : s.deeper.Reads [s.next] s.deeper.advance :=
          State.advance_reads heof (joins_ne_eof (l := .sum) hs)
        obtain ⟨d, rfl, hd⟩ := ih (by simpa using heof) hx
        have hfits := hd.fits
        rw [hadv.room] at hfits
        exact ⟨.signed s.next hs d, rfl, (hadv.trans hd.reads).shallower,
          State.lt_room_iff.mpr ⟨hroom, hfits⟩, hd.ends⟩
      · obtain ⟨d, rfl, hd⟩ := ih (by simpa using heof) hp
        exact ⟨.unsigned d, rfl, hd.reads.shallower, State.lt_room_iff.mpr ⟨hroom, hd.fits⟩,
          hd.ends⟩
    | power =>
      obtain ⟨base, s₁, hbase, ⟨hp, rfl, rfl⟩ | ⟨hp, e, rfl, he⟩⟩ := power_eq_ok.mp h
      · obtain ⟨d, rfl, hd⟩ := ih heof hbase
        refine ⟨.lone d, rfl, hd.reads, hd.fits, ?_⟩
        rw [State.ends_iff (by rwa [hd.reads.eof])]
        simpa [Part.continuedBy] using hp
      · obtain ⟨d, rfl, hd⟩ := ih heof hbase
        have heof₁ : s₁.eof.isEof := by rwa [hd.reads.eof]
        have hadv := State.advance_reads heof₁ (by simp [hp])
        obtain ⟨d', rfl, hd'⟩ := ih (by simpa using heof₁) he
        have hfits' := hd'.fits
        rw [hadv.room, hd.reads.room] at hfits'
        exact ⟨.power d s₁.next hp d', rfl, hd.reads.trans (hadv.trans hd'.reads),
          Nat.max_le.mpr ⟨hd.fits, hfits'⟩, hd'.ends⟩
    | atom =>
      obtain ⟨ht, rfl, rfl⟩ | ⟨hl, s₁, hinner, hr, rfl⟩ := atom_eq_ok.mp h
      · exact ⟨.number s.next ht, rfl, State.advance_reads heof (by simp [ht]), Nat.zero_le _,
          ends_atom _⟩
      · have hopen := State.advance_reads heof (by simp [hl])
        obtain ⟨d, rfl, hd⟩ := ih (by simpa using heof) hinner
        have hread := hopen.trans hd.reads
        have hclose := State.advance_reads (by rwa [hread.eof]) (by simp [hr])
        have hfits := hd.fits
        rw [hopen.room] at hfits
        refine ⟨.parens s.next hl d s₁.next hr, rfl, ?_, hfits, ends_atom _⟩
        simpa [Derivation.yield] using hread.trans hclose

end

/-- The frames that reading takes up besides those of its levels. -/
def Part.frames : Part → Nat
  | rule .expr => 3
  | rule .term | further .sum => 2
  | rule .factor | further .product => 1
  | rule .power => 5
  | rule .atom => 4

/-- Reading comes to the meaning given, with so many frames. -/
def Accepts (limit : Int) (n : Nat) : (p : Part) → State → p.Meaning → State → Prop
  | .rule r, s, t, s' => (r.read limit n).run s = .ok t s'
  | .further l, s, extend, s' => ∀ k left, s.ahead.length ≤ k →
      (chain l.joins (l.operand.read limit n) k left).run s = .ok (extend left) s'

theorem accepts_done {limit : Int} {n : Nat} {l : Level} {s : State} (heof : s.eof.isEof)
    (h : Ends (.further l) s.ahead) : Accepts limit n (.further l) s (fun left => left) s := by
  intro k left _
  cases k with
  | zero => rfl
  | succ k =>
    rw [State.ends_iff heof, continuedBy_further, Bool.or_eq_false_iff] at h
    exact chain_succ_eq_ok.mpr (.inl ⟨h.2, rfl, rfl⟩)

private theorem exists_frame {p : Part} {k n : Nat} (h : k + p.frames ≤ n) :
    ∃ m, n = m + 1 := by
  have hpos : 0 < p.frames := by
    cases p with
    | rule r => cases r <;> decide
    | further l => cases l <;> decide
  exact ⟨n - 1, by omega⟩

/-- A derivation is read if it is within the limit and there are five frames for each of
its levels. -/
theorem Derivation.accepted {limit : Int} {p : Part} (d : Derivation p) {n : Nat}
    {s s' : State} (heof : s.eof.isEof) (h : Spans limit d s s')
    (hn : 5 * d.nesting + p.frames ≤ n) : Accepts limit n p s d.tree s' := by
  induction d generalizing n s s' with
  | number t ht =>
    obtain ⟨n, rfl⟩ := exists_frame hn
    obtain ⟨rfl, hs⟩ := h.reads.cons
    exact atom_eq_ok.mpr (.inl ⟨ht, rfl, hs.eq_of_nil⟩)
  | parens l hl inner r hr ih =>
    obtain ⟨n, rfl⟩ := exists_frame hn
    simp only [nesting, Part.frames] at hn ih
    obtain ⟨rfl, hs⟩ := h.reads.cons
    obtain ⟨s₁, hinner, hs₁⟩ := hs.split
    obtain ⟨rfl, hs'⟩ := hs₁.cons
    have hread := ih (n := n) (by simpa using heof)
      ⟨hinner, by simpa [nesting] using h.fits, hs₁.1 ▸ ends_rparen hr⟩ (by omega)
    exact atom_eq_ok.mpr (.inr ⟨hl, s₁, hread, hr, hs'.eq_of_nil⟩)
  | lone base ih =>
    obtain ⟨n, rfl⟩ := exists_frame hn
    simp only [nesting, Part.frames] at hn ih
    have hread := ih (n := n) heof ⟨h.reads, h.fits, ends_atom _⟩ (by omega)
    have hnext : s'.next.tag ≠ .pow := by
      have hends := h.ends
      rw [State.ends_iff (by rwa [h.reads.eof])] at hends
      simpa [Part.continuedBy] using hends
    exact power_eq_ok.mpr ⟨_, s', hread, .inl ⟨hnext, rfl, rfl⟩⟩
  | power base op hop exponent ihb ihe =>
    obtain ⟨n, rfl⟩ := exists_frame hn
    simp only [nesting, Part.frames] at hn ihb ihe
    obtain ⟨s₁, hbase, hs₁⟩ := h.reads.split
    obtain ⟨rfl, hexp⟩ := hs₁.cons
    obtain ⟨hfitsb, hfitse⟩ := Nat.max_le.mp h.fits
    have heof₁ : s₁.eof.isEof := by rwa [hbase.eof]
    have hreadb := ihb (n := n) heof ⟨hbase, hfitsb, ends_atom _⟩ (by omega)
    have hreade := ihe (n := n) (by simpa using heof₁)
      ⟨hexp, by simpa [hbase.room] using hfitse, h.ends⟩ (by omega)
    exact power_eq_ok.mpr ⟨_, s₁, hreadb, .inr ⟨hop, _, rfl, hreade⟩⟩
  | signed op hop operand ih =>
    obtain ⟨n, rfl⟩ := exists_frame hn
    simp only [nesting, Part.frames] at hn ih
    obtain ⟨hroom, hfits⟩ := State.lt_room_iff.mp h.fits
    obtain ⟨rfl, hs⟩ := h.reads.deeper.cons
    have hread := ih (n := n) (by simpa using heof) ⟨hs, by simpa using hfits, h.ends⟩ (by omega)
    exact factor_eq_ok.mpr ⟨hroom, _, rfl, .inl ⟨hop, _, rfl, hread⟩⟩
  | unsigned body ih =>
    obtain ⟨n, rfl⟩ := exists_frame hn
    simp only [nesting, Part.frames] at hn ih
    obtain ⟨hroom, hfits⟩ := State.lt_room_iff.mp h.fits
    have hsign : isSign s.next.tag = false := by
      obtain ⟨t, w, hw, ht⟩ := body.power_head
      have hreads := h.reads
      rw [yield, hw] at hreads
      rcases ht with ht | ht <;> rw [hreads.cons.1, ht] <;> rfl
    have hread := ih (n := n) (by simpa using heof) ⟨h.reads.deeper, hfits, h.ends⟩ (by omega)
    exact factor_eq_ok.mpr ⟨hroom, _, rfl, .inr ⟨hsign, hread⟩⟩
  | term first rest ihf ihr =>
    obtain ⟨n, rfl⟩ := exists_frame hn
    simp only [nesting, Part.frames] at hn ihf ihr
    obtain ⟨s₁, hf, hr⟩ :=
      (spans_chain_iff (l := .product) first rest).mpr ⟨h.reads, h.fits, h.ends⟩
    have hreadf := ihf (n := n) heof hf (by omega)
    have hreadr := ihr (n := n) (by rwa [hf.reads.eof]) hr (by omega)
    exact chained_eq_ok.mpr ⟨_, s₁, hreadf, hreadr _ _ (Nat.le_refl _)⟩
  | expr first rest ihf ihr =>
    obtain ⟨n, rfl⟩ := exists_frame hn
    simp only [nesting, Part.frames] at hn ihf ihr
    obtain ⟨s₁, hf, hr⟩ := (spans_chain_iff (l := .sum) first rest).mpr ⟨h.reads, h.fits, h.ends⟩
    have hreadf := ihf (n := n) heof hf (by omega)
    have hreadr := ihr (n := n) (by rwa [hf.reads.eof]) hr (by omega)
    exact chained_eq_ok.mpr ⟨_, s₁, hreadf, hreadr _ _ (Nat.le_refl _)⟩
  | done l =>
    obtain rfl := h.reads.eq_of_nil
    exact accepts_done heof h.ends
  | more l op hop operand rest iho ihr =>
    intro k left hk
    obtain ⟨rfl, hs⟩ := h.reads.cons
    obtain ⟨s₁, ho, hr⟩ := (spans_chain_iff operand rest).mpr
      ⟨hs, by simpa [nesting] using h.fits, h.ends⟩
    have hlen := congrArg List.length h.reads.1
    have hlen' := congrArg List.length hr.reads.1
    simp only [yield, List.length_append, List.length_cons] at hlen hlen'
    obtain ⟨k, rfl⟩ : ∃ j, k = j + 1 := ⟨k - 1, by omega⟩
    simp only [nesting] at hn
    have hframes : (Part.rule l.operand).frames = (Part.further l).frames := by cases l <;> rfl
    have hreado := iho (n := n) (by simpa using heof) ho (by omega)
    have hreadr := ihr (n := n) (by simpa [ho.reads.eof] using heof) hr (by omega)
    exact chain_succ_eq_ok.mpr (.inr ⟨hop, _, s₁, hreado, hreadr _ _ (by omega)⟩)

end Reckon.Grammar
