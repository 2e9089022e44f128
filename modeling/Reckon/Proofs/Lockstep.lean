import Mathlib
import Reckon.Proofs.EarliestError
import Reckon.Proofs.Matching

/-!
Two lists of tokens that correspond one by one, in their kinds at least, are read in
lockstep: every reader makes the same choices on both, so it comes to trees that match or
stops for the same cause after as many tokens.
-/

namespace Reckon.Grammar

variable {ρ : Token → Token → Prop}

/-- Two places in corresponding tokens that have as much behind them and on top of them. -/
structure State.Matches (ρ : Token → Token → Prop) (s s' : State) : Prop where
  ahead : List.Forall₂ ρ s.ahead s'.ahead
  eof : ρ s.eof s'.eof
  taken : s.taken = s'.taken
  depth : s.depth = s'.depth

inductive Halt.Matches (ρ : Token → Token → Prop) : Halt → Halt → Prop where
  | error {m m' : Misfit} (hcause : m.cause = m'.cause) (htoken : ρ m.token m'.token) :
      Matches ρ (.error m) (.error m')
  | outOfFrames : Matches ρ .outOfFrames .outOfFrames

/-- Two runs that end in the same way. -/
inductive Coincide {α : Type} (ρ : Token → Token → Prop) (values : α → α → Prop) :
    EStateM.Result Halt State α → EStateM.Result Halt State α → Prop where
  | ok {a a' : α} {s s' : State} (ha : values a a') (hs : s.Matches ρ s') :
      Coincide ρ values (.ok a s) (.ok a' s')
  | error {h h' : Halt} {s s' : State} (hh : h.Matches ρ h') (hs : s.Matches ρ s') :
      Coincide ρ values (.error h s) (.error h' s')

/-- Two readers that end in the same way whenever they start from matching places. -/
def Lockstep {α : Type} (ρ : Token → Token → Prop) (values : α → α → Prop) (x y : Read α) :
    Prop :=
  ∀ s s', s.Matches ρ s' → Coincide ρ values (x.run s) (y.run s')

namespace State.Matches

variable {s s' : State}

theorem next (h : s.Matches ρ s') : ρ s.next s'.next := by
  obtain ⟨hahead, heof, -, -⟩ := h
  obtain ⟨ahead, eof, taken, depth⟩ := s
  obtain ⟨ahead', eof', taken', depth'⟩ := s'
  cases hahead with
  | nil => exact heof
  | cons hnext _ => exact hnext

theorem advance (h : s.Matches ρ s') : s.advance.Matches ρ s'.advance := by
  obtain ⟨hahead, heof, htaken, hdepth⟩ := h
  obtain ⟨ahead, eof, taken, depth⟩ := s
  obtain ⟨ahead', eof', taken', depth'⟩ := s'
  cases hahead with
  | nil => exact ⟨.nil, heof, htaken, hdepth⟩
  | cons _ hrest => exact ⟨hrest, heof, congrArg (· + 1) htaken, hdepth⟩

theorem deeper (h : s.Matches ρ s') : s.deeper.Matches ρ s'.deeper :=
  ⟨h.ahead, h.eof, h.taken, congrArg (· + 1) h.depth⟩

theorem shallower (h : s.Matches ρ s') : s.shallower.Matches ρ s'.shallower :=
  ⟨h.ahead, h.eof, h.taken, congrArg (· - 1) h.depth⟩

end State.Matches

namespace Lockstep

variable {α β : Type} {values : α → α → Prop} {values' : β → β → Prop}

theorem pure {a a' : α} (h : values a a') :
    Lockstep ρ values (Pure.pure a : Read α) (Pure.pure a') :=
  fun _ _ hs => .ok h hs

theorem peek : Lockstep ρ ρ peek peek := fun _ _ hs => .ok hs.next hs

theorem advance : Lockstep ρ ρ advance advance := fun _ _ hs => .ok hs.next hs.advance

theorem discardAdvance : Lockstep ρ (fun _ _ => True) (discard Grammar.advance)
    (discard Grammar.advance) :=
  fun _ _ hs => .ok trivial hs.advance

theorem get : Lockstep ρ (State.Matches ρ) (MonadState.get : Read State) MonadState.get :=
  fun _ _ hs => .ok hs hs

theorem fail (cause : ParseError.Cause) {values : Tree → Tree → Prop} :
    Lockstep ρ values (fail cause) (fail cause) :=
  fun _ _ hs => .error (.error rfl hs.next) hs

theorem bind {x y : Read α} {f g : α → Read β} (h : Lockstep ρ values x y)
    (hfg : ∀ a a', values a a' → Lockstep ρ values' (f a) (g a')) :
    Lockstep ρ values' (x >>= f) (y >>= g) := by
  intro s s' hs
  have hxy := h s s' hs
  rw [EStateM.run_bind, EStateM.run_bind]
  generalize x.run s = result, y.run s' = result' at hxy
  cases hxy with
  | ok ha hs => exact hfg _ _ ha _ _ hs
  | error hh hs => exact .error hh hs

theorem ite {c c' : Prop} [Decidable c] [Decidable c'] (hc : c ↔ c') {x x' y y' : Read α}
    (hx : Lockstep ρ values x x') (hy : Lockstep ρ values y y') :
    Lockstep ρ values (if c then x else y) (if c' then x' else y') := by
  by_cases h : c
  · rwa [if_pos h, if_pos (hc.mp h)]
  · rwa [if_neg h, if_neg (mt hc.mpr h)]

theorem nested (limit : Int) {values : Tree → Tree → Prop} {x y : Read Tree}
    (h : Lockstep ρ values x y) : Lockstep ρ values (nested limit x) (nested limit y) := by
  intro s s' hs
  by_cases hroom : (s.depth : Int) < limit
  · have hxy := h _ _ hs.deeper
    rw [nested_of_room x hroom, nested_of_room y (hs.depth ▸ hroom)]
    generalize x.run s.deeper = result, y.run s'.deeper = result' at hxy
    cases hxy with
    | ok ha hs => exact .ok ha hs.shallower
    | error hh hs => exact .error hh hs.shallower
  · rw [nested_of_full x (not_lt.mp hroom), nested_of_full y (hs.depth ▸ not_lt.mp hroom)]
    exact .error (.error rfl hs.next) hs

end Lockstep

/-- What the relation between tokens has to be for lockstep. -/
def Discerning (ρ : Token → Token → Prop) : Prop := ∀ t t', ρ t t' → t.SameKind t'

section
variable (hρ : Discerning ρ)
include hρ

theorem Discerning.tag {t t' : Token} (h : ρ t t') : t.tag = t'.tag := by
  rw [Token.tag, Token.tag, hρ t t' h]

theorem Discerning.isEof {t t' : Token} (h : ρ t t') : t.isEof = t'.isEof := by
  rw [Token.isEof, Token.isEof, hρ t t' h]

theorem lockstep_failUnexpected (expected : String) {values : Tree → Tree → Prop} :
    Lockstep ρ values (failUnexpected expected) (failUnexpected expected) := by
  intro s s' hs
  refine .error (.error ?_ hs.next) hs
  simp only [Misfit.unexpected, hρ.isEof hs.next]

theorem lockstep_chain (joins : Tag → Bool) {x y : Read Tree}
    (h : Lockstep ρ (Tree.Matches ρ ρ) x y) (k : Nat) {left left' : Tree}
    (hleft : left.Matches ρ ρ left') :
    Lockstep ρ (Tree.Matches ρ ρ) (chain joins x k left) (chain joins y k left') := by
  induction k generalizing left left' with
  | zero => exact .pure hleft
  | succ k ih =>
    refine Lockstep.peek.bind fun t t' ht => .ite (by rw [hρ.tag ht]) ?_ (.pure hleft)
    refine Lockstep.advance.bind fun op op' hop => h.bind fun right right' hright => ?_
    exact ih (.binary hop hleft hright)

theorem lockstep_chained (joins : Tag → Bool) {x y : Read Tree}
    (h : Lockstep ρ (Tree.Matches ρ ρ) x y) :
    Lockstep ρ (Tree.Matches ρ ρ) (chained joins x) (chained joins y) := by
  refine h.bind fun left left' hleft => Lockstep.get.bind fun s s' hs => ?_
  rw [hs.ahead.length_eq]
  exact lockstep_chain hρ joins h _ hleft

theorem lockstep_read (limit : Int) (n : Nat) (r : Rule) :
    Lockstep ρ (Tree.Matches ρ ρ) (r.read limit n) (r.read limit n) := by
  induction n generalizing r with
  | zero => exact fun s s' hs => .error .outOfFrames hs
  | succ n ih =>
    cases r with
    | expr => exact lockstep_chained hρ _ (ih .term)
    | term => exact lockstep_chained hρ _ (ih .factor)
    | factor =>
      refine .nested limit (Lockstep.peek.bind fun t t' ht => ?_)
      refine .ite (by rw [hρ.tag ht]) ?_ (ih .power)
      exact Lockstep.advance.bind fun op op' hop => (ih .factor).bind fun x x' hx =>
        .pure (.unary hop hx)
    | power =>
      refine (ih .atom).bind fun base base' hbase => Lockstep.peek.bind fun t t' ht => ?_
      refine .ite (by rw [hρ.tag ht]) ?_ (.pure hbase)
      exact Lockstep.advance.bind fun op op' hop => (ih .factor).bind fun e e' he =>
        .pure (.binary hop hbase he)
    | atom =>
      refine Lockstep.peek.bind fun t t' ht => ?_
      rw [← show t.kind = t'.kind from hρ t t' ht]
      cases t.kind with
      | number v => exact Lockstep.advance.bind fun u u' hu => .pure (.number hu)
      | lparen =>
        refine Lockstep.discardAdvance.bind fun _ _ _ => (ih .expr).bind fun x x' hx => ?_
        refine Lockstep.peek.bind fun u u' hu => .ite (by rw [hρ.tag hu]) ?_ (.fail _)
        exact Lockstep.discardAdvance.bind fun _ _ _ => .pure hx
      | _ => exact lockstep_failUnexpected hρ _

theorem lockstep_whole (limit : Int) (n : Nat) :
    Lockstep ρ (Tree.Matches ρ ρ) (Parser.whole limit n) (Parser.whole limit n) := by
  refine Lockstep.peek.bind fun t t' ht => .ite (by rw [hρ.isEof ht])
    (lockstep_failUnexpected hρ _) ?_
  refine (lockstep_read hρ limit n .expr).bind fun x x' hx => Lockstep.peek.bind fun u u' hu => ?_
  exact .ite (by rw [hρ.isEof hu]) (.pure hx) (.fail _)

/-- The first ends of input of two lists stand at the same place. -/
theorem forall₂_beforeEof {w w' more more' : List Token} {eof eof' : Token}
    (h : List.Forall₂ ρ (w ++ eof :: more) (w' ++ eof' :: more'))
    (hw : ∀ t ∈ w, t.isEof = false) (hw' : ∀ t ∈ w', t.isEof = false)
    (heof : eof.isEof) (heof' : eof'.isEof) : List.Forall₂ ρ w w' ∧ ρ eof eof' := by
  induction w generalizing w' with
  | nil =>
    cases w' with
    | nil =>
      cases h with
      | cons hhead _ => exact ⟨.nil, hhead⟩
    | cons t' w' =>
      cases h with
      | cons hhead _ => simp [← hρ.isEof hhead, heof] at hw'
  | cons t w ih =>
    cases w' with
    | nil =>
      cases h with
      | cons hhead _ => simp [hρ.isEof hhead, heof'] at hw
    | cons t' w' =>
      cases h with
      | cons hhead htail =>
        obtain ⟨hrest, heofs⟩ := ih htail (fun u hu => hw u (by simp [hu]))
          (fun u hu => hw' u (by simp [hu]))
        exact ⟨.cons hhead hrest, heofs⟩

variable {tokens tokens' : List Token} {limits : Limits} {p p' : Parser}

theorem parser_matches (h : List.Forall₂ ρ tokens tokens')
    (hp : Expression.parser tokens limits = .ok p)
    (hp' : Expression.parser tokens' limits = .ok p') :
    p.limit = p'.limit ∧ p.start.Matches ρ p'.start := by
  obtain ⟨eof, more, heof, hsplit, hparser⟩ := parser_eq (terminated_of_parser_ok hp)
  obtain ⟨eof', more', heof', hsplit', hparser'⟩ := parser_eq (terminated_of_parser_ok hp')
  obtain rfl := Except.ok.inj (hp.symm.trans (hparser limits))
  obtain rfl := Except.ok.inj (hp'.symm.trans (hparser' limits))
  rw [hsplit, hsplit'] at h
  obtain ⟨hahead, heofs⟩ := forall₂_beforeEof hρ h (fun t => beforeEof_not_isEof)
    (fun t => beforeEof_not_isEof) heof heof'
  exact ⟨rfl, hahead, heofs, rfl, rfl⟩

/-- Parsing corresponding tokens gives trees that match, or stops for the same cause at the
same place. -/
theorem parse_lockstep (h : List.Forall₂ ρ tokens tokens')
    (hp : Expression.parser tokens limits = .ok p)
    (hp' : Expression.parser tokens' limits = .ok p') :
    (∃ t t', p.parse.1 = .ok t ∧ p'.parse.1 = .ok t' ∧ t.Matches ρ ρ t') ∨
      ∃ (m m' : Misfit) (k : Nat), p.parse.1 = .error (.ofMisfit m) ∧
        p'.parse.1 = .error (.ofMisfit m') ∧ m.cause = m'.cause ∧
        tokens[k]? = some m.token ∧ tokens'[k]? = some m'.token := by
  obtain ⟨hlimit, hstart⟩ := parser_matches hρ h hp hp'
  have hframes : p.frames = p'.frames := by rw [Parser.frames, Parser.frames, hlimit]
  have hwhole := lockstep_whole hρ p.limit p.frames
  nth_rewrite 2 [hlimit, hframes] at hwhole
  have hruns := hwhole _ _ hstart
  cases hrun : (Parser.whole p.limit p.frames).run p.start with
  | ok t s =>
    rw [hrun] at hruns
    cases hrun' : (Parser.whole p'.limit p'.frames).run p'.start with
    | ok t' s' =>
      rw [hrun'] at hruns
      cases hruns with
      | ok ht _ =>
        exact .inl ⟨t, t', congrArg Prod.fst (Parser.run_of_ok hrun),
          congrArg Prod.fst (Parser.run_of_ok hrun'), ht⟩
    | error h' s' =>
      rw [hrun'] at hruns
      cases hruns
  | error h s =>
    rw [hrun] at hruns
    cases hrun' : (Parser.whole p'.limit p'.frames).run p'.start with
    | ok t' s' =>
      rw [hrun'] at hruns
      cases hruns
    | error h' s' =>
      rw [hrun'] at hruns
      obtain ⟨m, rfl, hplace⟩ := whole_located hp hrun
      obtain ⟨m', rfl, hplace'⟩ := whole_located hp' hrun'
      cases hruns with
      | error hh hs =>
        cases hh with
        | error hcause _ =>
          exact .inr ⟨m, m', _, congrArg Prod.fst (Parser.run_of_error hrun),
            congrArg Prod.fst (Parser.run_of_error hrun'), hcause, hplace, hs.taken ▸ hplace'⟩

end

end Reckon.Grammar
