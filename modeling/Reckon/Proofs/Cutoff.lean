import Reckon.Proofs.Reading

/-!
The depth limit and the frames only ever cut reading short. With a higher limit and more
frames reading does the same, step by step, up to the place where it was cut; with more
frames alone it is only for want of frames that it can have been cut.
-/

namespace Reckon.Grammar

/-- The second reader does whatever the first one does, unless that stops for one of the
reasons given. -/
def Agrees {α : Type} (stopped : Halt → Prop) (x y : Read α) : Prop :=
  ∀ s, (∃ h s', x.run s = .error h s' ∧ stopped h) ∨ x.run s = y.run s

section
variable {α β : Type} {stopped : Halt → Prop}

theorem Agrees.refl (x : Read α) : Agrees stopped x x := fun _ => .inr rfl

theorem Agrees.bind {x y : Read α} {f g : α → Read β} (hxy : Agrees stopped x y)
    (hfg : ∀ a, Agrees stopped (f a) (g a)) : Agrees stopped (x >>= f) (y >>= g) := by
  intro s
  rw [EStateM.run_bind, EStateM.run_bind]
  rcases hxy s with ⟨h, s', hx, hstopped⟩ | heq
  · exact .inl ⟨h, s', by rw [hx], hstopped⟩
  · rw [← heq]
    cases x.run s with
    | ok a s' => exact hfg a s'
    | error h s' => exact .inr rfl

theorem agrees_ite {c : Prop} [Decidable c] {x x' y y' : Read α} (h : Agrees stopped x x')
    (h' : Agrees stopped y y') : Agrees stopped (if c then x else y) (if c then x' else y') := by
  split
  · exact h
  · exact h'

end

/-- The second limit lets pass what the first one does; where that is not all, the first one
stops reading for its depth. -/
def Admits (stopped : Halt → Prop) (limit limit' : Int) : Prop :=
  limit = limit' ∨ limit ≤ limit' ∧ ∀ t, stopped (.error ⟨.nestedTooDeep limit, t⟩)

section
variable {stopped : Halt → Prop} {limit limit' : Int}

theorem agrees_nested {x y : Read Tree} (hlimit : Admits stopped limit limit')
    (hxy : Agrees stopped x y) : Agrees stopped (nested limit x) (nested limit' y) := by
  intro s
  by_cases hroom : (s.depth : Int) < limit
  · have hle : limit ≤ limit' := hlimit.elim Int.le_of_eq And.left
    rw [nested_of_room x hroom, nested_of_room y (by omega)]
    rcases hxy s.deeper with ⟨h, s', hx, hstopped⟩ | heq
    · exact .inl ⟨h, s'.shallower, by rw [hx]; rfl, hstopped⟩
    · exact .inr (by rw [heq])
  · rw [nested_of_full x (by omega)]
    rcases hlimit with rfl | ⟨-, hstopped⟩
    · exact .inr (nested_of_full y (by omega)).symm
    · exact .inl ⟨_, s, rfl, hstopped _⟩

theorem agrees_chain (joins : Tag → Bool) {x y : Read Tree} (hxy : Agrees stopped x y) (k : Nat)
    (left : Tree) : Agrees stopped (chain joins x k left) (chain joins y k left) := by
  induction k generalizing left with
  | zero => exact .refl _
  | succ k ih =>
    refine (Agrees.refl _).bind fun t => agrees_ite ?_ (.refl _)
    exact (Agrees.refl _).bind fun op => hxy.bind fun right => ih _

theorem agrees_chained (joins : Tag → Bool) {x y : Read Tree} (hxy : Agrees stopped x y) :
    Agrees stopped (chained joins x) (chained joins y) :=
  hxy.bind fun left => (Agrees.refl _).bind fun _ => agrees_chain joins hxy _ left

/-- A higher limit and more frames change nothing but where reading is cut short. -/
theorem agrees_read (hframes : stopped .outOfFrames) (hlimit : Admits stopped limit limit')
    {n n' : Nat} (hn : n ≤ n') (r : Rule) :
    Agrees stopped (r.read limit n) (r.read limit' n') := by
  induction n generalizing n' r with
  | zero =>
    intro s
    exact .inl ⟨.outOfFrames, s, rfl, hframes⟩
  | succ n ih =>
    obtain ⟨n', rfl⟩ : ∃ m, n' = m + 1 := ⟨n' - 1, by omega⟩
    have ih' := ih (Nat.le_of_succ_le_succ hn)
    cases r with
    | expr => exact agrees_chained _ (ih' .term)
    | term => exact agrees_chained _ (ih' .factor)
    | factor =>
      refine agrees_nested hlimit ((Agrees.refl _).bind fun t => agrees_ite ?_ (ih' .power))
      exact (Agrees.refl _).bind fun op => (ih' .factor).bind fun x => .refl _
    | power =>
      refine (ih' .atom).bind fun base => (Agrees.refl _).bind fun t => agrees_ite ?_ (.refl _)
      exact (Agrees.refl _).bind fun op => (ih' .factor).bind fun e => .refl _
    | atom =>
      refine (Agrees.refl _).bind fun t => ?_
      cases t.kind with
      | lparen => exact (Agrees.refl _).bind fun _ => (ih' .expr).bind fun inner => .refl _
      | _ => exact .refl _

/-- The same for a whole expression. -/
theorem agrees_whole (hframes : stopped .outOfFrames) (hlimit : Admits stopped limit limit')
    {n n' : Nat} (hn : n ≤ n') :
    Agrees stopped (Parser.whole limit n) (Parser.whole limit' n') := by
  refine (Agrees.refl _).bind fun t => agrees_ite (.refl _) ?_
  exact (agrees_read hframes hlimit hn .expr).bind fun t => .refl _

end

/-- More frames alone do nothing for a reader that has not run out of them. -/
theorem Agrees.run_eq {α : Type} {x y : Read α} (h : Agrees (· = .outOfFrames) x y) {s : State}
    (hx : ∀ t, x.run s ≠ .error .outOfFrames t) : y.run s = x.run s := by
  rcases h s with ⟨_, t, hrun, rfl⟩ | heq
  · exact absurd hrun (hx t)
  · exact heq.symm

end Reckon.Grammar
