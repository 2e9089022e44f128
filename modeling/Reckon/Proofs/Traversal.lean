import Mathlib
import Reckon.Proofs.Matching

/-!
The order in which a fold comes to the nodes. Every node is visited once, after its operands and
with their results, the left operand before the right one; if a visit fails, it is the last one.
-/

namespace Reckon.Tree

universe u v

/-! ### Nodes in order -/

/-- The nodes of a tree, operands before the node and left before right. -/
def postorder : Tree → List Tree
  | number token => [number token]
  | unary op x => x.postorder ++ [unary op x]
  | binary l op r => l.postorder ++ r.postorder ++ [binary l op r]

/-- Where the nodes are, in the same order. -/
def places : Tree → List (List Branch)
  | number _ => [[]]
  | unary _ x => x.places.map (.operand :: ·) ++ [[]]
  | binary l _ r => l.places.map (.left :: ·) ++ r.places.map (.right :: ·) ++ [[]]

theorem nodup_places (t : Tree) : t.places.Nodup := by
  have hbranch : ∀ branch : Branch, Function.Injective (branch :: · : List Branch → List Branch) :=
    fun _ _ _ h => (List.cons.inj h).2
  induction t with
  | number token => exact List.nodup_singleton _
  | unary op x ih =>
    rw [places, List.nodup_append']
    refine ⟨ih.map (hbranch .operand), List.nodup_singleton _, ?_⟩
    simp [List.Disjoint]
  | binary l op r ihl ihr =>
    rw [places, List.append_assoc, List.nodup_append', List.nodup_append']
    refine ⟨ihl.map (hbranch .left), ⟨ihr.map (hbranch .right), List.nodup_singleton _, ?_⟩, ?_⟩
    · simp [List.Disjoint]
    · simp [List.Disjoint]

theorem mem_places {t : Tree} {path : List Branch} :
    path ∈ t.places ↔ (t.at? path).isSome := by
  induction t generalizing path with
  | number token =>
    cases path with
    | nil => simp [places, at?]
    | cons branch path => cases branch <;> simp [places, at?]
  | unary op x ih =>
    cases path with
    | nil => simp [places, at?]
    | cons branch path => cases branch <;> simp [places, at?, ih]
  | binary l op r ihl ihr =>
    cases path with
    | nil => simp [places, at?]
    | cons branch path => cases branch <;> simp [places, at?, ihl, ihr]

theorem postorder_eq_places (t : Tree) :
    t.postorder.map some = t.places.map fun path => t.at? path := by
  induction t with
  | number token => rfl
  | unary op x ih =>
    simp only [postorder, places, List.map_append, List.map_map, ih]
    rfl
  | binary l op r ihl ihr =>
    simp only [postorder, places, List.map_append, List.map_map, ihl, ihr]
    rfl

/-- Notes the nodes, the last one first. -/
def collecting : Algebra (StateM (List Tree)) Unit where
  number token := modify (number token :: ·)
  unary op x _ := modify (unary op x :: ·)
  binary l op r _ _ := modify (binary l op r :: ·)

theorem run_collecting (t : Tree) (noted : List Tree) :
    (collapse collecting t).run noted = ((), t.postorder.reverse ++ noted) := by
  induction t generalizing noted with
  | number token => rfl
  | unary op x ih =>
    simp only [collapse, StateT.run_bind, ih, postorder, List.reverse_append]
    rfl
  | binary l op r ihl ihr =>
    simp only [collapse, StateT.run_bind, ihl, ihr, postorder, List.reverse_append,
      List.append_assoc]
    rfl

theorem nodes_eq_postorder (t : Tree) : t.nodes = t.postorder := by
  change ((fold collecting (pure ()) t).run []).2.reverse = t.postorder
  rw [fold_eq_collapse, run_collecting, List.append_nil, List.reverse_reverse]

/-! ### Calls -/

/-- A visit of a node, with the results of its operands. -/
inductive Call (α : Type u) where
  | number (token : Token)
  | unary (op : Token) (operand : Tree) (a : α)
  | binary (left : Tree) (op : Token) (right : Tree) (a b : α)

def Call.node {α : Type u} : Call α → Tree
  | number token => .number token
  | unary op x _ => .unary op x
  | binary l op r _ _ => .binary l op r

/-- What an algebra does on a call. -/
def Algebra.act {m : Type u → Type v} {α : Type u} (f : Algebra m α) : Call α → m α
  | .number token => f.number token
  | .unary op x a => f.unary op x a
  | .binary l op r a b => f.binary l op r a b

section
variable {ε σ α β : Type u}

/-- Adds a call to those noted, whether it returns or fails. -/
def noting (c : Call α) (x : EStateM ε σ α) : EStateM ε (σ × List (Call α)) α := fun s =>
  match x s.1 with
  | .ok a s' => .ok a (s', s.2 ++ [c])
  | .error e s' => .error e (s', s.2 ++ [c])

/-- The same algebra with a note of every call that is made. -/
def Algebra.noted (f : Algebra (EStateM ε σ) α) : Algebra (EStateM ε (σ × List (Call α))) α where
  number token := noting (.number token) (f.number token)
  unary op x a := noting (.unary op x a) (f.unary op x a)
  binary l op r a b := noting (.binary l op r a b) (f.binary l op r a b)

/-- The calls, made one after the other, all return. -/
inductive Returns (f : Algebra (EStateM ε σ) α) : σ → List (Call α) → σ → Prop where
  | nil (s : σ) : Returns f s [] s
  | cons {s s₁ s' : σ} {c : Call α} {calls : List (Call α)} {a : α}
      (hc : (f.act c).run s = .ok a s₁) (h : Returns f s₁ calls s') : Returns f s (c :: calls) s'

variable {f : Algebra (EStateM ε σ) α}

theorem Returns.append {s s₁ s' : σ} {calls calls' : List (Call α)} (h : Returns f s calls s₁)
    (h' : Returns f s₁ calls' s') : Returns f s (calls ++ calls') s' := by
  induction h with
  | nil => exact h'
  | cons hc _ ih => exact .cons hc (ih h')

/-- How a run from `s` ends, and how it ends where its calls are noted: all the nodes are
visited, or else they are visited up to a call that fails. -/
inductive Recorded (f : Algebra (EStateM ε σ) α) (nodes : List Tree) (s : σ)
    (calls : List (Call α)) :
    EStateM.Result ε σ β → EStateM.Result ε (σ × List (Call α)) β → Prop where
  | ok {b : β} {s' : σ} {made : List (Call α)} (hmade : Returns f s made s')
      (hnodes : made.map Call.node = nodes) :
      Recorded f nodes s calls (.ok b s') (.ok b (s', calls ++ made))
  | error {e : ε} {s₁ s' : σ} {made : List (Call α)} {c : Call α} (hmade : Returns f s made s₁)
      (hc : (f.act c).run s₁ = .error e s') (hnodes : (made ++ [c]).map Call.node <+: nodes) :
      Recorded f nodes s calls (.error e s') (.error e (s', calls ++ (made ++ [c])))

/-- The second computation is the first with its calls noted. -/
def Records (f : Algebra (EStateM ε σ) α) (nodes : List Tree) (x : EStateM ε σ β)
    (y : EStateM ε (σ × List (Call α)) β) : Prop :=
  ∀ s calls, Recorded f nodes s calls (x.run s) (y.run (s, calls))

theorem Records.act (f : Algebra (EStateM ε σ) α) (c : Call α) :
    Records f [c.node] (f.act c) (noting c (f.act c)) := by
  intro s calls
  unfold noting EStateM.run
  dsimp only
  cases hc : f.act c s with
  | ok a s' => exact .ok (.cons hc (.nil s')) rfl
  | error e s' => exact .error (.nil s) hc (List.prefix_refl [c.node])

/-- What follows a failed call is not run, so its nodes are not visited. -/
theorem Records.bind {γ : Type u} {nodes nodes' : List Tree} {x : EStateM ε σ β}
    {y : EStateM ε (σ × List (Call α)) β} {k : β → EStateM ε σ γ}
    {k' : β → EStateM ε (σ × List (Call α)) γ} (h : Records f nodes x y)
    (hk : ∀ b, Records f nodes' (k b) (k' b)) :
    Records f (nodes ++ nodes') (x >>= k) (y >>= k') := by
  intro s calls
  have hxy := h s calls
  rw [EStateM.run_bind, EStateM.run_bind]
  generalize x.run s = result, y.run (s, calls) = result' at hxy
  cases hxy with
  | error hmade hc hnodes => exact .error hmade hc (hnodes.trans (List.prefix_append _ _))
  | @ok b s₁ made hmade hnodes =>
    have hrest := hk b s₁ (calls ++ made)
    dsimp only
    generalize (k b).run s₁ = result, (k' b).run (s₁, calls ++ made) = result' at hrest
    cases hrest with
    | ok hmade' hnodes' =>
      rw [List.append_assoc]
      exact .ok (hmade.append hmade') (by rw [List.map_append, hnodes, hnodes'])
    | error hmade' hc hnodes' =>
      rw [List.append_assoc, ← List.append_assoc made]
      refine .error (hmade.append hmade') hc ?_
      rw [List.append_assoc, List.map_append, hnodes]
      exact (List.prefix_append_right_inj nodes).mpr hnodes'

theorem records_collapse (f : Algebra (EStateM ε σ) α) (t : Tree) :
    Records f t.postorder (collapse f t) (collapse f.noted t) := by
  induction t with
  | number token => exact .act f (.number token)
  | unary op x ih => exact ih.bind fun a => .act f (.unary op x a)
  | binary l op r ihl ihr =>
    rw [postorder, List.append_assoc]
    exact ihl.bind fun a => ihr.bind fun b => .act f (.binary l op r a b)

end

/-- Folding by a loop is folding by recursion, whatever the visits do. The loop is over after
`t.steps` turns, fewer than it is allowed, with nothing pending and one result, and it never finds
a result missing. Every place of the tree is visited once and in order, and the same calls are
made as by the recursion; a call that fails ends the fold with its error and is the last one. -/
theorem fold_visits_in_order {m : Type u → Type v} [Monad m] [LawfulMonad m] {α β ε σ : Type u}
    (t : Tree) (f : Algebra m α) (noResult : m α) (g : Algebra (EStateM ε σ) β)
    (missing : EStateM ε (σ × List (Call β)) β) (s : σ) :
    (t.steps < 2 * t.size ∧ ∀ n, foldSteps f noResult (n + t.steps) [(t, false)] [] =
      collapse f t >>= fun a => foldSteps f noResult n [] [a]) ∧
    fold f noResult t = collapse f t ∧ fold g.noted missing t = collapse g.noted t ∧
    (t.places.Nodup ∧ ∀ path, path ∈ t.places ↔ (t.at? path).isSome) ∧
    ((∃ b s' calls, (collapse g t).run s = .ok b s' ∧
        (fold g.noted missing t).run (s, []) = .ok b (s', calls) ∧ Returns g s calls s' ∧
        (calls.map fun c => some c.node) = t.places.map fun path => t.at? path) ∨
      ∃ e s₁ s' calls c, (collapse g t).run s = .error e s' ∧
        (fold g.noted missing t).run (s, []) = .error e (s', calls ++ [c]) ∧
        Returns g s calls s₁ ∧ (g.act c).run s₁ = .error e s' ∧
        ((calls ++ [c]).map fun c => some c.node) <+: t.places.map fun path => t.at? path) := by
  refine ⟨⟨t.steps_lt, fun n => foldSteps_tree f noResult t n [] []⟩, fold_eq_collapse f _ t,
    fold_eq_collapse g.noted _ t, ⟨t.nodup_places, fun path => mem_places⟩, ?_⟩
  have hnode : ∀ calls : List (Call β),
      (calls.map fun c => some c.node) = (calls.map Call.node).map some := by
    intro calls
    rw [List.map_map]
    rfl
  have hrecorded := records_collapse g t s []
  rw [fold_eq_collapse g.noted]
  generalize (collapse g t).run s = result, (collapse g.noted t).run (s, []) = result' at hrecorded
  cases hrecorded with
  | ok hmade hnodes =>
    refine .inl ⟨_, _, _, rfl, rfl, hmade, ?_⟩
    rw [hnode, List.nil_append, hnodes, postorder_eq_places]
  | error hmade hc hnodes =>
    refine .inr ⟨_, _, _, _, _, rfl, rfl, hmade, hc, ?_⟩
    rw [hnode, ← postorder_eq_places]
    exact hnodes.map some

section
private def firstFactor : Token := .spanning "2*-3" (.number (.int 2)) 0 1
private def negation : Token := .spanning "2*-3" .minus 2 3
private def secondFactor : Token := .spanning "2*-3" (.number (.int 3)) 3 4

/-- The tree of `2*-3`. -/
private def negatedFactor : Tree :=
  .binary (.number firstFactor) (.spanning "2*-3" .mul 1 2)
    (.unary negation (.number secondFactor))

/-- Counts the numbers and fails at a sign. -/
private def unsignedOnly : Algebra (EStateM String Nat) Nat where
  number _ := modifyGet fun n => (n, n + 1)
  unary _ _ _ := throw "sign"
  binary _ _ _ a b := pure (a + b)

/-- The product is never visited, since its right operand fails. -/
theorem fold_visits_negatedFactor :
    LawfulMonad (EStateM String Nat) ∧
    fold unsignedOnly.noted (throw "missing") negatedFactor =
      collapse unsignedOnly.noted negatedFactor ∧
    (fold unsignedOnly.noted (throw "missing") negatedFactor).run (0, []) =
      .error "sign" (2, [.number firstFactor, .number secondFactor,
        .unary negation (.number secondFactor) 1]) := by
  obtain ⟨-, -, hfold, -⟩ := fold_visits_in_order negatedFactor unsignedOnly (throw "missing")
    unsignedOnly (throw "missing") 0
  exact ⟨inferInstance, hfold, rfl⟩

end

end Reckon.Tree
