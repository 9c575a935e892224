import Shellwright.Token.Basic

/-!
# What a rule takes

A grammar rule takes some tokens and leaves the rest. Its result says that the rest is shorter
than a bound, so a rule that goes on with the rest comes to an end.
-/

namespace Shellwright

/-- A value read from tokens, and the tokens that are left: fewer than `bound`. -/
structure Taken (bound : Nat) (α : Type) where
  value : α
  rest : List Token
  shorter : rest.length < bound

namespace Taken

variable {bound bound' : Nat} {α : Type}

/-- The same result seen from before other tokens were taken. -/
def within (t : Taken bound α) (h : bound ≤ bound') : Taken bound' α :=
  ⟨t.value, t.rest, Nat.lt_of_lt_of_le t.shorter h⟩

end Taken

end Shellwright
