import Mathlib.Algebra.BigOperators.Group.List.Basic
import Mathlib.Algebra.Module.Basic
import Mathlib.Tactic.Abel

/-!
# Aggregated signatures over a module

Secret keys and nonces are scalars, their public halves the multiples of a generator `G`. A signature
is a scalar `s` with its nonce point; it is right for a key point under the challenge `e` if
`s • G = nonce + e • key`. Signatures under one challenge add up (`Verifies.add`), so several parties
sign as one if all sign under the challenge of the sums.
-/

namespace EpicWallet.Lib.Schnorr

variable {F E : Type*} [Ring F] [AddCommGroup E] [Module F E]

/-- The scalar `s` signs under the challenge `e`, the nonce and the key. -/
def Verifies (G : E) (e : F) (nonce key : E) (s : F) : Prop := s • G = nonce + e • key

/-- Who knows the nonce and the key can sign. -/
theorem verifies_sign (G : E) (e nonce key : F) :
    Verifies G e (nonce • G) (key • G) (nonce + e * key) := by
  unfold Verifies
  rw [add_smul, mul_smul]

/-- Signatures under one challenge add up to one under the sums. -/
theorem Verifies.add {G nonce key nonce' key' : E} {e s s' : F} (h : Verifies G e nonce key s)
    (h' : Verifies G e nonce' key' s') : Verifies G e (nonce + nonce') (key + key') (s + s') := by
  unfold Verifies at h h' ⊢
  rw [add_smul, h, h', smul_add]
  abel

theorem verifies_zero (G : E) (e : F) : Verifies G e 0 0 0 := by
  unfold Verifies
  rw [zero_smul, smul_zero, add_zero]

end EpicWallet.Lib.Schnorr
