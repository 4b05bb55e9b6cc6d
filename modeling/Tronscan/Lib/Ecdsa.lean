import Mathlib.Algebra.Field.Basic
import Mathlib.Algebra.Module.Basic
import Mathlib.Tactic.FieldSimp
import Mathlib.Tactic.Ring

/-!
# Keys Recovered from Signatures

A signature of `e` with the key `d` and the nonce `k` is a pair of scalars: `r` comes
from the point `k • g`, and `s` is what makes `k * s = e + r * d`. Who knows that point
can compute `d • g` from the rest, and that is what recovery does.

The point itself is not part of a signature, only its first coordinate is, and so there
are several points to try. `recover_eq_iff` says that the others give other keys, and
`recover_neg` that the negative of `s` goes with the negative of the point.

## Main definitions

* `recover`: The public key, from a signature and the point it was made with.

## Theorems

* `recover_sign`: The point of the nonce gives the key.
* `recover_neg`: Taking negatives.
* `recover_eq_iff`: No other point gives it.
-/

namespace Lib.Ecdsa

variable {F G : Type*} [Field F] [AddCommGroup G] [Module F G] {g : G} {d e k r s : F}

/-- The public key, from a signature and the point it was made with. -/
def recover (g : G) (r s e : F) (R : G) : G := (r⁻¹ * -e) • g + (r⁻¹ * s) • R

theorem recover_sign (hr : r ≠ 0) (hsign : k * s = e + r * d) :
    recover g r s e (k • g) = d • g := by
  have hd : r⁻¹ * -e + r⁻¹ * s * k = d := by
    rw [mul_assoc, mul_comm s k, hsign]
    field_simp
    ring
  rw [recover, ← mul_smul, ← add_smul, hd]

theorem recover_neg (R : G) : recover g r (-s) e (-R) = recover g r s e R := by
  rw [recover, recover, mul_neg r⁻¹ s, neg_smul, smul_neg, neg_neg]

theorem recover_eq_iff (hr : r ≠ 0) (hs : s ≠ 0) {R R' : G} :
    recover g r s e R = recover g r s e R' ↔ R = R' := by
  have hscalar : r⁻¹ * s ≠ 0 := mul_ne_zero (inv_ne_zero hr) hs
  constructor
  · intro h
    have hsmul : (r⁻¹ * s) • R = (r⁻¹ * s) • R' := add_left_cancel h
    have hback := congrArg ((r⁻¹ * s)⁻¹ • ·) hsmul
    simpa only [inv_smul_smul₀ hscalar] using hback
  · rintro rfl
    rfl

end Lib.Ecdsa
