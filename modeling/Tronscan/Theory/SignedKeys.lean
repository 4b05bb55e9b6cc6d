import Mathlib.Algebra.Field.ZMod
import Mathlib.Algebra.Module.ZMod
import Tronscan.Core.ECKey
import Tronscan.Lib.Ecdsa

/-!
# Signed and Recovered

What `ECKey.sign` makes, the key that made it is recovered from. The signer of the
library says nothing about the selector, and so it is found by trying: two selectors
for the first number of the signature, and two for that number and the order on top,
which is there to find coordinates above the order.

The points of the two selectors for a coordinate are negatives of each other, and
exactly one of the four is the point of the nonce, or its negative once the second
number is in the lower half. What the loop does not expect is a selector without a
point. `recoverPubBytesFromSignature` says `null` of those, according to its comment,
but the library throws. So where the coordinate is above the order and what is left
below it is not a coordinate of any point, there is no signature.

## Main definitions

* `LawfulCurve`: What is documented of the curve.
* `Generated`: What is documented of the signer.
* `ECKey.Canonical`: A signature in the lower half, with the point of its nonce.
* `ECKey.Recovers`: One selector recovers the key, and it is the one written down.

## Theorems

* `ECKey.recoverPubBytes_eq`: What a selector leads to.
* `ECKey.exists_canonical`: The lower half.
* `ECKey.Canonical.findRecId_found`, `ECKey.Canonical.findRecId_skip`: The loop.
* `ECKey.sign_recovers`: When there is a signature, and that the key is recovered.
-/

namespace Tronscan

open Lib.Ecdsa (recover recover_sign recover_neg recover_eq_iff)

/-- The encoding of a point that is compressed to one coordinate and a bit. -/
def compressed [Curve] (x : ℕ) (yBit : Bool) : Bytes :=
  (if yBit then 0x03 else 0x02) :: (Lib.padded 256 ECKey.byteLength x).map UInt8.ofNat

/-- What is documented of the curve and of the encodings of its points. -/
class LawfulCurve [Curve] : Prop where
  prime : Nat.Prime Curve.n
  odd : Curve.n % 2 = 1
  lt : Curve.n < 2 ^ 256
  /-- At most one multiple of the order can be added to a coordinate. -/
  le : Curve.p ≤ 2 * Curve.n
  order : ∀ P : Curve.Point, Curve.n • P = 0
  affine_zero : Curve.affine 0 = none
  affine_lt : ∀ P x y, Curve.affine P = some (x, y) → x < Curve.p
  affine_neg : ∀ P x y, Curve.affine P = some (x, y) → ∃ z, Curve.affine (-P) = some (x, z)
  decode : ∀ x yBit P, x < Curve.p → (Curve.decodePoint (compressed x yBit) = some P ↔
    ∃ y, Curve.affine P = some (x, y) ∧ decide (y % 2 = 1) = yBit)
  encode_injective : Function.Injective (Curve.getEncoded : Curve.Point → Bytes)

section Laws

variable [Curve]

/-- The signer has made a signature with the nonce `k`, whose point has the given
    coordinates. -/
structure Generated (d : Int) (messageHash : Bytes) (k x y : ℕ) : Prop where
  affine : Curve.affine (k • Curve.g) = some (x, y)
  r_eq : (Curve.generateSignature d messageHash).1 = (x % Curve.n : ℕ)
  r_pos : 0 < (Curve.generateSignature d messageHash).1
  s_pos : 0 < (Curve.generateSignature d messageHash).2
  s_lt : (Curve.generateSignature d messageHash).2 < Curve.n
  equation : k * (Curve.generateSignature d messageHash).2 ≡
    BigInteger.ofMagnitude messageHash + (Curve.generateSignature d messageHash).1 * d [ZMOD Curve.n]

namespace LawfulCurve

theorem cast_ne_zero {a : Int} (hpos : 0 < a) (hlt : a < Curve.n) : (a : ZMod Curve.n) ≠ 0 := by
  intro h
  have hdvd := (ZMod.intCast_zmod_eq_zero_iff_dvd a Curve.n).mp h
  have := Int.le_of_dvd hpos hdvd
  omega

variable [LawfulCurve]

/-- The scalars are a field. -/
instance : Fact (Nat.Prime Curve.n) := ⟨prime⟩

instance : Module (ZMod Curve.n) Curve.Point := AddCommGroup.zmodModule order

/-- Multiples by a number are multiples by its scalar. -/
theorem toNat_smul {z : Int} (hz : 0 ≤ z) (P : Curve.Point) :
    z.toNat • P = (z : ZMod Curve.n) • P := by
  obtain ⟨m, rfl⟩ := Int.eq_ofNat_of_zero_le hz
  rw [Int.toNat_natCast, Int.cast_natCast, Nat.cast_smul_eq_nsmul]

theorem modInverse_eq {a : Int} (ha : (a : ZMod Curve.n) ≠ 0) :
    ∃ b, BigInteger.modInverse a Curve.n = .ok b ∧ 0 ≤ b ∧
      (b : ZMod Curve.n) = (a : ZMod Curve.n)⁻¹ := by
  have hn : (0 : Int) < Curve.n := by exact_mod_cast prime.pos
  have hcoprime : Int.gcd a Curve.n = 1 := by
    rw [Int.gcd_comm, Int.gcd_eq_natAbs, Int.natAbs_natCast]
    refine (Nat.Prime.coprime_iff_not_dvd prime).mpr fun h => ha ?_
    exact (ZMod.intCast_zmod_eq_zero_iff_dvd a Curve.n).mpr (Int.natCast_dvd.mpr h)
  refine ⟨Int.gcdA a Curve.n % Curve.n, if_pos hcoprime, Int.emod_nonneg _ (by omega), ?_⟩
  have hbezout := Int.gcd_eq_gcd_ab a Curve.n
  rw [hcoprime] at hbezout
  have hcast := congrArg (Int.cast : Int → ZMod Curve.n) hbezout
  push_cast at hcast
  rw [ZMod.natCast_self, zero_mul, add_zero] at hcast
  rw [ZMod.intCast_mod]
  exact eq_inv_of_mul_eq_one_right hcast.symm

/-- Coordinates belong to one point, and already the first of them and a bit do. -/
theorem eq_of_affine {P Q : Curve.Point} {x y z : ℕ} (hP : Curve.affine P = some (x, y))
    (hQ : Curve.affine Q = some (x, z)) (hbit : y % 2 = z % 2) : P = Q := by
  have hx := affine_lt P x y hP
  have hdecodeP := (decode x (decide (y % 2 = 1)) P hx).mpr ⟨y, hP, rfl⟩
  have hdecodeQ := (decode x (decide (y % 2 = 1)) Q hx).mpr ⟨z, hQ, by rw [hbit]⟩
  exact Option.some.inj (hdecodeP.symm.trans hdecodeQ)

theorem eq_zero_of_neg_eq {P : Curve.Point} (h : P = -P) : P = 0 := by
  have htwo : 2 • P = 0 := by
    rw [two_nsmul]
    nth_rewrite 2 [h]
    exact add_neg_cancel P
  have hn : Curve.n = Curve.n / 2 * 2 + 1 := by
    have hodd : Curve.n % 2 = 1 := odd
    omega
  have horder := order P
  rw [hn, add_smul, mul_smul, htwo, smul_zero, zero_add, one_smul] at horder
  exact horder

/-- The negative of a point has the other bit. -/
theorem affine_neg_bit {P : Curve.Point} {x y : ℕ} (h : Curve.affine P = some (x, y)) :
    ∃ z, Curve.affine (-P) = some (x, z) ∧ z % 2 ≠ y % 2 := by
  obtain ⟨z, hneg⟩ := affine_neg P x y h
  refine ⟨z, hneg, fun hbit => ?_⟩
  -- With the same bit it would be the same point, which only the one at infinity is.
  have hzero := eq_zero_of_neg_eq (eq_of_affine h hneg hbit.symm)
  rw [hzero, affine_zero] at h
  cases h

theorem exists_decode_iff {x : ℕ} (hx : x < Curve.p) (yBit : Bool) :
    (∃ P, Curve.decodePoint (compressed x yBit) = some P) ↔
      ∃ P y, Curve.affine P = some (x, y) := by
  constructor
  · rintro ⟨P, hP⟩
    obtain ⟨y, hy, -⟩ := (decode x yBit P hx).mp hP
    exact ⟨P, y, hy⟩
  · rintro ⟨P, y, hy⟩
    by_cases hbit : decide (y % 2 = 1) = yBit
    · exact ⟨P, (decode x yBit P hx).mpr ⟨y, hy, hbit⟩⟩
    · obtain ⟨z, hz, hne⟩ := affine_neg_bit hy
      refine ⟨-P, (decode x yBit (-P) hx).mpr ⟨z, hz, ?_⟩⟩
      have hy2 := Nat.mod_two_eq_zero_or_one y
      have hz2 := Nat.mod_two_eq_zero_or_one z
      cases yBit <;> simp at hbit ⊢ <;> omega

end LawfulCurve

namespace ECKey

open LawfulCurve

theorem decompressKey_eq (x : ℕ) (yBit : Bool) : decompressKey x yBit =
    match Curve.decodePoint (compressed x yBit) with
    | some R => .ok R
    | none => .error .invalidPoint := by
  have hset (c : UInt8) : ((Lib.padded 256 (1 + byteLength) x).map UInt8.ofNat).set 0 c =
      c :: (Lib.padded 256 byteLength x).map UInt8.ofNat := by
    have htail := Lib.padded_tail 256 byteLength x
    have hlength := Lib.length_padded 256 (byteLength + 1) x
    rw [Nat.add_comm 1]
    rcases hpadded : Lib.padded 256 (byteLength + 1) x with _ | ⟨first, rest⟩
    · rw [hpadded] at hlength
      cases hlength
    · rw [hpadded] at htail
      rw [← htail]
      rfl
  unfold decompressKey compressed
  rw [← hset]
  rfl

variable [LawfulCurve]

/-- What a selector leads to: nothing beyond the field, an exception where there is no
    point, and otherwise the key that goes with the point. -/
theorem recoverPubBytes_eq {sig : ECDSASignature} (hr : 0 < sig.r) (hlt : sig.r < Curve.n)
    (hs : 0 ≤ sig.s) (messageHash : Bytes) (j : ℕ) (yBit : Bool) :
    recoverPubBytesFromSignature (2 * j + if yBit then 1 else 0) sig messageHash =
      if Curve.p ≤ sig.r.toNat + j * Curve.n then .ok none
      else match Curve.decodePoint (compressed (sig.r.toNat + j * Curve.n) yBit) with
        | none => .error .invalidPoint
        | some R => .ok (some (Curve.getEncoded (recover Curve.g (sig.r : ZMod Curve.n)
            (sig.s : ZMod Curve.n) (BigInteger.ofMagnitude messageHash : ZMod Curve.n) R))) := by
  have hn : (0 : Int) < Curve.n := by exact_mod_cast LawfulCurve.prime.pos
  have hselector : (2 * j + if yBit then 1 else 0 : Int) / 2 = j := by
    cases yBit
    · simp
    · simp
      omega
  have hodd : decide ((2 * j + if yBit then 1 else 0 : Int) % 2 = 1) = yBit := by
    cases yBit <;> simp
  have hnonneg : (2 * j + if yBit then 1 else 0 : Int) ≥ 0 := by
    cases yBit
    · simp
    · simp
      omega
  obtain ⟨r, hr'⟩ := Int.eq_ofNat_of_zero_le hr.le
  obtain ⟨rInv, hInv, -, hrInv⟩ := modInverse_eq (cast_ne_zero hr hlt)
  have hx : sig.r + (j : Int) * Curve.n = ((sig.r.toNat + j * Curve.n : ℕ) : Int) := by
    push_cast
    omega
  unfold recoverPubBytesFromSignature check
  rw [decide_eq_true hnonneg, decide_eq_true hr.le, decide_eq_true hs, hselector, hodd]
  dsimp only
  rw [hx, decompressKey_eq]
  simp only [if_true, ge_iff_le, Nat.cast_le]
  by_cases hp : Curve.p ≤ sig.r.toNat + j * Curve.n
  · simp only [if_pos hp]
    rfl
  · simp only [if_neg hp]
    cases hdecode : Curve.decodePoint (compressed (sig.r.toNat + j * Curve.n) yBit) with
    | none => rfl
    | some R =>
        have horder := LawfulCurve.order R
        have hq (z : Int) (P : Curve.Point) : (z % Curve.n).toNat • P = (z : ZMod Curve.n) • P := by
          rw [toNat_smul (Int.emod_nonneg z (by omega)), ZMod.intCast_mod]
        simp only [hInv, hq, Int.cast_mul, ZMod.intCast_mod, Int.cast_sub, Int.cast_zero]
        change (if Curve.n • R ≠ 0 then Except.ok none else Except.ok _) = _
        rw [if_neg (not_not.mpr horder), recover, ← hrInv, zero_sub]

section Loop

omit [LawfulCurve]

variable {sig : ECDSASignature} {messageHash thisKey : Bytes} {i : Int} (is : List Int)

theorem findRecId_found (h : recoverPubBytesFromSignature i sig messageHash = .ok (some thisKey)) :
    findRecId sig messageHash thisKey (i :: is) = .ok (some i) := by
  rw [findRecId, h]
  exact if_pos rfl

theorem findRecId_skip {k : Option Bytes}
    (h : recoverPubBytesFromSignature i sig messageHash = .ok k) (hk : k ≠ some thisKey) :
    findRecId sig messageHash thisKey (i :: is) = findRecId sig messageHash thisKey is := by
  rw [findRecId, h]
  exact if_neg hk

theorem findRecId_throw {e : ECKeyException}
    (h : recoverPubBytesFromSignature i sig messageHash = .error e) :
    findRecId sig messageHash thisKey (i :: is) = .error e := by
  rw [findRecId, h]
  rfl

end Loop

/-- A signature in the lower half, with the point that the key is recovered from. -/
structure Canonical (d : Int) (messageHash : Bytes) (x : ℕ) (sig : ECDSASignature)
    (R : Curve.Point) (y : ℕ) : Prop where
  r_eq : sig.r = (x % Curve.n : ℕ)
  r_pos : 0 < sig.r
  s_pos : 0 < sig.s
  s_le : 2 * sig.s ≤ Curve.n
  affine : Curve.affine R = some (x, y)
  recovers : recover Curve.g (sig.r : ZMod Curve.n) (sig.s : ZMod Curve.n)
    (BigInteger.ofMagnitude messageHash : ZMod Curve.n) R = (d : ZMod Curve.n) • Curve.g

/-- Bringing the second number into the lower half takes the point to its negative. -/
theorem exists_canonical {d : Int} {messageHash : Bytes} {k x y : ℕ}
    (hhash : messageHash.length = 32) (h : Generated d messageHash k x y) :
    ∃ sig R y', (fromPrivate d).doSign messageHash = .ok sig ∧
      Canonical d messageHash x sig R y' := by
  obtain ⟨haffine, hr, hrpos, hspos, hslt, hequation⟩ := h
  set r := (Curve.generateSignature d messageHash).1
  set s := (Curve.generateSignature d messageHash).2
  have hn : Curve.n % 2 = 1 := odd
  have hr_lt : r < Curve.n := by
    rw [hr]
    exact_mod_cast Nat.mod_lt x LawfulCurve.prime.pos
  have hrecover : recover Curve.g (r : ZMod Curve.n) (s : ZMod Curve.n)
      (BigInteger.ofMagnitude messageHash : ZMod Curve.n) (k • Curve.g) =
        (d : ZMod Curve.n) • Curve.g := by
    have hcast := (ZMod.intCast_eq_intCast_iff _ _ _).mpr hequation
    push_cast at hcast
    rw [← Nat.cast_smul_eq_nsmul (ZMod Curve.n) k Curve.g]
    exact recover_sign (cast_ne_zero hrpos hr_lt) hcast
  have hdoSign : (fromPrivate d).doSign messageHash =
      .ok (ECDSASignature.toCanonicalised { r := r, s := s, v := 0 }) := by
    unfold doSign
    rw [if_neg (not_not.mpr hhash)]
    rfl
  have hhalf : (halfCurveOrder : Int) = (Curve.n / 2 : ℕ) := by
    unfold halfCurveOrder
    rw [Nat.shiftRight_one]
  rw [hdoSign]
  unfold ECDSASignature.toCanonicalised
  rw [hhalf]
  by_cases hhigh : s > (Curve.n / 2 : ℕ)
  · obtain ⟨y', hneg⟩ := affine_neg _ x y haffine
    refine ⟨_, -(k • Curve.g), y', congrArg _ (if_pos hhigh), hr, hrpos, ?_, ?_, hneg, ?_⟩
    · show 0 < Curve.n - s
      omega
    · show 2 * (Curve.n - s) ≤ Curve.n
      omega
    · show recover Curve.g (r : ZMod Curve.n) ((Curve.n - s : Int) : ZMod Curve.n) _ _ = _
      rw [Int.cast_sub, Int.cast_natCast, ZMod.natCast_self, zero_sub, recover_neg]
      exact hrecover
  · refine ⟨_, k • Curve.g, y, congrArg _ (if_neg hhigh), hr, hrpos, hspos, ?_, haffine, hrecover⟩
    show 2 * s ≤ Curve.n
    omega

section Selectors

variable {d : Int} {messageHash : Bytes} {x y : ℕ} {sig : ECDSASignature} {R : Curve.Point}
  (hc : Canonical d messageHash x sig R y)

include hc

theorem Canonical.r_lt : sig.r < Curve.n := by
  rw [hc.r_eq]
  exact_mod_cast Nat.mod_lt x LawfulCurve.prime.pos

/-- The point of the signature is the only one that gives the key. -/
theorem Canonical.recover_iff (P : Curve.Point) :
    Curve.getEncoded (recover Curve.g (sig.r : ZMod Curve.n) (sig.s : ZMod Curve.n)
      (BigInteger.ofMagnitude messageHash : ZMod Curve.n) P) =
        Curve.getEncoded ((d : ZMod Curve.n) • Curve.g) ↔ P = R := by
  have hs : sig.s < Curve.n := by
    have := hc.s_le
    have := hc.s_pos
    omega
  rw [LawfulCurve.encode_injective.eq_iff, ← hc.recovers,
    recover_eq_iff (cast_ne_zero hc.r_pos hc.r_lt) (cast_ne_zero hc.s_pos hs)]

variable {j x' : ℕ} {yBit : Bool} {P : Curve.Point}

/-- What a selector gives where there is a point for it. -/
theorem Canonical.recoverPubBytes_eq (hx' : sig.r.toNat + j * Curve.n = x') (hlt : x' < Curve.p)
    (hP : Curve.decodePoint (compressed x' yBit) = some P) :
    ∃ k, recoverPubBytesFromSignature (2 * j + if yBit then 1 else 0) sig messageHash = .ok k ∧
      (k = some (Curve.getEncoded ((d : ZMod Curve.n) • Curve.g)) ↔ P = R) := by
  refine ⟨some (Curve.getEncoded (recover Curve.g (sig.r : ZMod Curve.n) (sig.s : ZMod Curve.n)
    (BigInteger.ofMagnitude messageHash : ZMod Curve.n) P)), ?_, ?_⟩
  · rw [ECKey.recoverPubBytes_eq hc.r_pos hc.r_lt hc.s_pos.le, hx', if_neg (by omega), hP]
  · rw [Option.some.injEq, hc.recover_iff]

/-- The two selectors for a coordinate that another point has. -/
theorem Canonical.findRecId_skip (hx' : sig.r.toNat + j * Curve.n = x') (hlt : x' < Curve.p)
    (hne : x' ≠ x) (hpoint : ∃ P z, Curve.affine P = some (x', z)) (is : List Int) :
    findRecId sig messageHash (Curve.getEncoded ((d : ZMod Curve.n) • Curve.g))
      ((2 * j : Int) :: (2 * j + 1 : Int) :: is) =
    findRecId sig messageHash (Curve.getEncoded ((d : ZMod Curve.n) • Curve.g)) is := by
  have hother {yBit : Bool} {P : Curve.Point}
      (hP : Curve.decodePoint (compressed x' yBit) = some P) : P ≠ R := by
    rintro rfl
    obtain ⟨z, hz, -⟩ := (decode x' yBit P hlt).mp hP
    rw [hc.affine] at hz
    exact hne (congrArg Prod.fst (Option.some.inj hz)).symm
  obtain ⟨P, hP⟩ := (exists_decode_iff hlt false).mpr hpoint
  obtain ⟨Q, hQ⟩ := (exists_decode_iff hlt true).mpr hpoint
  obtain ⟨k, hk, hkey⟩ := hc.recoverPubBytes_eq hx' hlt hP
  obtain ⟨k', hk', hkey'⟩ := hc.recoverPubBytes_eq hx' hlt hQ
  rw [ECKey.findRecId_skip _ (by simpa using hk) (fun h => hother hP (hkey.mp h)),
    ECKey.findRecId_skip _ (by simpa using hk') (fun h => hother hQ (hkey'.mp h))]

/-- The two selectors for the coordinate of the point itself. -/
theorem Canonical.findRecId_found (hx : sig.r.toNat + j * Curve.n = x) (is : List Int) :
    findRecId sig messageHash (Curve.getEncoded ((d : ZMod Curve.n) • Curve.g))
      ((2 * j : Int) :: (2 * j + 1 : Int) :: is) =
        .ok (some (2 * j + if decide (y % 2 = 1) then 1 else 0)) ∧
      recoverPubBytesFromSignature (2 * j + if decide (y % 2 = 1) then 1 else 0) sig messageHash =
        .ok (some (Curve.getEncoded ((d : ZMod Curve.n) • Curve.g))) := by
  have hlt : x < Curve.p := affine_lt R x y hc.affine
  have hR : Curve.decodePoint (compressed x (decide (y % 2 = 1))) = some R :=
    (decode x _ R hlt).mpr ⟨y, hc.affine, rfl⟩
  obtain ⟨k, hk, hkey⟩ := hc.recoverPubBytes_eq hx hlt hR
  rw [hkey.mpr rfl] at hk
  refine ⟨?_, hk⟩
  cases hbit : decide (y % 2 = 1) with
  | false =>
      rw [hbit] at hk
      have hfound := ECKey.findRecId_found ((2 * j + 1 : Int) :: is) hk
      simpa using hfound
  | true =>
      rw [hbit] at hk hR
      obtain ⟨P, hP⟩ := (exists_decode_iff hlt false).mpr ⟨R, y, hc.affine⟩
      -- The point with the other bit is another one.
      have hne : P ≠ R := by
        rintro rfl
        obtain ⟨z, hz, hzbit⟩ := (decode x false P hlt).mp hP
        rw [hc.affine] at hz
        cases hz
        rw [hbit] at hzbit
        cases hzbit
      obtain ⟨k', hk', hkey'⟩ := hc.recoverPubBytes_eq hx hlt hP
      have hfound := ECKey.findRecId_found is hk
      rw [ECKey.findRecId_skip _ (by simpa using hk') (fun h => hne (hkey'.mp h))]
      simpa using hfound

/-- No other selector leads to the key. -/
theorem Canonical.selector_unique (hx : sig.r.toNat + j * Curve.n = x) {recId : Int}
    (hrecId : 0 ≤ recId) (h : recoverPubBytesFromSignature recId sig messageHash =
      .ok (some (Curve.getEncoded ((d : ZMod Curve.n) • Curve.g)))) :
    recId = 2 * j + if decide (y % 2 = 1) then 1 else 0 := by
  obtain ⟨i, bit, rfl⟩ : ∃ (i : ℕ) (bit : Bool), recId = 2 * i + if bit then 1 else 0 := by
    refine ⟨recId.toNat / 2, decide (recId % 2 = 1), ?_⟩
    by_cases hodd : recId % 2 = 1
    · rw [decide_eq_true hodd, if_pos rfl]
      omega
    · rw [decide_eq_false hodd, if_neg Bool.false_ne_true]
      omega
  rw [ECKey.recoverPubBytes_eq hc.r_pos hc.r_lt hc.s_pos.le] at h
  by_cases hp : Curve.p ≤ sig.r.toNat + i * Curve.n
  · rw [if_pos hp] at h
    cases h
  · rw [if_neg hp] at h
    cases hdecode : Curve.decodePoint (compressed (sig.r.toNat + i * Curve.n) bit) with
    | none =>
        rw [hdecode] at h
        cases h
    | some P =>
        rw [hdecode] at h
        have hP : P = R := (hc.recover_iff P).mp (Option.some.inj (Except.ok.inj h))
        obtain ⟨z, hz, hbit⟩ := (decode _ bit P (by omega)).mp hdecode
        rw [hP, hc.affine, Option.some.injEq, Prod.mk.injEq] at hz
        have hmul : j * Curve.n = i * Curve.n := by omega
        rw [Nat.eq_of_mul_eq_mul_right LawfulCurve.prime.pos hmul, hz.2, hbit]

end Selectors

/-- A signature that the key it was made with is recovered from. -/
structure Recovers (key : ECKey) (messageHash : Bytes) (sig : ECDSASignature) : Prop where
  fits : sig.Fits
  selector : 27 ≤ sig.v ∧ sig.v ≤ 30
  low : 2 * sig.s ≤ Curve.n
  recovers : recoverPubBytesFromSignature (sig.v.toInt - 27) sig messageHash =
    .ok (some (Curve.getEncoded key.pub))
  unique : ∀ recId, 0 ≤ recId → recoverPubBytesFromSignature recId sig messageHash =
    .ok (some (Curve.getEncoded key.pub)) → recId = sig.v.toInt - 27

omit [LawfulCurve] in
/-- The selector is written down when it is found. -/
theorem sign_of_found {key : ECKey} {messageHash : Bytes} {sig : ECDSASignature} {i : Int}
    (hdoSign : key.doSign messageHash = .ok sig) (hfits : sig.Fits) (hlow : 2 * sig.s ≤ Curve.n)
    (hi : 0 ≤ i ∧ i ≤ 3)
    (hfound : findRecId sig messageHash (Curve.getEncoded key.pub) [0, 1, 2, 3] = .ok (some i))
    (hrecover : recoverPubBytesFromSignature i sig messageHash =
      .ok (some (Curve.getEncoded key.pub)))
    (hunique : ∀ recId, 0 ≤ recId → recoverPubBytesFromSignature recId sig messageHash =
      .ok (some (Curve.getEncoded key.pub)) → recId = i) :
    ∃ sig, key.sign messageHash = .ok sig ∧ Recovers key messageHash sig := by
  have hv : (Int8.ofInt (i + 27)).toInt = i + 27 := by
    rw [Int8.toInt_ofInt, show Int8.size = 256 from rfl]
    exact Int.bmod_eq_of_le (by omega) (by omega)
  have hlow27 : (27 : Int8).toInt = 27 := rfl
  have hhigh30 : (30 : Int8).toInt = 30 := rfl
  refine ⟨{ sig with v := Int8.ofInt (i + 27) }, ?_, ?_⟩
  · unfold sign
    rw [hdoSign]
    show findRecId sig messageHash (Curve.getEncoded key.pub) [0, 1, 2, 3] >>= _ = _
    rw [hfound]
    rfl
  · refine ⟨⟨hfits.r_nonneg, hfits.r_lt, hfits.s_nonneg, hfits.s_lt⟩, ?_, hlow, ?_, ?_⟩
    · rw [Int8.le_iff_toInt_le, Int8.le_iff_toInt_le, hv]
      omega
    · rw [hv, Int.add_sub_cancel]
      exact hrecover
    · rw [hv, Int.add_sub_cancel]
      exact hunique

omit [LawfulCurve] in
theorem sign_of_throw {key : ECKey} {messageHash : Bytes} {sig : ECDSASignature}
    {e : ECKeyException} (hdoSign : key.doSign messageHash = .ok sig)
    (hthrow : findRecId sig messageHash (Curve.getEncoded key.pub) [0, 1, 2, 3] = .error e) :
    key.sign messageHash = .error e := by
  unfold sign
  rw [hdoSign]
  show findRecId sig messageHash (Curve.getEncoded key.pub) [0, 1, 2, 3] >>= _ = _
  rw [hthrow]
  rfl

theorem Canonical.fits {d : Int} {messageHash : Bytes} {x y : ℕ} {sig : ECDSASignature}
    {R : Curve.Point} (hc : Canonical d messageHash x sig R y) : sig.Fits := by
  have hn : (Curve.n : Int) < 256 ^ 32 := by exact_mod_cast LawfulCurve.lt
  have hr := hc.r_lt
  have hs := hc.s_le
  exact ⟨hc.r_pos.le, by omega, hc.s_pos.le, by have := hc.s_pos; omega⟩

section Signing

variable {d : Int} {messageHash : Bytes} (hhash : messageHash.length = 32) {k x y : ℕ}
  (h : Generated d messageHash k x y)

include hhash h

/-- Where the first number of a signature is a coordinate, of the nonce's point or of
    another, every selector that is tried has a point. -/
theorem sign_of_coordinate (hd : 0 ≤ d) (hpoint : ∃ P z, Curve.affine P = some (x % Curve.n, z)) :
    ∃ sig, (fromPrivate d).sign messageHash = .ok sig ∧ Recovers (fromPrivate d) messageHash sig := by
  obtain ⟨sig, R, y', hdoSign, hc⟩ := exists_canonical hhash h
  have hpub : (fromPrivate d).pub = (d : ZMod Curve.n) • Curve.g := toNat_smul hd Curve.g
  have hr : sig.r.toNat = x % Curve.n := by rw [hc.r_eq, Int.toNat_natCast]
  have hlt : x < Curve.p := affine_lt R x y' hc.affine
  have hmod : x % Curve.n ≤ x := Nat.mod_le x Curve.n
  have hzero : sig.r.toNat + 0 * Curve.n = x % Curve.n := by rw [Nat.zero_mul, Nat.add_zero, hr]
  by_cases hsmall : x < Curve.n
  · have hx := hzero.trans (Nat.mod_eq_of_lt hsmall)
    obtain ⟨hfound, hrecover⟩ := hc.findRecId_found (j := 0) hx [2, 3]
    have hunique (recId : Int) (h0 : 0 ≤ recId) := hc.selector_unique hx h0
    rw [← hpub] at hfound hrecover hunique
    refine sign_of_found hdoSign hc.fits hc.s_le ?_ hfound hrecover hunique
    split <;> simp
  · -- The coordinate is above the order, and the first number is another one.
    have hle : Curve.p ≤ 2 * Curve.n := LawfulCurve.le
    have hx : x % Curve.n + Curve.n = x := by
      rw [Nat.mod_eq_sub_mod (by omega), Nat.mod_eq_of_lt (by omega)]
      omega
    have hone : sig.r.toNat + 1 * Curve.n = x := by rw [Nat.one_mul, hr, hx]
    have hskip := hc.findRecId_skip (j := 0) hzero (by omega) (by omega) hpoint [2, 3]
    obtain ⟨hfound, hrecover⟩ := hc.findRecId_found (j := 1) hone []
    have hunique (recId : Int) (h0 : 0 ≤ recId) := hc.selector_unique hone h0
    rw [← hpub] at hfound hrecover hunique hskip
    refine sign_of_found hdoSign hc.fits hc.s_le ?_ (hskip.trans hfound) hrecover hunique
    split <;> simp

/-- Otherwise the first selector already is an exception, and the coordinate is never
    tried. -/
theorem sign_of_no_coordinate (hnone : ¬∃ P z, Curve.affine P = some (x % Curve.n, z)) :
    (fromPrivate d).sign messageHash = .error .invalidPoint := by
  obtain ⟨sig, R, y', hdoSign, hc⟩ := exists_canonical hhash h
  have hlt : x < Curve.p := affine_lt R x y' hc.affine
  have hmod : x % Curve.n ≤ x := Nat.mod_le x Curve.n
  have hdecode : Curve.decodePoint (compressed (x % Curve.n) false) = none := by
    by_contra hsome
    obtain ⟨P, hP⟩ := Option.ne_none_iff_exists'.mp hsome
    exact hnone ((exists_decode_iff (by omega) false).mp ⟨P, hP⟩)
  have hthrow := recoverPubBytes_eq hc.r_pos hc.r_lt hc.s_pos.le messageHash 0 false
  rw [Nat.zero_mul, Nat.add_zero, hc.r_eq, Int.toNat_natCast,
    if_neg (show ¬ Curve.p ≤ x % Curve.n by omega), hdecode] at hthrow
  exact sign_of_throw hdoSign (findRecId_throw _ (by simpa using hthrow))

/-- A signature is made exactly if its first number is a coordinate, and then the key
    is recovered from it, and with no other selector. -/
theorem sign_recovers (hd : 0 ≤ d) :
    ((∃ sig, (fromPrivate d).sign messageHash = .ok sig ∧
      Recovers (fromPrivate d) messageHash sig) ↔
        ∃ P z, Curve.affine P = some (x % Curve.n, z)) ∧
    ((∃ P z, Curve.affine P = some (x % Curve.n, z)) ∨
      (fromPrivate d).sign messageHash = .error .invalidPoint) := by
  have hthrow := sign_of_no_coordinate hhash h
  refine ⟨⟨?_, sign_of_coordinate hhash h hd⟩, or_iff_not_imp_left.mpr hthrow⟩
  rintro ⟨sig, hsig, -⟩
  by_contra hnone
  rw [hthrow hnone] at hsig
  cases hsig

end Signing

end ECKey

end Laws

/-! ## A small curve -/

/-- The multiples of the first point of `y² = x³ + 7` modulo 43. -/
def smallPoints : List (Option (ℕ × ℕ)) :=
  [none, some (2, 12), some (7, 7), some (35, 21), some (21, 18), some (12, 12), some (29, 31),
    some (25, 18), some (32, 40), some (20, 40), some (42, 7), some (40, 25), some (37, 36),
    some (13, 21), some (34, 40), some (38, 21), some (38, 22), some (34, 3), some (13, 22),
    some (37, 7), some (40, 18), some (42, 36), some (20, 3), some (32, 3), some (25, 25),
    some (29, 12), some (12, 31), some (21, 25), some (35, 22), some (7, 36), some (2, 31)]

/-- The coordinates of a point. -/
def smallAffine (P : ZMod 31) : Option (ℕ × ℕ) := (smallPoints[P.val]?).join

/-- The numbers of a signature with a nonce. -/
def smallR (k : ℕ) : ℕ := (smallAffine k).elim 0 fun q => q.1 % 31

/-- The `s` of a signature with nonce `k`, whose inverse modulo 31 is its 29th power. -/
def smallS (d e : Int) (k : ℕ) : Int := k ^ 29 * (e + smallR k * d) % 31

/-- The first nonce from the first byte of the hash on that gives two numbers. -/
def smallNonce (d : Int) (messageHash : Bytes) : ℕ :=
  let nonces := (List.range 31).map fun i => ((messageHash.headD 0).toNat + i) % 31
  (nonces.find? fun k =>
    0 < smallR k ∧ 0 < smallS d (BigInteger.ofMagnitude messageHash) k).getD 0

/-- The curve as the code has it. -/
@[reducible] def smallCurve : Curve where
  Point := ZMod 31
  group := inferInstance
  decidableEq := inferInstance
  n := 31
  p := 43
  g := 1
  affine := smallAffine
  decodePoint encoded := ((List.range 31).map (Nat.cast : ℕ → ZMod 31)).find? fun P =>
    match smallAffine P with
    | some (x, y) => encoded = [if y % 2 = 1 then 0x03 else 0x02, UInt8.ofNat x]
    | none => false
  getEncoded P :=
    match smallAffine P with
    | some (x, y) => [0x04, UInt8.ofNat x, UInt8.ofNat y]
    | none => [0x00]
  generateSignature d messageHash :=
    let k := smallNonce d messageHash
    (smallR k, smallS d (BigInteger.ofMagnitude messageHash) k)

/-- A hash with a nonce in front. -/
def smallHash (k : UInt8) : Bytes := k :: List.replicate 31 1

theorem smallAffine_lt : ∀ P, ∀ q ∈ smallAffine P, q.1 < 43 := by decide

theorem smallAffine_neg : ∀ P, (smallAffine (-P)).map Prod.fst = (smallAffine P).map Prod.fst := by
  decide

theorem smallCurve_decode : ∀ x < 43, ∀ yBit, ∀ P : ZMod 31,
    smallCurve.decodePoint (@compressed smallCurve x yBit) = some P ↔
      (smallAffine P).any (fun q => q.1 = x ∧ decide (q.2 % 2 = 1) = yBit) = true := by
  decide

theorem smallCurve_encode : ∀ P Q : ZMod 31,
    smallCurve.getEncoded P = smallCurve.getEncoded Q → P = Q := by
  decide

theorem smallCurve_lawful : @LawfulCurve smallCurve := by
  refine @LawfulCurve.mk smallCurve (by decide) rfl (by decide) (by decide) ?order rfl
    (fun P x y h => smallAffine_lt P (x, y) h) ?neg ?decode smallCurve_encode
  case order =>
    show ∀ P : ZMod 31, 31 • P = 0
    decide
  case neg =>
    intro P x y h
    have hneg := smallAffine_neg P
    rw [show smallAffine P = some (x, y) from h, Option.map_some, Option.map_eq_some_iff] at hneg
    obtain ⟨⟨x', z⟩, hz, rfl⟩ := hneg
    exact ⟨z, hz⟩
  case decode =>
    intro x yBit P hx
    refine (smallCurve_decode x hx yBit P).trans ?_
    rw [Option.any_eq_true]
    constructor
    · rintro ⟨⟨_, y⟩, hy, hq⟩
      obtain ⟨rfl, hbit⟩ := of_decide_eq_true hq
      exact ⟨y, hy, hbit⟩
    · rintro ⟨y, hy, hbit⟩
      exact ⟨(x, y), hy, decide_eq_true ⟨rfl, hbit⟩⟩

theorem smallHash_length (k : UInt8) : (smallHash k).length = 32 := rfl

theorem generated_small : @Generated smallCurve 3 (smallHash 15) 15 38 21 := by
  refine @Generated.mk smallCurve 3 (smallHash 15) 15 38 21 ?_ ?_ ?_ ?_ ?_ ?_
  all_goals decide

theorem generated_small_other : @Generated smallCurve 3 (smallHash 3) 3 35 21 := by
  refine @Generated.mk smallCurve 3 (smallHash 3) 3 35 21 ?_ ?_ ?_ ?_ ?_ ?_
  all_goals decide

/-- A coordinate above the order, with another point below it and without. -/
theorem ECKey.sign_recovers_small :
    (∃ sig, @ECKey.sign smallCurve (@ECKey.fromPrivate smallCurve 3) (smallHash 15) = .ok sig ∧
      @ECKey.Recovers smallCurve (@ECKey.fromPrivate smallCurve 3) (smallHash 15) sig) ∧
    @ECKey.sign smallCurve (@ECKey.fromPrivate smallCurve 3) (smallHash 3) =
      .error .invalidPoint := by
  have hd : (0 : Int) ≤ 3 := by decide
  refine ⟨(@ECKey.sign_recovers smallCurve smallCurve_lawful 3 (smallHash 15) (smallHash_length 15)
    15 38 21 generated_small hd).1.mpr ⟨(2 : ZMod 31), 7, by decide⟩, ?_⟩
  refine (@ECKey.sign_recovers smallCurve smallCurve_lawful 3 (smallHash 3) (smallHash_length 3)
    3 35 21 generated_small_other hd).2.resolve_left ?_
  rintro ⟨P, z, hz⟩
  have hnone : ∀ P, ∀ q ∈ smallAffine P, q.1 ≠ 4 := by decide
  exact hnone P (4, z) hz rfl

end Tronscan
