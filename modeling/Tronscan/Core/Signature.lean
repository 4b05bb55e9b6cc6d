import Tronscan.Core.Decoding
import Mathlib.Data.Nat.Size

/-!
# Signatures

`ECDSASignature` and the parts of `ECKey`, `Crypto`, `ByteUtil` and `Hash` that
take a signature from its bytes to the address of who signed.

A signature is two numbers and a byte. Its 65 bytes are laid out in two ways. On
the wire the numbers come first and the byte is taken down by 27, and in the
Base64 string that keys are recovered from the byte comes first as it is. A
number has 32 bytes in either. `BigInteger.toByteArray` gives it as few as it
needs, sign bit included, so that one with its highest bit set has 33 and a
small one has less than 32.

Base64, the recovery of a key from the three parts, Keccak, and the prefix of
the network are taken from outside.

## Main definitions

* `Signing`: What is taken from outside.
* `BigInteger.toByteArray`, `BigInteger.ofMagnitude`: Numbers and their bytes.
* `ECDSASignature.toByteArray`, `ECDSASignature.toBase64`: The two layouts.
* `Crypto.getBase64FromByteString`: From the first to the second.
* `ECKey.parseSignature`, `ECKey.signatureToAddress`: Reading the second.

## Theorems

* `bigIntegerToBytes_eq`: A number that fits a field is written as its digits.
* `ofMagnitude_bigIntegerToBytes`: It is read back.
* `signatureFromByteString_toByteArray`, `parseSignature_toBase64`: So is a
  signature, from either layout.
-/

namespace Tronscan

open Base58 (digits digits_ofNat)

namespace BigInteger

/-- `BigInteger.bitLength`: the bits of the two's complement, the sign left out. -/
def bitLength (b : Int) : Nat :=
  if 0 ≤ b then Nat.size b.toNat else Nat.size (-b - 1).toNat

/-- `BigInteger.toByteArray`: the two's complement in as few bytes as hold the sign. -/
def toByteArray (b : Int) : Bytes :=
  let n := bitLength b / 8 + 1
  (Lib.padded 256 n (b % 256 ^ n).toNat).map UInt8.ofNat

/-- `new BigInteger(1, magnitude)` -/
def ofMagnitude (magnitude : Bytes) : Int := Lib.value 256 (digits magnitude)

end BigInteger

namespace ByteUtil

/-- The bytes of a number in a field of a given size. -/
def bigIntegerToBytes (b : Int) (numBytes : Nat) : Bytes :=
  let biBytes := BigInteger.toByteArray b
  let start := if biBytes.length = numBytes + 1 then 1 else 0
  let length := min biBytes.length numBytes
  List.replicate (numBytes - length) 0 ++ (biBytes.drop start).take length

/-- `merge`. -/
def merge (arrays : List Bytes) : Bytes := arrays.flatten

end ByteUtil

open ByteUtil

/-- `ECKey.ECDSASignature` -/
structure ECDSASignature where
  r : Int
  s : Int
  v : Int8
  deriving DecidableEq

/-- What a signature is read with. `none` is an exception, and for a key also `null`. -/
class Signing where
  base64Encode : Bytes → String
  base64Decode : String → Option Bytes
  base64Decode_encode : ∀ bytes, base64Decode (base64Encode bytes) = some bytes
  recoverPubBytesFromSignature : Int → ECDSASignature → Bytes → Option Bytes
  sha3 : Bytes → Bytes
  prefixByte : UInt8

namespace ECDSASignature

/-- `fromComponents`: the bytes of `r` and `s` are read without a sign. -/
def fromComponents (r s : Bytes) (v : Int8) : ECDSASignature where
  r := BigInteger.ofMagnitude r
  s := BigInteger.ofMagnitude s
  v := v

/-- The layout on the wire. -/
def toByteArray (signature : ECDSASignature) : Bytes :=
  let fixedV := if 27 ≤ signature.v then signature.v - 27 else signature.v
  merge [bigIntegerToBytes signature.r 32, bigIntegerToBytes signature.s 32, [fixedV.toUInt8]]

variable [Signing]

/-- The layout that keys are recovered from. -/
def toBase64 (signature : ECDSASignature) : String :=
  let sigData := signature.v.toUInt8 :: bigIntegerToBytes signature.r 32 ++
    bigIntegerToBytes signature.s 32
  Signing.base64Encode sigData

end ECDSASignature

namespace Crypto

/-- The signature in the bytes on the wire, which have to be 65 at least. -/
def signatureFromByteString (sign : Bytes) : Option ECDSASignature := do
  let v ← sign[64]?
  -- Bytes are signed.
  let v := v.toInt8.toInt
  let v := if v < 27 then v + 27 else v
  return .fromComponents (sign.take 32) ((sign.drop 32).take 32) (Int8.ofInt v)

/-- `getBase64FromByteString`; none where it throws. -/
def getBase64FromByteString [Signing] (sign : Bytes) : Option String :=
  (signatureFromByteString sign).map ECDSASignature.toBase64

end Crypto

namespace Hash

/-- The prefix of the network and the last 20 bytes of the hash. -/
def sha3omit12 [Signing] (input : Bytes) : Bytes :=
  let address := (Signing.sha3 input).drop 11
  address.set 0 Signing.prefixByte

end Hash

namespace ECKey

variable [Signing]

/-- The part of `signatureToKeyBytes` that takes the string apart. -/
def parseSignature (signatureBase64 : String) : Option ECDSASignature := do
  let signatureEncoded ← Signing.base64Decode signatureBase64
  if signatureEncoded.length < 65 then none
  else
    let v ← signatureEncoded[0]?
    return .fromComponents ((signatureEncoded.drop 1).take 32) ((signatureEncoded.drop 33).take 32)
      v.toInt8

/-- The part of it that recovers the key. -/
def recoverKeyBytes (messageHash : Bytes) (sig : ECDSASignature) : Option Bytes :=
  let header := sig.v.toInt
  if messageHash.length ≠ 32 then none
  else if header < 27 ∨ 34 < header then none
  else
    let header := if 31 ≤ header then header - 4 else header
    Signing.recoverPubBytesFromSignature (header - 27) sig messageHash

/-- `signatureToKeyBytes`; none where it throws. -/
def signatureToKeyBytes (messageHash : Bytes) (signatureBase64 : String) : Option Bytes := do
  let sig ← parseSignature signatureBase64
  recoverKeyBytes messageHash sig

/-- The first byte of a key says how it is encoded. -/
def computeAddress (pubBytes : Bytes) : Bytes := Hash.sha3omit12 (pubBytes.drop 1)

/-- `signatureToAddress`; none where it throws. -/
def signatureToAddress (messageHash : Bytes) (signatureBase64 : String) : Option Bytes :=
  (signatureToKeyBytes messageHash signatureBase64).map computeAddress

end ECKey

/-! ## Numbers in fields -/

section Fields

variable {r : Int} {n : Nat}

theorem length_bigIntegerToBytes (r : Int) (n : Nat) : (bigIntegerToBytes r n).length = n := by
  unfold bigIntegerToBytes
  simp only [List.length_append, List.length_replicate, List.length_take, List.length_drop]
  split <;> omega

/-- A byte for each eight bits, and one more, hold a number and its sign. -/
theorem lt_pow_size (m : Nat) : m < 256 ^ (Nat.size m / 8 + 1) :=
  calc m < 2 ^ Nat.size m := Nat.lt_size_self m
    _ ≤ 2 ^ (8 * (Nat.size m / 8 + 1)) := Nat.pow_le_pow_right (by omega) (by omega)
    _ = 256 ^ (Nat.size m / 8 + 1) := by rw [Nat.pow_mul]

theorem toByteArray_eq (hr : 0 ≤ r) : BigInteger.toByteArray r =
    (Lib.padded 256 (Nat.size r.toNat / 8 + 1) r.toNat).map UInt8.ofNat := by
  have hlt : r < 256 ^ (Nat.size r.toNat / 8 + 1) := by
    have h := (Int.toNat_lt hr).mp (lt_pow_size r.toNat)
    rwa [Nat.cast_pow] at h
  unfold BigInteger.toByteArray BigInteger.bitLength
  simp only [if_pos hr, Int.emod_eq_of_lt hr hlt]

theorem toNat_lt_pow (hr : 0 ≤ r) (hlt : r < 256 ^ n) : r.toNat < 256 ^ n :=
  (Int.toNat_lt hr).mpr (by rwa [Nat.cast_pow])

/-- A number that fits a field is written as its digits there. -/
theorem bigIntegerToBytes_eq (hr : 0 ≤ r) (hlt : r < 256 ^ n) :
    bigIntegerToBytes r n = (Lib.padded 256 n r.toNat).map UInt8.ofNat := by
  have hsize : Nat.size r.toNat ≤ 8 * n := by
    rw [Nat.size_le, Nat.pow_mul]
    exact toNat_lt_pow hr hlt
  unfold bigIntegerToBytes
  rw [toByteArray_eq hr]
  simp only [List.length_map, Lib.length_padded]
  by_cases hsign : Nat.size r.toNat / 8 + 1 = n + 1
  · -- The highest bit is set, and the first byte holds the sign alone.
    rw [if_pos hsign, hsign, Nat.min_eq_right (by omega), Nat.sub_self, List.replicate_zero,
      List.nil_append, List.drop_one, ← List.map_tail, Lib.padded_tail]
    exact List.take_of_length_le (by simp)
  · have hle : Nat.size r.toNat / 8 + 1 ≤ n := by omega
    rw [if_neg hsign, Nat.min_eq_left hle, List.drop_zero,
      Lib.padded_of_lt (by omega) hle (lt_pow_size _), List.map_append, List.map_replicate,
      List.take_of_length_le (by simp)]
    rfl

/-- A number that fits a field is read back from it. -/
theorem ofMagnitude_bigIntegerToBytes (hr : 0 ≤ r) (hlt : r < 256 ^ n) :
    BigInteger.ofMagnitude (bigIntegerToBytes r n) = r := by
  unfold BigInteger.ofMagnitude
  rw [bigIntegerToBytes_eq hr hlt, digits_ofNat (Lib.padded_lt (by omega) _ _), Lib.value_padded,
    Nat.mod_eq_of_lt (toNat_lt_pow hr hlt), Int.toNat_of_nonneg hr]

end Fields

/-! ## Signatures in their layouts -/

section Layouts

variable {signature : ECDSASignature}

/-- The parts of a signature fit their fields. -/
structure ECDSASignature.Fits (signature : ECDSASignature) : Prop where
  r_nonneg : 0 ≤ signature.r
  r_lt : signature.r < 256 ^ 32
  s_nonneg : 0 ≤ signature.s
  s_lt : signature.s < 256 ^ 32

/-- The fields of either layout hold the numbers. -/
theorem fromComponents_eq (h : signature.Fits) :
    .fromComponents (bigIntegerToBytes signature.r 32) (bigIntegerToBytes signature.s 32)
      signature.v = signature := by
  unfold ECDSASignature.fromComponents
  rw [ofMagnitude_bigIntegerToBytes h.r_nonneg h.r_lt,
    ofMagnitude_bigIntegerToBytes h.s_nonneg h.s_lt]

/-- Taking a header down by 27 and up again gives the header. -/
theorem fixedV_spec {v : Int8} (hv : 27 ≤ v ∧ v ≤ 30) :
    Int8.ofInt (if (v - 27).toUInt8.toInt8.toInt < 27 then (v - 27).toUInt8.toInt8.toInt + 27
      else (v - 27).toUInt8.toInt8.toInt) = v := by
  rw [Int8.le_iff_toInt_le, Int8.le_iff_toInt_le] at hv
  have hlow : (27 : Int8).toInt = 27 := rfl
  have hhigh : (30 : Int8).toInt = 30 := rfl
  have hsub : (v - 27).toInt = v.toInt - 27 := by
    rw [Int8.toInt_sub, hlow]
    exact Int.bmod_eq_of_le (by omega) (by omega)
  rw [Int8.toInt8_toUInt8, hsub, if_pos (by omega), Int.sub_add_cancel, Int8.ofInt_toInt]

/-- A signature is read back from its bytes on the wire. -/
theorem signatureFromByteString_toByteArray (h : signature.Fits)
    (hv : 27 ≤ signature.v ∧ signature.v ≤ 30) :
    Crypto.signatureFromByteString signature.toByteArray = some signature := by
  have hr := length_bigIntegerToBytes signature.r 32
  have hs := length_bigIntegerToBytes signature.s 32
  have hbytes : signature.toByteArray = bigIntegerToBytes signature.r 32 ++
      (bigIntegerToBytes signature.s 32 ++ [(signature.v - 27).toUInt8]) := by
    simp [ECDSASignature.toByteArray, merge, hv.1]
  have hheader : signature.toByteArray[64]? = some (signature.v - 27).toUInt8 := by
    rw [hbytes, List.getElem?_append_right (by omega), List.getElem?_append_right (by omega), hr, hs]
    rfl
  unfold Crypto.signatureFromByteString
  rw [hheader, hbytes, List.take_left' hr, List.drop_left' hr, List.take_left' hs]
  simp only [Option.bind_eq_bind, Option.bind_some, Option.pure_def, Option.some.injEq]
  rw [fixedV_spec hv]
  exact fromComponents_eq h

/-- It is read back from its Base64 string. -/
theorem parseSignature_toBase64 [Signing] (h : signature.Fits) :
    ECKey.parseSignature signature.toBase64 = some signature := by
  have hr := length_bigIntegerToBytes signature.r 32
  have hs := length_bigIntegerToBytes signature.s 32
  unfold ECKey.parseSignature ECDSASignature.toBase64
  rw [Signing.base64Decode_encode]
  simp only [Option.bind_eq_bind, Option.bind_some, List.cons_append, List.length_cons,
    List.length_append, hr, hs, Nat.lt_irrefl, if_false, List.getElem?_cons_zero, Option.pure_def,
    List.drop_succ_cons, List.drop_zero, Int8.toInt8_toUInt8, Option.some.injEq]
  rw [List.take_left' hr, List.drop_left' hr, List.take_of_length_le (by omega)]
  exact fromComponents_eq h

end Layouts

end Tronscan
