import Mathlib.Algebra.Group.Defs
import Mathlib.Data.Int.GCD
import Tronscan.Core.Signature

/-!
# Keys that Sign

The parts of `ECKey` that make a signature, and the recovery of the public key that
`Core.Signature` takes from outside.

A signature is made by the signer of the library, brought into the lower half, and
then tried with each of the four selectors until one recovers the own key. Points, the
signer and the encodings of points are the library's and are in `Curve`. Whatever a
selector leads to that is not a point is an exception of the library, and nothing
catches it.

## Main definitions

* `Curve`: The curve and the signer.
* `ECKeyException`: What is thrown.
* `ECKey.recoverPubBytesFromSignature`: A key from a signature and a selector.
* `ECKey.doSign`, `ECKey.sign`: A signature and its selector.
-/

namespace Tronscan

/-- The curve and the signer of the library. -/
class Curve where
  Point : Type
  group : AddCommGroup Point
  decidableEq : DecidableEq Point
  /-- The order of the points. -/
  n : ℕ
  /-- The prime of the field, which coordinates are below. -/
  p : ℕ
  g : Point
  /-- The coordinates of a point that is not at infinity. -/
  affine : Point → Option (ℕ × ℕ)
  /-- `none` is an `IllegalArgumentException`. -/
  decodePoint : Bytes → Option Point
  /-- `getEncoded(false)` -/
  getEncoded : Point → Bytes
  /-- `ECDSASigner.generateSignature` with the key and the hash. -/
  generateSignature : Int → Bytes → Int × Int

instance [Curve] : AddCommGroup Curve.Point := Curve.group

instance [Curve] : DecidableEq Curve.Point := Curve.decidableEq

/-- The exceptions of `ECKey`. -/
inductive ECKeyException where
  | illegalArgument (message : String)
  /-- What `decodePoint` throws. -/
  | invalidPoint
  /-- What `BigInteger.modInverse` throws. -/
  | arithmetic
  | missingPrivateKey
  | runtime (message : String)
  deriving DecidableEq

namespace BigInteger

/-- `BigInteger.modInverse` -/
def modInverse (a : Int) (m : ℕ) : Except ECKeyException Int :=
  if Int.gcd a m = 1 then .ok (Int.gcdA a m % m) else .error .arithmetic

end BigInteger

section

variable [Curve]

/-- `HALF_CURVE_ORDER` -/
def halfCurveOrder : Int := Curve.n >>> 1

/-- `toCanonicalised`: of `s` and `n - s` the lower. The new signature has no `v`
    yet. -/
def ECDSASignature.toCanonicalised (signature : ECDSASignature) : ECDSASignature :=
  if signature.s > halfCurveOrder then
    { r := signature.r, s := Curve.n - signature.s, v := 0 }
  else signature

end

/-- A key. The private part is not there if it can only verify. -/
structure ECKey [Curve] where
  privKey : Option Int
  pub : Curve.Point

namespace ECKey

variable [Curve]

/-- The key of a private key. -/
def fromPrivate (privKey : Int) : ECKey :=
  { privKey := some privKey, pub := privKey.toNat • Curve.g }

/-- `fromPrivate(byte[])`. -/
def fromPrivateBytes (privKeyBytes : Bytes) : ECKey :=
  fromPrivate (BigInteger.ofMagnitude privKeyBytes)

/-- `check`: throw with the message unless the test holds. -/
def check (test : Bool) (message : String) : Except ECKeyException Unit :=
  if test then .ok () else .error (.illegalArgument message)

/-- `X9IntegerConverter.getByteLength` of the curve. -/
def byteLength : ℕ := (Nat.size Curve.p + 7) / 8

/-- The point with a first coordinate, and a second one that is odd or not. -/
def decompressKey (xBN : Int) (yBit : Bool) : Except ECKeyException Curve.Point :=
  let compEnc := (Lib.padded 256 (1 + byteLength) xBN.toNat).map UInt8.ofNat
  let compEnc := compEnc.set 0 (if yBit then 0x03 else 0x02)
  match Curve.decodePoint compEnc with
  | some R => .ok R
  | none => .error .invalidPoint

/-- `none` is `null`. -/
def recoverPubBytesFromSignature (recId : Int) (sig : ECDSASignature) (messageHash : Bytes) :
    Except ECKeyException (Option Bytes) := do
  check (recId ≥ 0) "recId must be positive"
  check (sig.r ≥ 0) "r must be positive"
  check (sig.s ≥ 0) "s must be positive"
  let n : ℕ := Curve.n
  let i := recId / 2
  let x := sig.r + i * n
  if x ≥ Curve.p then return none
  else
    let R ← decompressKey x (recId % 2 = 1)
    if n • R ≠ 0 then return none
    else
      let e := BigInteger.ofMagnitude messageHash
      let eInv := (0 - e) % n
      let rInv ← BigInteger.modInverse sig.r n
      let srInv := rInv * sig.s % n
      let eInvrInv := rInv * eInv % n
      let q := eInvrInv.toNat • Curve.g + srInv.toNat • R
      return some (Curve.getEncoded q)

/-- A signature in the lower half, with no selector yet. -/
def doSign (key : ECKey) (input : Bytes) : Except ECKeyException ECDSASignature :=
  if input.length ≠ 32 then
    .error (.illegalArgument ("Expected 32 byte input to ECDSA signature, not " ++
      toString input.length))
  else
    match key.privKey with
    | none => .error .missingPrivateKey
    | some d =>
        let components := Curve.generateSignature d input
        .ok (ECDSASignature.toCanonicalised { r := components.1, s := components.2, v := 0 })

/-- The first selector that recovers the key. -/
def findRecId (sig : ECDSASignature) (messageHash thisKey : Bytes) :
    List Int → Except ECKeyException (Option Int)
  | [] => .ok none
  | i :: is => do
      let k ← recoverPubBytesFromSignature i sig messageHash
      if k = some thisKey then return some i else findRecId sig messageHash thisKey is

/-- `sign`: the signature of a hash, with the header byte that its key is recovered
    by. -/
def sign (key : ECKey) (messageHash : Bytes) : Except ECKeyException ECDSASignature := do
  let sig ← key.doSign messageHash
  let thisKey := Curve.getEncoded key.pub
  match ← findRecId sig messageHash thisKey [0, 1, 2, 3] with
  | none => .error (.runtime "Could not construct a recoverable key. This should never happen.")
  | some recId => return { sig with v := Int8.ofInt (recId + 27) }

/-- `getAddress`: the address of the public key. -/
def getAddress [Signing] (key : ECKey) : Bytes := computeAddress (Curve.getEncoded key.pub)

end ECKey

/-- Signatures are read with the keys that are recovered on the curve. -/
@[reducible] def Signing.onCurve [Curve] (outside : Signing) : Signing :=
  { outside with
    recoverPubBytesFromSignature := fun recId sig messageHash =>
      match ECKey.recoverPubBytesFromSignature recId sig messageHash with
      | .ok key => key
      | .error _ => none }

end Tronscan
