import Tronscan.Core.Proto
import Mathlib.Algebra.Ring.Int.Defs
import Mathlib.Algebra.Ring.Nat

/-!
# Hashes and Addresses

How the program names things: block ids and transaction hashes as hex strings,
addresses in Base58Check.

Base58 is the division loop of the source. `divmodFrom` is one division pass
over the digits, and the encoder runs such passes, collecting one output digit
for each, until the leading digits it has zeroed reach the end. The source
writes the output backwards into a buffer of twice the input's length, and `j`
below is what is left of that buffer.

## Main definitions

* `fromLong`: The eight bytes of a 64-bit number.
* `toHexString`: Two hex digits for each byte.
* `Base58.encode`, `Base58.encode58Check`: Base58, without and with checksum.
* `Block.hash`, `Transaction.hash`: The names of a block and a transaction.
* `encodeAddress`: An address as the database stores it.
* `decodeString`, `encodeString`: Text read with the platform's charset, and written
  as UTF-8.

## Theorems

* `toHexString_injective`: Hex strings determine the bytes.
* `encodeString_decodeString`: UTF-8 is read and written back.
-/

namespace Tronscan

/-- A number of 64 bits. -/
def IsLong (n : Int) : Prop := -2 ^ 63 ≤ n ∧ n < 2 ^ 63

/-- `ByteArray.fromLong`: the big-endian bytes of a 64-bit number. -/
def fromLong (val : Int) : Bytes :=
  [7, 6, 5, 4, 3, 2, 1, 0].map fun i => UInt8.ofNat ((val % 2 ^ 64).toNat / 256 ^ i % 256)

/-- The two hex digits of a byte. -/
def hexDigits (b : UInt8) : List Char :=
  [Nat.digitChar (b.toNat / 16), Nat.digitChar (b.toNat % 16)]

/-- `ByteArray.toHexString`. -/
def toHexString (data : Bytes) : String :=
  String.ofList (data.flatMap hexDigits)

theorem hexDigits_injective : ∀ a b : UInt8, hexDigits a = hexDigits b → a = b := by
  have hdigit : ∀ m < 16, ∀ n < 16, Nat.digitChar m = Nat.digitChar n → m = n := by decide
  intro a b h
  simp only [hexDigits, List.cons.injEq, and_true] at h
  have ha : a.toNat < 256 := a.toNat_lt
  have hb : b.toNat < 256 := b.toNat_lt
  have hhigh := hdigit _ (by omega) _ (by omega) h.1
  have hlow := hdigit _ (by omega) _ (by omega) h.2
  exact UInt8.toNat_inj.mp (by omega)

theorem toHexString_injective {a b : Bytes} (h : toHexString a = toHexString b) : a = b := by
  have hlist : a.flatMap hexDigits = b.flatMap hexDigits := String.ofList_injective h
  induction a generalizing b with
  | nil =>
      cases b with
      | nil => rfl
      | cons y ys => simp only [hexDigits, List.flatMap_nil, List.flatMap_cons, List.cons_append,
          reduceCtorEq] at hlist
  | cons x xs ih =>
      cases b with
      | nil => simp only [hexDigits, List.flatMap_nil, List.flatMap_cons, List.cons_append,
          reduceCtorEq] at hlist
      | cons y ys =>
          -- Two digits a byte, so both lists split after the same byte.
          rw [List.flatMap_cons, List.flatMap_cons] at hlist
          rcases List.append_inj hlist rfl with ⟨hxy, hrest⟩
          rw [hexDigits_injective x y hxy, ih (congrArg String.ofList hrest) hrest]

namespace Base58

/-- `Base58.ALPHABET`. -/
def ALPHABET : List Char :=
  "123456789ABCDEFGHJKLMNPQRSTUVWXYZabcdefghijkmnopqrstuvwxyz".toList

/-- One division pass: the digits in base `base`, the remainder so far in
    front of them, divided by `divisor`. Returns the quotient's digits and the
    remainder. -/
def divmodFrom (base divisor : Nat) : Nat → List UInt8 → List UInt8 × Nat
  | remainder, [] => ([], remainder)
  | remainder, digit :: digits =>
      let temp := remainder * base + digit.toNat
      let rest := divmodFrom base divisor (temp % divisor) digits
      (UInt8.ofNat (temp / divisor) :: rest.1, rest.2)

/-- `divmod58`: divide the number in place, from the digit `startAt` on. -/
def divmod58 (number : List UInt8) (startAt : Nat) : List UInt8 × Nat :=
  let tail := divmodFrom 256 58 0 (number.drop startAt)
  (number.take startAt ++ tail.1, tail.2)

/-- The encoding loop. `j` counts the free bytes of the output buffer, which
    has room for two digits a byte and so is never exhausted. -/
def encodeLoop : Nat → List UInt8 → Nat → List Char → List Char
  | 0, _, _, temp => temp
  | j + 1, number, startAt, temp =>
      if startAt < number.length then
        -- One pass divides by 58 and leaves one digit of the output.
        let next := divmod58 number startAt
        let startAt' := if next.1.getD startAt 0 = 0 then startAt + 1 else startAt
        encodeLoop j next.1 startAt' (ALPHABET.getD next.2 '1' :: temp)
      else temp

/-- `Base58.encode`, of less than `2 ^ 30` bytes. Of more, the array for the output cannot
    be created; `Core.Base58Buffers` has the method with its arrays. -/
def encode (input : Bytes) : String :=
  if input = [] then "" else
    let zeroCount := (input.takeWhile (· = 0)).length
    let temp := encodeLoop (2 * input.length) input zeroCount []
    String.ofList (List.replicate zeroCount '1' ++ temp.dropWhile (· = '1'))

variable [Codec]

/-- The input with the first four bytes of its double SHA-256, in Base58. -/
def encode58Check (input : Bytes) : String :=
  encode (input ++ (Codec.sha256 (Codec.sha256 input)).take 4)

end Base58

variable [Codec]

/-- `ByteStringUtils.encodeAddress`. -/
def encodeAddress (address : Bytes) : String := Base58.encode58Check address

/-- `ByteStringUtils.decodeString`. -/
def decodeString (bytes : Bytes) : String := Codec.newString bytes

/-- `StringUtils.encodeString`. -/
def encodeString (str : String) : Bytes := str.toUTF8.data.toList

/-- Bytes that are the UTF-8 of a string. -/
def IsUtf8 (bytes : Bytes) : Prop := ∃ s, encodeString s = bytes

/-- Text comes back where the platform's charset is UTF-8. -/
theorem encodeString_decodeString (hcharset : ∀ s, decodeString (encodeString s) = s)
    {bytes : Bytes} (h : IsUtf8 bytes) : encodeString (decodeString bytes) = bytes := by
  rcases h with ⟨s, rfl⟩
  rw [hcharset]

/-- `BlockId.hash`: the number, then the hash without its first eight bytes. -/
def BlockId.hash (num : Int) (blockHash : Bytes) : Bytes := fromLong num ++ blockHash.drop 8

/-- `rawHash`: the hash of the header's raw data. -/
def Block.rawHash (block : Block) : Bytes :=
  Codec.sha256 (Codec.headerBytes block.getBlockHeader.getRawData)

/-- `hashBytes`: the id of a block, its number and the end of its raw hash. -/
def Block.hashBytes (block : Block) : Bytes := BlockId.hash block.number block.rawHash

/-- `hash`: the id as it is printed. -/
def Block.hash (block : Block) : String := toHexString block.hashBytes

/-- `parentHash`: the id of the parent, from the parent hash of the header. -/
def Block.parentHash (block : Block) : Bytes :=
  BlockId.hash (block.number - 1) block.getBlockHeader.getRawData.parentHash

/-- The address of the block's witness. -/
def Block.witness (block : Block) : String :=
  encodeAddress block.getBlockHeader.getRawData.witnessAddress

/-- `hashBytes`: the hash of the raw transaction. -/
def Transaction.hashBytes (trx : Transaction) : Bytes :=
  Codec.sha256 (Codec.transactionBytes trx.getRawData)

/-- `hash`: the same as it is printed. -/
def Transaction.hash (trx : Transaction) : String := toHexString trx.hashBytes

end Tronscan
