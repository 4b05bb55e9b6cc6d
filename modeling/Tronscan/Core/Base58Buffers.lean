import Tronscan.Core.Decoding
import Tronscan.Lib.While

/-!
# Base58 with its Buffers

`Base58.encode` and `Base58.decode` as they are written, with arrays of bytes that
are read and written at an index. `Core.Encoding` and `Core.Decoding` have the
same computation on lists, where there is no index to get wrong.

An array is a list with the length of a Java array. Each access checks its index
and throws outside of the array, as the virtual machine does, and so does the
creation of an array of negative length. A `byte` is signed where it is used as a
number. The arithmetic of an `int` wraps around in the four places where it could
leave the 32 bits: twice the length of the input, the two lengths of a range, and the
length with a checksum.

## Main definitions

* `JavaException`, `Java`: What such code throws, and what running it gives.
* `Java.get`, `Java.set`, `Java.arraycopy`, `Java.newByteArray`: Arrays.
* `Base58.Buffers.encode`, `Base58.Buffers.decode`: The two methods.
* `Base58.Buffers.encode58Check`, `Base58.Buffers.decode58Check`: With a checksum.
-/

namespace Tronscan

/-- What code over arrays throws. -/
inductive JavaException where
  | arrayIndexOutOfBounds
  | negativeArraySize
  | illegalArgument (message : List UInt16)
  deriving DecidableEq

/-- An array, or the characters of a string: the length is an `int`. -/
structure JavaArray (α : Type) where
  elems : List α
  length_lt : elems.length < 2 ^ 31

/-- Running a method, with so many rounds for each loop. -/
abbrev Java (α : Type) := Lib.Exec JavaException α

namespace Java

/-- What is left of a number in an `int`. -/
def int (n : Int) : Int := n.bmod (2 ^ 32)

/-- `(byte) n` -/
def byte (n : Int) : UInt8 := UInt8.ofNat (n % 256).toNat

/-- A `byte` as an `int`. -/
def signed (b : UInt8) : Int := (b.toNat : Int).bmod 256

/-- The code units of a text without characters beyond 16 bits. -/
def units (s : String) : List UInt16 := s.toList.map fun c => UInt16.ofNat c.toNat

variable {α : Type}

/-- `new byte[length]` -/
def newByteArray (length : Int) : Java (List UInt8) :=
  if length < 0 then throw .negativeArraySize else return List.replicate length.toNat 0

/-- `a[i]` -/
def get (a : List α) (i : Int) : Java α :=
  match if 0 ≤ i then a[i.toNat]? else none with
  | some x => return x
  | none => throw .arrayIndexOutOfBounds

/-- The array after `a[i] = x`. -/
def set (a : List α) (i : Int) (x : α) : Java (List α) :=
  if 0 ≤ i ∧ i < a.length then return a.set i.toNat x else throw .arrayIndexOutOfBounds

/-- The destination after `System.arraycopy`. -/
def arraycopy (source : List α) (srcPos : Int) (dest : List α) (destPos length : Int) :
    Java (List α) :=
  if srcPos < 0 ∨ destPos < 0 ∨ length < 0 ∨ srcPos + length > source.length ∨
      destPos + length > dest.length then
    throw .arrayIndexOutOfBounds
  else
    return dest.take destPos.toNat ++ (source.drop srcPos.toNat).take length.toNat ++
      dest.drop (destPos + length).toNat

/-- `new String(bytes, "US-ASCII")`, byte by byte. -/
def asciiChar (b : UInt8) : Char :=
  if b.toNat < 128 then Char.ofNat b.toNat else '\uFFFD'

end Java

namespace Base58.Buffers

open Lib Java

/-- `ALPHABET`, as code units. -/
def alphabet : List UInt16 := ALPHABET.map fun c => UInt16.ofNat c.toNat

/-- A division pass: the number, the remainder and the index. -/
structure Division where
  number : List UInt8
  remainder : Int
  i : Int

/-- A division pass from `startAt` on, and the remainder as a byte. -/
def divmod (base divisor : Int) (n : ℕ) (number : List UInt8) (startAt : Int) :
    Java (List UInt8 × UInt8) := do
  let s ← whileLoop (fun s : Division => return decide (s.i < s.number.length)) (fun s => do
      let digit ← get s.number s.i
      let temp := s.remainder * base + digit.toNat
      let number ← set s.number s.i (byte (temp.tdiv divisor))
      return { number := number, remainder := temp.tmod divisor, i := s.i + 1 })
    n { number := number, remainder := 0, i := startAt }
  return (s.number, byte s.remainder)

/-- `divmod58`: divide bytes by 58 in place. -/
def divmod58 : ℕ → List UInt8 → Int → Java (List UInt8 × UInt8) := divmod 256 58

/-- `divmod256`: divide base 58 digits by 256 in place. -/
def divmod256 : ℕ → List UInt8 → Int → Java (List UInt8 × UInt8) := divmod 58 256

/-- `copyOfRange`. -/
def copyOfRange (source : List UInt8) (start stop : Int) : Java (List UInt8) := do
  let range ← newByteArray (int (stop - start))
  arraycopy source start range 0 range.length

/-- `while (j < a.length && a[j] == x) ++j` -/
def skip (a : List UInt8) (x : Int) (n : ℕ) (j : Int) : Java Int :=
  whileLoop (fun j => if j < a.length then do return signed (← get a j) = x else return false)
    (fun j => return j + 1) n j

/-- The state of both conversions: the digits left, where they start, and the output
    with the place it has been filled down to. -/
structure Conversion where
  number : List UInt8
  startAt : Int
  temp : List UInt8
  j : Int

/-- A round of a conversion. -/
def convertStep (divide : List UInt8 → Int → Java (List UInt8 × UInt8))
    (digit : UInt8 → Java UInt8) (s : Conversion) : Java Conversion := do
  let (number, mod) ← divide s.number s.startAt
  let startAt := if signed (← get number s.startAt) = 0 then s.startAt + 1 else s.startAt
  let temp ← set s.temp (s.j - 1) (← digit mod)
  return { number := number, startAt := startAt, temp := temp, j := s.j - 1 }

/-- `while (startAt < number.length)` around it. -/
def convertLoop (divide : List UInt8 → Int → Java (List UInt8 × UInt8))
    (digit : UInt8 → Java UInt8) : ℕ → Conversion → Java Conversion :=
  whileLoop (fun s => return decide (s.startAt < s.number.length)) (convertStep divide digit)

/-- The character of a digit, as a byte. -/
def encodeDigit (mod : UInt8) : Java UInt8 := do
  return byte (← get alphabet (signed mod)).toNat

/-- The state of the loop that puts a character for each leading zero in front. -/
structure Padding where
  zeroCount : Int
  temp : List UInt8
  j : Int

/-- `while (--zeroCount >= 0) temp[--j] = ALPHABET[0]`. -/
def pad (n : ℕ) (zeroCount : Int) (temp : List UInt8) (j : Int) : Java Padding :=
  whileLoop (fun s : Padding => return decide (0 ≤ s.zeroCount - 1)) (fun s => do
      let temp ← set s.temp (s.j - 1) (byte (← get alphabet 0).toNat)
      return { zeroCount := s.zeroCount - 1, temp := temp, j := s.j - 1 })
    n { zeroCount := zeroCount, temp := temp, j := j }

/-- `Base58.encode` -/
def encode (n : ℕ) (input : List UInt8) : Java String :=
  if input.length = 0 then return "" else do
    let input ← copyOfRange input 0 input.length
    let zeroCount ← skip input 0 n 0
    let temp ← newByteArray (int (input.length * 2))
    let s ← convertLoop (divmod58 n) encodeDigit n
      { number := input, startAt := zeroCount, temp := temp, j := temp.length }
    -- Strip what the last round may have written in front of the first digit.
    let j ← skip s.temp (← get alphabet 0).toNat n s.j
    let padding ← pad n zeroCount s.temp j
    let output ← copyOfRange padding.temp padding.j padding.temp.length
    return String.ofList (output.map asciiChar)

/-- The state of the loop over the characters. -/
structure Reading where
  input58 : List UInt8
  i : Int

/-- The digit of a character, or a negative number. -/
def indexOf (c : UInt16) : Java Int :=
  if c.toNat < 128 then get INDEXES c.toNat else return -1

/-- The digits of a string. -/
def readDigits (n : ℕ) (input : List UInt16) : Java (List UInt8) := do
  let s ← whileLoop (fun s : Reading => return decide (s.i < input.length)) (fun s => do
      let c ← get input s.i
      let digit58 ← indexOf c
      if digit58 < 0 then
        throw (.illegalArgument
          (units "Illegal character " ++ [c] ++ units " at " ++ units (toString s.i)))
      else
        let input58 ← set s.input58 s.i (byte digit58)
        return { input58 := input58, i := s.i + 1 })
    n { input58 := List.replicate input.length 0, i := 0 }
  return s.input58

/-- What the loops of `decode` leave. -/
structure Decoded where
  temp : List UInt8
  j : Int
  zeroCount : Int

/-- The loops of `Base58.decode`. -/
def decodeLoops (n : ℕ) (input : List UInt16) : Java Decoded := do
  let input58 ← readDigits n input
  let zeroCount ← skip input58 0 n 0
  let temp ← newByteArray input.length
  let s ← convertLoop (divmod256 n) (fun mod => return mod) n
    { number := input58, startAt := zeroCount, temp := temp, j := temp.length }
  let j ← skip s.temp 0 n s.j
  return { temp := s.temp, j := j, zeroCount := zeroCount }

/-- `Base58.decode` -/
def decode (n : ℕ) (input : List UInt16) : Java (List UInt8) :=
  if input.length = 0 then return [] else do
    let s ← decodeLoops n input
    copyOfRange s.temp (int (s.j - s.zeroCount)) s.temp.length

variable [Codec]

/-- `Base58.encode58Check` -/
def encode58Check (n : ℕ) (input : List UInt8) : Java String := do
  let hash1 := Codec.sha256 (Codec.sha256 input)
  let inputCheck ← newByteArray (int (input.length + 4))
  let inputCheck ← arraycopy input 0 inputCheck 0 input.length
  let inputCheck ← arraycopy hash1 0 inputCheck input.length 4
  encode n inputCheck

/-- `Base58.decode58Check`, where `none` is `null`. -/
def decode58Check (n : ℕ) (input : List UInt16) : Java (Option (List UInt8)) := do
  let decodeCheck ← decode n input
  if decodeCheck.length ≤ 4 then return none
  else
    let decodeData ← newByteArray (decodeCheck.length - 4)
    let decodeData ← arraycopy decodeCheck 0 decodeData 0 decodeData.length
    let hash1 := Codec.sha256 (Codec.sha256 decodeData)
    -- The comparisons stop at the first byte that differs.
    let same ← [0, 1, 2, 3].allM fun i => do
      return (← get hash1 i) = (← get decodeCheck (decodeData.length + i))
    return if same then some decodeData else none

end Base58.Buffers

end Tronscan
