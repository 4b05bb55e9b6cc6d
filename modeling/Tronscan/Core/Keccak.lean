import Mathlib.Data.List.Nodup
import Tronscan.Core.Base58Buffers

/-!
# Keccak

`DigestEngine`, `KeccakCore` and its two subclasses, with the buffer that input
waits in until there is a block of it, and `Hash.sha3` on top of them.

`KeccakCore` does two rounds in one go and moves no lane in the first of them: a
lane stays where `rho` left it, and the second round finds the lanes in the places
of `moved`. So the second half of the loop is the first with other indices, and
`round` is either of them. After both the lanes are put back. Six lanes are kept
complemented, for which `chi` has a form of its own in each plane.

## Main definitions

* `KeccakCore.round`, `KeccakCore.processBlock`: The permutation and its input.
* `DigestEngine.update`, `DigestEngine.digest`: The buffer.
* `Command`, `DigestEngine.execute`, `DigestEngine.run`: The calls on an object.
* `Hash.sha3`, `Hash.sha3OfTwo`, `Hash.sha3Chunk`: The digests the program takes.
-/

namespace Tronscan

open Java Lib

namespace KeccakCore

/-- The lanes `A`. -/
abbrev Lanes := Vector (BitVec 64) 25

/-- `RC`: the round constants. -/
def RC : Vector (BitVec 64) 24 := #v[
  0x0000000000000001, 0x0000000000008082,
  0x800000000000808A, 0x8000000080008000,
  0x000000000000808B, 0x0000000080000001,
  0x8000000080008081, 0x8000000000008009,
  0x000000000000008A, 0x0000000000000088,
  0x0000000080008009, 0x000000008000000A,
  0x000000008000808B, 0x800000000000008B,
  0x8000000000008089, 0x8000000000008003,
  0x8000000000008002, 0x8000000000000080,
  0x000000000000800A, 0x800000008000000A,
  0x8000000080008081, 0x8000000000008080,
  0x0000000080000001, 0x8000000080008008]

instance neZeroFive : NeZero 5 := ⟨by decide⟩

instance neZeroTwentyFive : NeZero 25 := ⟨by decide⟩

/-- `encodeLELong`: eight bytes, the least significant first. -/
def encodeLELong (val : BitVec 64) : List UInt8 :=
  (List.range 8).map fun i => .ofBitVec ((val >>> (8 * i)).setWidth 8)

/-- `decodeLELong`: the same read back from an offset, which throws when the bytes
    are not there. -/
def decodeLELong (buf : List UInt8) (off : Nat) : Java (BitVec 64) := do
  let b0 ← get buf (off + 0 : Nat)
  let b1 ← get buf (off + 1 : Nat)
  let b2 ← get buf (off + 2 : Nat)
  let b3 ← get buf (off + 3 : Nat)
  let b4 ← get buf (off + 4 : Nat)
  let b5 ← get buf (off + 5 : Nat)
  let b6 ← get buf (off + 6 : Nat)
  let b7 ← get buf (off + 7 : Nat)
  let long (b : UInt8) : BitVec 64 := b.toBitVec.setWidth 64
  return long b0 ||| long b1 <<< 8 ||| long b2 <<< 16 ||| long b3 <<< 24 ||| long b4 <<< 32 |||
    long b5 <<< 40 ||| long b6 <<< 48 ||| long b7 <<< 56

/-- `(x << n) | (x >>> (64 - n))` -/
def rotate (x : BitVec 64) (n : Nat) : BitVec 64 := x <<< n ||| x >>> (64 - n)

/-- One of `t0` to `t4`, from the column that is rotated and the one that is not. -/
def thetaWord (p q : Fin 5 → BitVec 64) : BitVec 64 :=
  let tt0 := p 0 ^^^ p 1
  let tt1 := p 2 ^^^ p 3
  let tt0 := tt0 ^^^ (p 4 ^^^ tt1)
  let tt0 := rotate tt0 1
  let tt2 := q 0 ^^^ q 1
  let tt3 := q 2 ^^^ q 3
  let tt0 := tt0 ^^^ q 4
  let tt2 := tt2 ^^^ tt3
  tt0 ^^^ tt2

/-- Assignments `A[k] = f(A[k])` one after the other, to lanes where `place` has them. -/
def assign {α : Type} (place : Fin 25 → Fin 25) (f : α → BitVec 64 → BitVec 64)
    (lanes : List (Fin 25 × α)) (A : Lanes) : Lanes :=
  lanes.foldl (fun A l => A.set (place l.1) (f l.2 (A.get (place l.1)))) A

/-- What the lanes of each column are combined with in `theta`. -/
def columns {α : Type} (t : Fin 5 → α) : List (Fin 25 × α) := [
  (0, t 0), (5, t 0), (10, t 0), (15, t 0), (20, t 0),
  (1, t 1), (6, t 1), (11, t 1), (16, t 1), (21, t 1),
  (2, t 2), (7, t 2), (12, t 2), (17, t 2), (22, t 2),
  (3, t 3), (8, t 3), (13, t 3), (18, t 3), (23, t 3),
  (4, t 4), (9, t 4), (14, t 4), (19, t 4), (24, t 4)]

/-- How far `rho` rotates a lane. -/
def rotations : List (Fin 25 × Nat) := [
  (5, 36), (10, 3), (15, 41), (20, 18),
  (1, 1), (6, 44), (11, 10), (16, 45), (21, 2),
  (2, 62), (7, 6), (12, 43), (17, 15), (22, 61),
  (3, 28), (8, 55), (13, 25), (18, 21), (23, 56),
  (4, 27), (9, 20), (14, 39), (19, 8), (24, 14)]

/-- The lane in a column and a plane. -/
def lane (x y : Fin 5) : Fin 25 := ⟨x.val + 5 * y.val, by omega⟩

section Round

variable (place : Fin 25 → Fin 25)

/-- The first step of a round: each lane with the word of its column. -/
def theta (A : Lanes) : Lanes :=
  let column (x y : Fin 5) : BitVec 64 := A.get (place (lane x y))
  let t (x : Fin 5) : BitVec 64 := thetaWord (column (x + 1)) (column (x - 1))
  assign place (fun t a => a ^^^ t) (columns t) A

/-- The second step: each lane rotated by its own distance. -/
def rho (A : Lanes) : Lanes := assign place (fun n a => rotate a n) rotations A

/-- A plane of `chi`: its lanes, and what they become. -/
def chiPlane (c : BitVec 64 → BitVec 64 → BitVec 64 → BitVec 64 → BitVec 64 → Vector (BitVec 64) 5)
    (k0 k1 k2 k3 k4 : Fin 25) (A : Lanes) : Lanes :=
  let p := c (A.get (place k0)) (A.get (place k1)) (A.get (place k2)) (A.get (place k3))
    (A.get (place k4))
  assign place (fun c _ => c)
    [(k0, p.get 0), (k1, p.get 1), (k2, p.get 2), (k3, p.get 3), (k4, p.get 4)] A

/-- The first plane of chi, on complemented lanes. -/
def chi0 (a0 a1 a2 a3 a4 : BitVec 64) : Vector (BitVec 64) 5 :=
  let bnn := ~~~a2
  #v[a0 ^^^ (a1 ||| a2), a1 ^^^ (bnn ||| a3), a2 ^^^ (a3 &&& a4), a3 ^^^ (a4 ||| a0),
    a4 ^^^ (a0 &&& a1)]

/-- The second plane. -/
def chi1 (a0 a1 a2 a3 a4 : BitVec 64) : Vector (BitVec 64) 5 :=
  let bnn := ~~~a4
  #v[a0 ^^^ (a1 ||| a2), a1 ^^^ (a2 &&& a3), a2 ^^^ (a3 ||| bnn), a3 ^^^ (a4 ||| a0),
    a4 ^^^ (a0 &&& a1)]

/-- The third plane. -/
def chi2 (a0 a1 a2 a3 a4 : BitVec 64) : Vector (BitVec 64) 5 :=
  let bnn := ~~~a3
  #v[a0 ^^^ (a1 ||| a2), a1 ^^^ (a2 &&& a3), a2 ^^^ (bnn &&& a4), bnn ^^^ (a4 ||| a0),
    a4 ^^^ (a0 &&& a1)]

/-- The fourth plane. -/
def chi3 (a0 a1 a2 a3 a4 : BitVec 64) : Vector (BitVec 64) 5 :=
  let bnn := ~~~a3
  #v[a0 ^^^ (a1 &&& a2), a1 ^^^ (a2 ||| a3), a2 ^^^ (bnn ||| a4), bnn ^^^ (a4 &&& a0),
    a4 ^^^ (a0 ||| a1)]

/-- The fifth plane. -/
def chi4 (a0 a1 a2 a3 a4 : BitVec 64) : Vector (BitVec 64) 5 :=
  let bnn := ~~~a1
  #v[a0 ^^^ (bnn &&& a2), bnn ^^^ (a2 ||| a3), a2 ^^^ (a3 &&& a4), a3 ^^^ (a4 ||| a0),
    a4 ^^^ (a0 &&& a1)]

/-- The five planes of chi one after another, where the lanes lie after a round. -/
def chi (A : Lanes) : Lanes :=
  let A := chiPlane place chi0 0 6 12 18 24 A
  let A := chiPlane place chi1 3 9 10 16 22 A
  let A := chiPlane place chi2 1 7 13 19 20 A
  let A := chiPlane place chi3 4 5 11 17 23 A
  chiPlane place chi4 2 8 14 15 21 A

/-- Half of the loop's body, with the lanes where `place` has them. -/
def round (c : BitVec 64) (A : Lanes) : Lanes :=
  let A := theta place A
  let A := rho place A
  let A := chi place A
  A.set 0 (A[0] ^^^ c)

end Round

/-- Where the second half of the body has the lanes. -/
def moved (k : Fin 25) : Fin 25 :=
  #v[0, 6, 12, 18, 24,
    3, 9, 10, 16, 22,
    1, 7, 13, 19, 20,
    4, 5, 11, 17, 23,
    2, 8, 14, 15, 21][k]

/-- Assignments `A[k] = A[l]` one after the other. -/
def move (lanes : List (Fin 25 × Fin 25)) (A : Lanes) : Lanes :=
  lanes.foldl (fun A l => A.set l.1 A[l.2]) A

/-- The assignments at the end of the body, which put the lanes back. -/
def restore (A : Lanes) : Lanes :=
  let t := A[5]
  let A := move [(5, 18), (18, 11), (11, 10), (10, 6), (6, 22), (22, 20), (20, 12), (12, 19),
    (19, 15), (15, 24), (24, 8)] A
  let A := A.set 8 t
  let t := A[1]
  let A := move [(1, 9), (9, 14), (14, 2), (2, 13), (13, 23), (23, 4), (4, 21), (21, 16),
    (16, 3), (3, 17), (17, 7)] A
  A.set 7 t

/-- The body of the loop over `j`. -/
def tworounds (j : Fin 12) (A : Lanes) : Lanes :=
  let A := round id RC[2 * j.val] A
  let A := round moved RC[2 * j.val + 1] A
  restore A

/-- The loop over `j`. -/
def rounds (A : Lanes) : Lanes := (List.finRange 12).foldl (fun A j => tworounds j A) A

/-- `processBlock`: the lanes of a block, then the rounds. A block of more than 25
    lanes runs out of the array. -/
def processBlock (A : Lanes) (data : List UInt8) : Java Lanes := do
  let A ← (List.range ((data.length + 7) / 8)).foldlM (fun (A : Lanes) i => do
    let val ← decodeLELong data (8 * i)
    if h : i < 25 then return A.set i (A[i] ^^^ val) else throw .arrayIndexOutOfBounds) A
  return rounds A

/-- The six lanes that are kept complemented. -/
def complement (A : Lanes) : Lanes :=
  [1, 2, 8, 12, 17, 20].foldl (fun A (k : Fin 25) => A.set k (~~~A[k])) A

/-- `doReset`: all lanes zero, but for the six that are kept complemented. -/
def doReset : Lanes :=
  let A := Vector.replicate 25 0
  [1, 2, 8, 12, 17, 20].foldl (fun A (k : Fin 25) => A.set k 0xFFFFFFFFFFFFFFFF) A

end KeccakCore

/-- What is in the buffer of a `DigestEngine`, and the fields of its subclass. -/
structure DigestEngine (σ : Type) where
  core : σ
  inputBuf : List UInt8
  inputLen : Int
  blockCount : Int64

/-- What a subclass of `DigestEngine` is. -/
class Engine (σ : Type) where
  engineGetDigestLength : Nat
  getBlockLength : Nat
  engineReset : σ → σ
  processBlock : σ → List UInt8 → Java σ
  /-- The engine afterwards, and the buffer that the digest was written to. -/
  doPadding : DigestEngine σ → List UInt8 → Int → Java (DigestEngine σ × List UInt8)

namespace DigestEngine

variable {σ : Type} [Engine σ]

/-- The block in the buffer is processed when it is full. -/
def processFull (e : DigestEngine σ) : Java (DigestEngine σ) := do
  if e.inputLen = Engine.getBlockLength σ then
    let core ← Engine.processBlock e.core e.inputBuf
    return { e with core := core, blockCount := e.blockCount + 1, inputLen := 0 }
  else return e

/-- `update(byte)` -/
def updateByte (e : DigestEngine σ) (input : UInt8) : Java (DigestEngine σ) := do
  let inputBuf ← set e.inputBuf e.inputLen input
  processFull { e with inputBuf := inputBuf, inputLen := e.inputLen + 1 }

/-- What is left of the input of `update`. -/
structure Update (σ : Type) where
  engine : DigestEngine σ
  offset : Int
  len : Int

/-- `update(byte[], int, int)` -/
def update (n : ℕ) (e : DigestEngine σ) (input : List UInt8) (offset len : Int) :
    Java (DigestEngine σ) := do
  let s ← whileLoop (fun s : Update σ => return decide (0 < s.len)) (fun s => do
      let copyLen : Int := Engine.getBlockLength σ - s.engine.inputLen
      let copyLen := if copyLen > s.len then s.len else copyLen
      let inputBuf ← arraycopy input s.offset s.engine.inputBuf s.engine.inputLen copyLen
      let engine ← processFull
        { s.engine with inputBuf := inputBuf, inputLen := s.engine.inputLen + copyLen }
      return { engine := engine, offset := s.offset + copyLen, len := s.len - copyLen })
    n { engine := e, offset := offset, len := len }
  return s.engine

/-- `reset`: forget the input, and start the algorithm anew. -/
def reset (e : DigestEngine σ) : DigestEngine σ :=
  { e with core := Engine.engineReset e.core, inputLen := 0, blockCount := 0 }

/-- `digest(byte[], int, int)`: the buffer afterwards, and how many bytes were written. -/
def digestInto (e : DigestEngine σ) (buf : List UInt8) (offset len : Int) :
    Java (DigestEngine σ × List UInt8 × Int) := do
  if len ≥ Engine.engineGetDigestLength σ then
    let (e, buf) ← Engine.doPadding e buf offset
    return (e.reset, buf, Engine.engineGetDigestLength σ)
  else
    let outputBuf ← newByteArray (Engine.engineGetDigestLength σ)
    let (e, outputBuf) ← Engine.doPadding e outputBuf 0
    let buf ← arraycopy outputBuf 0 buf offset len
    return (e.reset, buf, len)

/-- `digest()` -/
def digest (e : DigestEngine σ) : Java (DigestEngine σ × List UInt8) := do
  let result ← newByteArray (Engine.engineGetDigestLength σ)
  let (e, result, _) ← e.digestInto result 0 (Engine.engineGetDigestLength σ)
  return (e, result)

end DigestEngine

/-- The subclasses of `KeccakCore`. -/
inductive KeccakAlgorithm where
  | keccak256
  | keccak512

namespace KeccakAlgorithm

/-- `engineGetDigestLength`, in bytes. -/
def engineGetDigestLength : KeccakAlgorithm → Nat
  | keccak256 => 32
  | keccak512 => 64

/-- `getBlockLength`, in bytes. -/
def getBlockLength (algorithm : KeccakAlgorithm) : Nat :=
  200 - 2 * algorithm.engineGetDigestLength

end KeccakAlgorithm

/-- The fields of a `KeccakCore`, where the scratch of `doPadding` is left out. -/
structure KeccakCore (algorithm : KeccakAlgorithm) where
  A : KeccakCore.Lanes

namespace KeccakCore

variable {algorithm : KeccakAlgorithm}

/-- The last block in the buffer, with its padding. -/
def padded (buf : List UInt8) (ptr : Int) : Java (List UInt8) := do
  if ptr + 1 = buf.length then set buf ptr 0x81
  else
    let buf ← set buf ptr 0x01
    let buf ← (List.range (buf.length - 1 - (ptr + 1)).toNat).foldlM
      (fun buf (i : ℕ) => set buf (ptr + 1 + i) 0) buf
    set buf (buf.length - 1) 0x80

/-- `doPadding`: the last block, then the digest from the lanes. -/
def doPadding (e : DigestEngine (KeccakCore algorithm)) (out : List UInt8) (off : Int) :
    Java (DigestEngine (KeccakCore algorithm) × List UInt8) := do
  let buf ← padded e.inputBuf e.inputLen
  let A ← KeccakCore.processBlock e.core.A buf
  let A := complement A
  let dlen := algorithm.engineGetDigestLength
  let tmpOut ← (List.range ((dlen + 7) / 8)).mapM fun i =>
    if h : i < 25 then return encodeLELong A[i] else throw .arrayIndexOutOfBounds
  let out ← arraycopy tmpOut.flatten 0 out off dlen
  return ({ e with core := ⟨A⟩, inputBuf := buf }, out)

instance : Engine (KeccakCore algorithm) where
  engineGetDigestLength := algorithm.engineGetDigestLength
  getBlockLength := algorithm.getBlockLength
  engineReset _ := ⟨doReset⟩
  processBlock core data := do
    let A ← processBlock core.A data
    return ⟨A⟩
  doPadding := doPadding

/-- `new Keccak256()` and `new Keccak512()` -/
def new (algorithm : KeccakAlgorithm) : Java (DigestEngine (KeccakCore algorithm)) := do
  let inputBuf ← newByteArray algorithm.getBlockLength
  return { core := ⟨doReset⟩, inputBuf := inputBuf, inputLen := 0, blockCount := 0 }

end KeccakCore

/-- The calls on an engine. -/
inductive DigestEngine.Command where
  | updateByte (input : UInt8)
  | update (input : List UInt8) (offset len : Int)
  | digest
  | digestInto (buf : List UInt8) (offset len : Int)
  | reset

namespace DigestEngine

variable {σ : Type} [Engine σ]

/-- What a call returns: a digest, or the buffer it is in and its length. -/
inductive Answer where
  | unit
  | digest (result : List UInt8)
  | written (buf : List UInt8) (count : Int)
  deriving DecidableEq

/-- Carry out one call, and what it answers. -/
def execute (n : ℕ) (e : DigestEngine σ) : Command → Java (DigestEngine σ × Answer)
  | .updateByte input => do return (← e.updateByte input, .unit)
  | .update input offset len => do return (← e.update n input offset len, .unit)
  | .digest => do
      let (e, result) ← e.digest
      return (e, .digest result)
  | .digestInto buf offset len => do
      let (e, buf, count) ← e.digestInto buf offset len
      return (e, .written buf count)
  | .reset => return (e.reset, .unit)

/-- The calls one after the other, and what they return. -/
def run (n : ℕ) (e : DigestEngine σ) : List Command → Java (List Answer)
  | [] => return []
  | c :: cs => do
      let (e, answer) ← e.execute n c
      let answers ← run n e cs
      return answer :: answers

end DigestEngine

namespace Hash

/-- `sha3(byte[])` -/
def sha3 (n : ℕ) (input : List UInt8) : Java (List UInt8) := do
  let digest ← KeccakCore.new .keccak256
  let digest ← digest.update n input 0 input.length
  let (_, result) ← digest.digest
  return result

/-- `sha3(byte[], byte[])` -/
def sha3OfTwo (n : ℕ) (input1 input2 : List UInt8) : Java (List UInt8) := do
  let digest ← KeccakCore.new .keccak256
  let digest ← digest.update n input1 0 input1.length
  let digest ← digest.update n input2 0 input2.length
  let (_, result) ← digest.digest
  return result

/-- `sha3(byte[], int, int)` -/
def sha3Chunk (n : ℕ) (input : List UInt8) (start length : Int) : Java (List UInt8) := do
  let digest ← KeccakCore.new .keccak256
  let digest ← digest.update n input start length
  let (_, result) ← digest.digest
  return result

/-- `sha512(byte[])` -/
def sha512 (n : ℕ) (input : List UInt8) : Java (List UInt8) := do
  let digest ← KeccakCore.new .keccak512
  let digest ← digest.update n input 0 input.length
  let (_, result) ← digest.digest
  return result

end Hash

end Tronscan
