import Mathlib.Tactic.IntervalCases
import Tronscan.Theory.Base58Arrays
import Tronscan.Theory.KeccakRounds

/-!
# Keccak Blocks

What `KeccakCore` does with a block and with the last block: words are read and written
with the least significant byte first, a block is combined with the lanes in front, and
the padding completes the block in the buffer. A word that is not all there is not read,
so that a block which is no whole number of words, or more of them than there are lanes,
is an exception.

## Theorems

* `decodeLELong_eq`, `encodeLELong_eq`: Words and their bits.
* `foldlM_decodeLELong`, `state_xorWords`: A block and the lanes.
* `processBlock_total`: A block is absorbed, or an exception.
* `mapM_encodeLELong`, `padded_eq`: The digest and the padding.
-/

namespace Tronscan

namespace KeccakCore

open Java
open Lib.Keccak (word getLsbD_word blockBit stateBit masked padding)

/-- A byte of a long, at its place. -/
theorem getLsbD_byte (b : UInt8) {n j k t : ℕ} (hn : n = 8 * j) (hk : k < 8) (ht : t < 8) :
    ((b.toBitVec.setWidth 64 : BitVec 64) <<< n).getLsbD (8 * k + t) =
      (decide (j = k) && b.toBitVec.getLsbD t) := by
  have hlt : 8 * k + t < 64 := by omega
  subst hn
  simp only [BitVec.getLsbD_shiftLeft, BitVec.getLsbD_setWidth, hlt, decide_true, Bool.true_and]
  rcases Nat.lt_trichotomy j k with h | rfl | h
  · rw [decide_eq_false (by omega : ¬j = k), Bool.false_and, BitVec.getLsbD_of_ge _ _ (by omega)]
    simp
  · rw [decide_eq_false (by omega : ¬8 * j + t < 8 * j), Nat.add_sub_cancel_left,
      decide_eq_true (by omega : t < 64)]
    simp
  · rw [decide_eq_false (by omega : ¬j = k), decide_eq_true (by omega : 8 * k + t < 8 * j)]
    rfl

theorem decodeLELong_eq (buf : List UInt8) (i : ℕ) (hi : 8 * i + 8 ≤ buf.length) :
    decodeLELong buf (8 * i) = pure (word fun z => blockBit buf (64 * i + z.val)) := by
  have hget (k : ℕ) (hk : k < 8) : get buf (8 * i + k : ℕ) = pure (buf.getD (8 * i + k) 0) :=
    get_of_lt (by omega) 0
  unfold decodeLELong
  simp only [hget _ (by omega : 0 < 8), hget _ (by omega : 1 < 8), hget _ (by omega : 2 < 8),
    hget _ (by omega : 3 < 8), hget _ (by omega : 4 < 8), hget _ (by omega : 5 < 8),
    hget _ (by omega : 6 < 8), hget _ (by omega : 7 < 8), pure_bind]
  refine congrArg pure (BitVec.eq_of_getLsbD_eq fun z hz => ?_)
  rw [getLsbD_word _ hz]
  obtain ⟨k, t, hk, ht, rfl⟩ : ∃ k t, k < 8 ∧ t < 8 ∧ z = 8 * k + t :=
    ⟨z / 8, z % 8, by omega, by omega, by omega⟩
  have hbit : blockBit buf (64 * i + (8 * k + t)) = (buf.getD (8 * i + k) 0).toBitVec.getLsbD t := by
    rw [blockBit, List.getD_eq_getElem?_getD, show (64 * i + (8 * k + t)) / 8 = 8 * i + k by omega,
      show (64 * i + (8 * k + t)) % 8 = t by omega]
  have hbyte (b : UInt8) (n j : ℕ) (hn : n = 8 * j) := getLsbD_byte b hn hk ht
  have hzero := hbyte (buf.getD (8 * i + 0) 0) 0 0 rfl
  rw [BitVec.shiftLeft_zero] at hzero
  -- Only the byte with the bit has anything there.
  simp only [BitVec.getLsbD_or, hzero, hbyte _ 8 1 rfl, hbyte _ 16 2 rfl, hbyte _ 24 3 rfl,
    hbyte _ 32 4 rfl, hbyte _ 40 5 rfl, hbyte _ 48 6 rfl, hbyte _ 56 7 rfl, hbit]
  interval_cases k <;> simp

/-- The lanes that the words of a block are combined with, so many of them. -/
def xorWords (data : List UInt8) (n : ℕ) (A : Lanes) : Lanes :=
  Vector.ofFn fun k => if k.val < n then
    A.get k ^^^ word fun z => blockBit data (64 * k.val + z.val) else A.get k

theorem get_xorWords (data : List UInt8) (n : ℕ) (A : Lanes) (k : Fin 25) :
    (xorWords data n A).get k = if k.val < n then
      A.get k ^^^ word fun z => blockBit data (64 * k.val + z.val) else A.get k := by
  have h : (xorWords data n A)[k.val] = _ := Vector.getElem_ofFn k.isLt
  exact h

theorem lanes_ext {A B : Lanes} (h : ∀ k, A.get k = B.get k) : A = B :=
  Vector.ext fun i hi => h ⟨i, hi⟩

/-- A word that is not all there is not read. -/
theorem decodeLELong_of_lt (buf : List UInt8) (i : ℕ) (hi : buf.length < 8 * i + 8) :
    decodeLELong buf (8 * i) = throw .arrayIndexOutOfBounds := by
  have hget (k : ℕ) : get buf (8 * i + k : ℕ) = if 8 * i + k < buf.length then
      pure (buf.getD (8 * i + k) 0) else throw .arrayIndexOutOfBounds := by
    split
    · rename_i hk
      exact get_of_lt hk 0
    · rename_i hk
      unfold Java.get
      rw [if_pos (Int.natCast_nonneg _), Int.toNat_natCast, List.getElem?_eq_none (by omega)]
  unfold decodeLELong
  simp only [hget]
  by_cases hstart : buf.length ≤ 8 * i
  · rw [if_neg (by omega)]
    rfl
  · obtain ⟨j, hj, hlength⟩ : ∃ j, j < 8 ∧ buf.length = 8 * i + j :=
      ⟨buf.length - 8 * i, by omega, by omega⟩
    simp only [hlength, Nat.add_lt_add_iff_left]
    interval_cases j <;> rfl

/-- The words are read inside the block, one for each of the first lanes. -/
theorem foldlM_decodeLELong (data : List UInt8) (n : ℕ) (A : Lanes) :
    (List.range n).foldlM (fun (A : Lanes) i => do
      let val ← decodeLELong data (8 * i)
      if h : i < 25 then return A.set i (A[i] ^^^ val) else throw .arrayIndexOutOfBounds) A =
    if 8 * n ≤ data.length ∧ n ≤ 25 then (pure (xorWords data n A) : Java Lanes)
      else throw .arrayIndexOutOfBounds := by
  induction n with
  | zero =>
      rw [if_pos (by omega)]
      exact congrArg pure (lanes_ext fun k => (get_xorWords data 0 A k).symm)
  | succ n ih =>
      rw [List.range_succ, List.foldlM_append, ih]
      by_cases hn : 8 * n ≤ data.length ∧ n ≤ 25
      · rw [if_pos hn, pure_bind, List.foldlM_cons]
        by_cases hword : 8 * n + 8 ≤ data.length
        · rw [decodeLELong_eq data n hword, pure_bind]
          by_cases hlane : n < 25
          · rw [dif_pos hlane, if_pos (by omega)]
            simp only [pure_bind, List.foldlM_nil]
            refine congrArg pure (lanes_ext fun k => ?_)
            have hset := get_set (xorWords data n A) ⟨n, hlane⟩ k hlane
              ((xorWords data n A).get ⟨n, hlane⟩ ^^^
                word fun z => blockBit data (64 * n + z.val))
            refine hset.trans ?_
            rw [get_xorWords, get_xorWords, get_xorWords]
            by_cases hk : (⟨n, hlane⟩ : Fin 25) = k
            · subst hk
              rw [if_pos rfl, if_neg (Nat.lt_irrefl n), if_pos (Nat.lt_succ_self n)]
            · have hne : k.val ≠ n := fun h => hk (Fin.ext h.symm)
              rw [if_neg hk]
              exact if_congr (by omega) rfl rfl
          · rw [dif_neg hlane, if_neg (by omega)]
            rfl
        · rw [decodeLELong_of_lt data n (by omega), if_neg (by omega)]
          rfl
      · rw [if_neg hn, if_neg (by omega)]
        rfl

/-- There are only zeros in the lanes after the block. -/
theorem blockBit_of_le {data : List UInt8} {k : ℕ} (hk : 8 * data.length ≤ k) :
    blockBit data k = false := by
  rw [blockBit, List.getElem?_eq_none (by omega)]
  exact BitVec.getLsbD_zero

theorem state_xorWords {data : List UInt8} {n : ℕ} (hdata : data.length = 8 * n) (A : Lanes) :
    state (xorWords data n A) = fun x y =>
      state A x y ^^^ word fun z => blockBit data (64 * (5 * y.val + x.val) + z.val) := by
  funext x y
  have hword : (xorWords data n A).get (lane x y) = A.get (lane x y) ^^^
      word fun z => blockBit data (64 * (5 * y.val + x.val) + z.val) := by
    have hlane : (lane x y).val = 5 * y.val + x.val := Nat.add_comm _ _
    rw [get_xorWords, hlane]
    split
    · rfl
    · rename_i hout
      have hzero : (word fun z : Fin 64 => blockBit data (64 * (5 * y.val + x.val) + z.val)) = 0#64 := by
        refine BitVec.eq_of_getLsbD_eq fun z hz => ?_
        rw [getLsbD_word _ hz, blockBit_of_le (by omega)]
        exact BitVec.getLsbD_zero.symm
      rw [hzero, BitVec.xor_zero]
  have hstate (B : Lanes) : state B x y = B.get (lane x y) ^^^ BitVec.fill 64 (mask x y) := rfl
  rw [hstate, hstate, hword, BitVec.xor_assoc, BitVec.xor_assoc, BitVec.xor_comm (BitVec.fill _ _)]

theorem state_rounds_xorWords {data : List UInt8} {n : ℕ} (hdata : data.length = 8 * n)
    (A : Lanes) :
    state (rounds (xorWords data n A)) = Lib.Keccak.absorb (state A) data := by
  rw [state_rounds, state_xorWords hdata]
  rfl

theorem processBlock_eq (A : Lanes) {data : List UInt8} {n : ℕ} (hdata : data.length = 8 * n)
    (hn : n ≤ 25) : processBlock A data = pure (rounds (xorWords data n A)) := by
  unfold processBlock
  rw [show (data.length + 7) / 8 = n by omega, foldlM_decodeLELong, if_pos (by omega), pure_bind]

/-- A block of whole words that are no more than the lanes is absorbed by the state that
    the lanes stand for. Any other is read outside of its array, or the lanes are. -/
theorem processBlock_total (A : Lanes) (data : List UInt8) :
    Lib.Total (fun _ => processBlock A data)
      (fun A' => 8 ∣ data.length ∧ data.length ≤ 200 ∧
        state A' = Lib.Keccak.absorb (state A) data)
      (fun x => ¬(8 ∣ data.length ∧ data.length ≤ 200) ∧ x = .arrayIndexOutOfBounds) := by
  by_cases hdata : 8 ∣ data.length ∧ data.length ≤ 200
  · obtain ⟨⟨n, hn⟩, hle⟩ := hdata
    rw [processBlock_eq A hn (by omega)]
    exact Lib.Total.pure ⟨⟨n, hn⟩, hle, state_rounds_xorWords hn A⟩
  · have hthrow : processBlock A data = throw .arrayIndexOutOfBounds := by
      unfold processBlock
      rw [foldlM_decodeLELong, if_neg (by omega)]
      rfl
    rw [hthrow]
    exact Lib.Total.throw ⟨hdata, rfl⟩

/-! ## The digest -/

theorem state_doReset : state doReset = fun _ _ => 0 := by
  funext x y
  revert x y
  decide

theorem lookup_mask (x y : Fin 5) :
    [(1, ()), (2, ()), (8, ()), (12, ()), (17, ()), (20, ())].lookup (lane x y) =
      if mask x y then some () else none := by
  revert x y
  decide

theorem get_complement (A : Lanes) (x y : Fin 5) :
    (complement A).get (lane x y) = state A x y := by
  have h := get_assign Function.injective_id (fun (_ : Unit) a => ~~~a)
    [(1, ()), (2, ()), (8, ()), (12, ()), (17, ()), (20, ())] A (by decide) (lane x y)
  rw [lookup_mask] at h
  refine h.trans ?_
  have hstate : state A x y = A.get (lane x y) ^^^ BitVec.fill 64 (mask x y) := rfl
  rw [hstate]
  cases mask x y
  · exact (BitVec.xor_zero).symm
  · rw [BitVec.fill_true, BitVec.xor_allOnes]
    rfl

/-- The bytes of a lane are eight of those that are squeezed. -/
theorem encodeLELong_eq (A : Lanes) {i : ℕ} (hi : i < 25) :
    encodeLELong (complement A)[i] = (List.range 8).map fun j =>
      .ofBitVec (word fun t => stateBit (state A) (8 * (8 * i + j) + t.val)) := by
  unfold encodeLELong
  refine List.map_congr_left fun j hj => congrArg UInt8.ofBitVec ?_
  rw [List.mem_range] at hj
  refine BitVec.eq_of_getLsbD_eq fun t ht => ?_
  have hlane : lane (Fin.ofNat 5 i) (Fin.ofNat 5 (i / 5)) = ⟨i, hi⟩ := by
    apply Fin.ext
    simp only [lane, Fin.val_ofNat]
    omega
  have hget := get_complement A (Fin.ofNat 5 i) (Fin.ofNat 5 (i / 5))
  rw [hlane] at hget
  rw [getLsbD_word _ ht, stateBit, show (8 * (8 * i + j) + t) / 64 = i by omega,
    show (8 * (8 * i + j) + t) % 64 = 8 * j + t by omega, ← hget, BitVec.getLsbD_setWidth,
    BitVec.getLsbD_ushiftRight, decide_eq_true ht, Bool.true_and]
  rfl

/-- What is written once the lanes are no longer complemented. -/
theorem mapM_encodeLELong (A : Lanes) {n : ℕ} (hn : n ≤ 25) :
    ∃ words, (List.range n).mapM (fun i =>
      if h : i < 25 then return encodeLELong (complement A)[i] else throw .arrayIndexOutOfBounds) =
        (pure words : Java _) ∧
      words.flatten = Lib.Keccak.squeeze (state A) (8 * n) := by
  induction n with
  | zero => exact ⟨[], rfl, rfl⟩
  | succ n ih =>
      obtain ⟨words, hwords, hflatten⟩ := ih (by omega)
      have hlt : n < 25 := by omega
      refine ⟨words ++ [encodeLELong (complement A)[n]], ?_, ?_⟩
      · rw [List.range_succ, List.mapM_append, hwords, pure_bind, List.mapM_cons, dif_pos hlt]
        rfl
      · rw [List.flatten_append, hflatten, List.flatten_singleton, encodeLELong_eq A hlt]
        unfold Lib.Keccak.squeeze
        rw [Nat.mul_succ, List.range_add, List.map_append, List.map_map]
        rfl

theorem foldlM_set_zero (front rest : List UInt8) {m : ℕ} (hm : m ≤ rest.length) :
    (List.range m).foldlM (fun buf (i : ℕ) => set buf ((front.length : Int) + i) 0)
      (front ++ rest) = (pure (front ++ (List.replicate m 0 ++ rest.drop m)) : Java _) := by
  induction m with
  | zero => rfl
  | succ m ih =>
      have hdrop : rest.drop m = rest[m] :: rest.drop (m + 1) := List.drop_eq_getElem_cons hm
      have hplace : ((front.length : Int) + m) = (front ++ List.replicate m (0 : UInt8)).length := by
        simp
      rw [List.range_succ, List.foldlM_append, ih (by omega), pure_bind, List.foldlM_cons, hdrop,
        hplace, ← List.append_assoc, set_append, List.replicate_succ']
      simp

/-- The padding completes the block in the buffer. -/
theorem padded_eq {buf : List UInt8} {ptr : ℕ} (hptr : ptr < buf.length) :
    padded buf ptr = pure (buf.take ptr ++ padding (buf.length - ptr)) := by
  obtain ⟨front, x, rest, rfl, rfl⟩ : ∃ front x rest, buf = front ++ x :: rest ∧
      ptr = front.length :=
    ⟨buf.take ptr, buf[ptr], buf.drop (ptr + 1), by simp, by simp; omega⟩
  have hlength : (front ++ x :: rest).length - front.length = rest.length + 1 := by
    simp
  rw [List.take_left' rfl, hlength]
  unfold padded
  rcases List.eq_nil_or_concat' rest with rfl | ⟨rest, y, rfl⟩
  · rw [if_pos (by simp), set_append]
    rfl
  · have hzeros := foldlM_set_zero (front ++ [0x01]) (rest ++ [y]) (m := rest.length) (by simp)
    have hcount : (((front ++ 0x01 :: (rest ++ [y])).length : Int) - 1 - (front.length + 1)).toNat =
        rest.length := by
      simp
      omega
    have hlast : ((front ++ 0x01 :: (List.replicate rest.length (0 : UInt8) ++ [y])).length : Int) -
        1 = (front ++ 0x01 :: List.replicate rest.length (0 : UInt8)).length := by
      simp
      omega
    have hset := set_append (front ++ 0x01 :: List.replicate rest.length (0 : UInt8)) y 0x80 []
    simp only [List.length_append, List.length_singleton, Nat.cast_add, Nat.cast_one,
      List.append_assoc, List.singleton_append, List.drop_left] at hzeros
    rw [if_neg (by simp; omega), set_append, pure_bind, hcount, hzeros, pure_bind, hlast]
    simp only [List.append_assoc, List.cons_append] at hset
    rw [hset]
    simp [padding]

end KeccakCore

end Tronscan
