import Tronscan.Core.Base58Buffers
import Mathlib.Data.List.Basic

/-!
# Inside the Arrays

Each piece of the Base58 code over arrays does what its counterpart on lists does,
and accesses no array outside. A piece is described by how it splits its arrays:
what is done, what is left, and what is between the two.

## Theorems

* `get_append`, `set_append`: The place between two parts of an array.
* `divmod_total`: A division pass is `divmodFrom`.
* `skip_total`: Skipping goes as far as `takeWhile`.
* `pad_total`: What `pad` writes.
* `convertStep_total`: A round of a conversion.
* `convertLoop_total`: A conversion is a loop on lists, if there is always room.
-/

namespace Tronscan

namespace Java

variable {α : Type}

theorem get_append (done : List α) (x : α) (rest : List α) :
    get (done ++ x :: rest) done.length = pure x := by
  unfold get
  rw [if_pos (Int.natCast_nonneg _), Int.toNat_natCast, List.getElem?_append_right (Nat.le_refl _),
    Nat.sub_self, List.getElem?_cons_zero]

theorem set_append (done : List α) (x y : α) (rest : List α) :
    set (done ++ x :: rest) done.length y = pure (done ++ y :: rest) := by
  unfold set
  rw [if_pos ⟨Int.natCast_nonneg _, by simp⟩, Int.toNat_natCast, List.set_append_right _ _
    (Nat.le_refl _), Nat.sub_self, List.set_cons_zero]

theorem get_of_lt {a : List α} {i : ℕ} (hi : i < a.length) (x : α) :
    get a i = pure (a.getD i x) := by
  unfold get
  rw [if_pos (Int.natCast_nonneg _), Int.toNat_natCast, List.getD_eq_getElem?_getD,
    List.getElem?_eq_getElem hi]
  rfl

/-- The last of the places that are free. -/
theorem set_last (k : ℕ) (x y : α) (w : List α) :
    set (List.replicate (k + 1) x ++ w) (((k + 1 : ℕ) : Int) - 1) y =
      pure (List.replicate k x ++ y :: w) := by
  have hindex : ((k + 1 : ℕ) : Int) - 1 = (List.replicate k x).length := by
    rw [List.length_replicate]
    omega
  rw [List.replicate_succ', List.append_assoc, List.singleton_append, hindex, set_append]

theorem newByteArray_natCast (n : ℕ) : newByteArray n = pure (List.replicate n 0) := by
  unfold newByteArray
  rw [if_neg (by omega), Int.toNat_natCast]

theorem int_of_lt {n : Int} (hlow : -2 ^ 31 ≤ n) (hhigh : n < 2 ^ 31) : int n = n :=
  Int.bmod_eq_of_le (by omega) (by omega)

/-- Part of an array takes the place of part of another. -/
theorem arraycopy_append {source dest : List α} (before piece after front middle back : List α)
    (hsource : source = before ++ piece ++ after) (hdest : dest = front ++ middle ++ back)
    (hlength : middle.length = piece.length) :
    arraycopy source before.length dest front.length piece.length =
      pure (front ++ piece ++ back) := by
  subst hsource hdest
  have htotal : ((front.length : Int) + piece.length).toNat = (front ++ middle).length := by
    rw [List.length_append, hlength]
    omega
  rw [arraycopy, if_neg (by simp only [List.length_append]; omega), htotal, Int.toNat_natCast,
    Int.toNat_natCast, Int.toNat_natCast, List.drop_left, List.append_assoc front middle back,
    List.take_left, List.append_assoc before piece after, List.drop_left, List.take_left]

theorem byte_natCast (n : ℕ) : byte n = UInt8.ofNat n := by
  unfold byte
  rw [← UInt8.toNat_inj, UInt8.toNat_ofNat', UInt8.toNat_ofNat']
  omega

theorem signed_eq_zero_iff {b : UInt8} : signed b = 0 ↔ b = 0 := by
  have hb := b.toNat_lt
  unfold signed
  constructor
  · intro h
    rw [Int.bmod_def] at h
    have hzero : b.toNat = 0 := by split at h <;> omega
    exact UInt8.toNat_inj.mp hzero
  · intro h
    rw [h]
    decide

end Java

namespace Base58.Buffers

open Lib Java

variable {E : JavaException → Prop}

/-- The rest of an array, copied. -/
theorem copyOfRange_drop {a : List UInt8} (ha : a.length < 2 ^ 31) {i : ℕ} (hi : i ≤ a.length) :
    copyOfRange a i a.length = pure (a.drop i) := by
  have hlength : int ((a.length : Int) - i) = (a.length - i : ℕ) := by
    rw [int_of_lt (by omega) (by omega)]
    omega
  unfold copyOfRange
  rw [hlength, newByteArray_natCast, pure_bind, arraycopy, if_neg (by simp; omega)]
  simp only [List.length_replicate, Int.toNat_natCast, Int.toNat_zero, List.take_zero, zero_add,
    List.drop_replicate, Nat.sub_self, List.replicate_zero, List.append_nil, List.nil_append]
  rw [List.take_of_length_le (by rw [List.length_drop])]

/-- A division pass from the end of `done` on. -/
theorem divmod_total (base divisor : ℕ) (done left : List UInt8) :
    Total (fun n => divmod base divisor n (done ++ left) done.length)
      (fun result => result = (done ++ (divmodFrom base divisor 0 left).1,
        UInt8.ofNat (divmodFrom base divisor 0 left).2)) E := by
  -- What is to come is the same at each digit.
  let I : Division → Prop := fun s => ∃ (done' left' : List UInt8) (r : ℕ),
    s = { number := done' ++ left', remainder := r, i := done'.length } ∧
      done' ++ (divmodFrom base divisor r left').1 = done ++ (divmodFrom base divisor 0 left).1 ∧
      (divmodFrom base divisor r left').2 = (divmodFrom base divisor 0 left).2
  unfold divmod
  refine Total.bind (Total.whileLoop I (fun s => (s.number.length - s.i).toNat) _ (fun _ _ => rfl)
    ?_ ⟨done, left, 0, rfl, rfl, rfl⟩) ?_
  · rintro _ ⟨done', left', r, rfl, hnumber, hremainder⟩ hleft
    rcases left' with _ | ⟨d, ds⟩
    · simp at hleft
    have htemp : (r : Int) * base + d.toNat = (r * base + d.toNat : ℕ) := by push_cast; rfl
    simp only [get_append, set_append, pure_bind, htemp, ← Int.ofNat_tdiv, ← Int.ofNat_tmod,
      byte_natCast]
    refine Total.pure ⟨⟨done' ++ [UInt8.ofNat ((r * base + d.toNat) / divisor)], ds,
      (r * base + d.toNat) % divisor, by simp, ?_, ?_⟩, ?_⟩
    · rw [← hnumber]
      simp only [divmodFrom, List.append_assoc, List.singleton_append]
    · rw [← hremainder]
      rfl
    · simp only [List.length_append, List.length_cons]
      omega
  · rintro _ ⟨⟨done', left', r, rfl, hnumber, hremainder⟩, hleft⟩
    rcases left' with _ | ⟨d, ds⟩
    · refine Total.pure ?_
      rw [← hnumber, ← hremainder]
      simp [divmodFrom, byte_natCast]
    · simp at hleft

/-- Skipping goes over the elements that are equal. -/
theorem skip_total (x : Int) (done rest : List UInt8) :
    Total (fun n => skip (done ++ rest) x n done.length)
      (fun j => j = (done.length + (rest.takeWhile fun b => signed b = x).length : ℕ)) E := by
  let I : Int → Prop := fun j => ∃ done' rest' : List UInt8, done ++ rest = done' ++ rest' ∧
    j = done'.length ∧ done'.length + (rest'.takeWhile fun b => signed b = x).length =
      done.length + (rest.takeWhile fun b => signed b = x).length
  unfold skip
  refine (Total.whileLoop I (fun j => ((done ++ rest).length - j).toNat)
    (fun j => decide (j < (done ++ rest).length) &&
      decide (signed ((done ++ rest).getD j.toNat 0) = x))
    ?_ ?_ ⟨done, rest, rfl, rfl, rfl⟩).mono ?_ fun e he => he
  · rintro _ ⟨done', rest', hsplit, rfl, -⟩
    rw [hsplit]
    rcases rest' with _ | ⟨b, bs⟩
    · simp
    · rw [get_append]
      simp
  · rintro _ ⟨done', rest', hsplit, rfl, hlength⟩ hnext
    rw [hsplit] at hnext ⊢
    rcases rest' with _ | ⟨b, bs⟩
    · simp at hnext
    have hb : signed b = x := by simpa using hnext
    refine Total.pure ⟨⟨done' ++ [b], bs, by rw [hsplit]; simp, by simp, ?_⟩, ?_⟩
    · rw [← hlength, List.takeWhile_cons_of_pos (by simp [hb])]
      simp only [List.length_append, List.length_cons, List.length_nil]
      omega
    · simp only [List.length_append, List.length_cons]
      omega
  · rintro _ ⟨⟨done', rest', hsplit, rfl, hlength⟩, hstop⟩
    rw [hsplit] at hstop
    rcases rest' with _ | ⟨b, bs⟩
    · rw [← hlength]
      rfl
    · -- The next element is another one.
      have hb : ¬signed b = x := by simpa using hstop
      rw [← hlength, List.takeWhile_cons_of_neg (by simp [hb])]
      rfl

theorem get_alphabet_zero : get alphabet 0 = pure 49 := rfl

/-- What is padded is written in front, where there is room for it. -/
theorem pad_total (front rest : List UInt8) {z : ℕ} (hz : z ≤ front.length) :
    Total (fun n => pad n z (front ++ rest) front.length)
      (fun s => ∃ front' : List UInt8, front'.length + z = front.length ∧
        s.temp = front' ++ (List.replicate z 49 ++ rest) ∧ s.j = front'.length) E := by
  let I : Padding → Prop := fun s => ∃ (front' : List UInt8) (left done : ℕ),
    left + done = z ∧ front'.length + done = front.length ∧
      s = { zeroCount := left, temp := front' ++ (List.replicate done 49 ++ rest)
            j := front'.length }
  unfold pad
  refine (Total.whileLoop I (fun s => s.zeroCount.toNat) _ (fun _ _ => rfl) ?_
    ⟨front, z, 0, rfl, rfl, rfl⟩).mono ?_ fun e he => he
  · rintro _ ⟨front', left, done, hleft, hfront, rfl⟩ hnext
    have hpos : 0 < left := by
      simp at hnext
      omega
    rcases List.eq_nil_or_concat' front' with rfl | ⟨front', b, rfl⟩
    · rw [List.length_nil] at hfront
      omega
    have hj : ((front' ++ [b]).length : Int) - 1 = front'.length := by simp
    have hone : byte ((49 : UInt16).toNat : Int) = 49 := by decide
    simp only [get_alphabet_zero, pure_bind, hj, hone, List.append_assoc, List.singleton_append,
      set_append]
    refine Total.pure ⟨⟨front', left - 1, done + 1, by omega, ?_, ?_⟩, ?_⟩
    · rw [← hfront]
      simp
      omega
    · rw [List.replicate_succ]
      congr 1
      omega
    · show ((left : Int) - 1).toNat < (left : Int).toNat
      omega
  · rintro _ ⟨⟨front', left, done, hleft, hfront, rfl⟩, hstop⟩
    have hzero : left = 0 := by
      simp at hstop
      omega
    exact ⟨front', by omega, by rw [show done = z by omega], rfl⟩

/-! ## A conversion -/

section Convert

variable (base divisor : ℕ) (divide : ℕ → List UInt8 → Int → Java (List UInt8 × UInt8))
  (digit : UInt8 → Java UInt8) (out : ℕ → UInt8) {γ : Type}
  (loop : ℕ → List UInt8 → ℕ → List UInt8 → γ) (Room : ℕ → List UInt8 → Prop)
  (E : JavaException → Prop)

/-- What a conversion consists of, with its counterpart on lists. `Room` is what is
    known of the output that is free and the digits that are left, and a pass never
    finds the output full. -/
structure Converts : Prop where
  base_le : base ≤ 256
  divisor_pos : 0 < divisor
  divide_total : ∀ done left : List UInt8,
    Total (fun n => divide n (done ++ left) done.length)
      (fun result => result = (done ++ (divmodFrom base divisor 0 left).1,
        UInt8.ofNat (divmodFrom base divisor 0 left).2)) E
  digit_eq : ∀ mod < divisor, digit (UInt8.ofNat mod) = pure (out mod)
  loop_eq : ∀ (j : ℕ) (done : List UInt8) (d : UInt8) (ds w : List UInt8),
    loop (j + 1) (done ++ d :: ds) done.length w =
      loop j (done ++ (divmodFrom base divisor 0 (d :: ds)).1)
        (if (done ++ (divmodFrom base divisor 0 (d :: ds)).1).getD done.length 0 = 0
          then done.length + 1 else done.length)
        (out (divmodFrom base divisor 0 (d :: ds)).2 :: w)
  room_step : ∀ (j : ℕ) (d : UInt8) (ds left : List UInt8), Room j (d :: ds) →
    (∀ e ∈ digits (d :: ds), e < base) →
    (left.length = ds.length ∨ left.length = ds.length + 1 ∧ divisor ≤ d.toNat ∧
      (left.headD 0).toNat = d.toNat / divisor) →
    ∃ j', j = j' + 1 ∧ Room j' left

end Convert

section Convert

variable {base divisor : ℕ} {divide : ℕ → List UInt8 → Int → Java (List UInt8 × UInt8)}
  {digit : UInt8 → Java UInt8} {out : ℕ → UInt8} {γ : Type}
  {loop : ℕ → List UInt8 → ℕ → List UInt8 → γ} {Room : ℕ → List UInt8 → Prop}

/-- Where the next pass starts. -/
theorem startAt_eq (a : List UInt8) (i : ℕ) :
    (if signed (a.getD i 0) = 0 then (i : Int) + 1 else i) =
      (if a.getD i 0 = 0 then i + 1 else i : ℕ) := by
  by_cases hzero : a.getD i 0 = 0
  · rw [if_pos hzero, if_pos (signed_eq_zero_iff.mpr hzero)]
    rfl
  · rw [if_neg hzero, if_neg fun h => hzero (signed_eq_zero_iff.mp h)]

/-- A round does on arrays what a round of its counterpart does on lists. -/
theorem convertStep_total (h : Converts base divisor divide digit out loop Room E) {j : ℕ}
    (done : List UInt8) {d : UInt8} {ds : List UInt8} (w : List UInt8)
    (hdigits : ∀ e ∈ digits (d :: ds), e < base) (hroom : Room j (d :: ds)) :
    Total (fun n => convertStep (divide n) digit
        { number := done ++ d :: ds, startAt := done.length
          temp := List.replicate j 0 ++ w, j := j })
      (fun s => ∃ (done' left : List UInt8) (x : UInt8) (k : ℕ), j = k + 1 ∧
        s = { number := done' ++ left, startAt := done'.length
              temp := List.replicate k 0 ++ x :: w, j := k } ∧
        (∀ e ∈ digits left, e < base) ∧ Room k left ∧
        loop k (done' ++ left) done'.length (x :: w) = loop j (done ++ d :: ds) done.length w) E := by
  rcases divmodFrom_pass h.base_le h.divisor_pos done d ds hdigits with
    ⟨done', left, hnumber, hstart, hlt, hrem, -, hpass⟩
  rcases h.room_step j d ds left hroom hdigits hpass with ⟨k, rfl, hroom'⟩
  have hget := get_of_lt (a := done ++ (divmodFrom base divisor 0 (d :: ds)).1) (i := done.length)
    (by simp [length_divmodFrom]) 0
  rw [hnumber] at hget hstart
  unfold convertStep
  refine Total.bind (h.divide_total done (d :: ds)) ?_
  rintro _ rfl
  simp only [hnumber, hget, pure_bind, h.digit_eq _ hrem, set_last, startAt_eq, hstart]
  refine Total.pure ⟨done', left, out (divmodFrom base divisor 0 (d :: ds)).2, k, rfl, ?_, hlt,
    hroom', ?_⟩
  · congr 1
    omega
  · rw [h.loop_eq, hnumber, hstart]

/-- A conversion does on arrays what its counterpart does on lists, and leaves zeros
    where it has not written. -/
theorem convertLoop_total (h : Converts base divisor divide digit out loop Room E) (j : ℕ)
    (done left w : List UInt8) (hdigits : ∀ e ∈ digits left, e < base) (hroom : Room j left) :
    Total (fun n => convertLoop (divide n) digit n
        { number := done ++ left, startAt := done.length
          temp := List.replicate j 0 ++ w, j := j })
      (fun s => ∃ (number w' : List UInt8) (j' : ℕ), s.temp = List.replicate j' 0 ++ w' ∧
        s.j = j' ∧ j' + w'.length = j + w.length ∧ Room j' [] ∧
        loop j' number number.length w' = loop j (done ++ left) done.length w) E := by
  -- What is to come is the same before each round.
  let I : Conversion → Prop := fun s => ∃ (done' left' w' : List UInt8) (j' : ℕ),
    s = { number := done' ++ left', startAt := done'.length
          temp := List.replicate j' 0 ++ w', j := j' } ∧
      (∀ e ∈ digits left', e < base) ∧ Room j' left' ∧ j' + w'.length = j + w.length ∧
      loop j' (done' ++ left') done'.length w' = loop j (done ++ left) done.length w
  unfold convertLoop
  refine (Total.whileLoop I (fun s => s.j.toNat) _ (fun _ _ => rfl) ?_
    ⟨done, left, w, j, rfl, hdigits, hroom, rfl, rfl⟩).mono ?_ fun e he => he
  · rintro _ ⟨done', left', w', j', rfl, hdigits', hroom', hlength, hloop⟩ hnext
    rcases left' with _ | ⟨d, ds⟩
    · simp at hnext
    refine (convertStep_total h done' w' hdigits' hroom').mono ?_ fun e he => he
    rintro _ ⟨done'', left'', x, k, rfl, rfl, hdigits'', hroom'', hround⟩
    refine ⟨⟨done'', left'', x :: w', k, rfl, hdigits'', hroom'', ?_, hround.trans hloop⟩, ?_⟩
    · rw [← hlength, List.length_cons]
      omega
    · show (k : Int).toNat < ((k + 1 : ℕ) : Int).toNat
      omega
  · rintro _ ⟨⟨done', left', w', j', rfl, -, hroom', hlength, hloop⟩, hstop⟩
    rcases left' with _ | ⟨d, ds⟩
    · rw [List.append_nil] at hloop
      exact ⟨done', w', j', rfl, rfl, hlength, hroom', hloop⟩
    · simp at hstop

end Convert

end Base58.Buffers

end Tronscan
