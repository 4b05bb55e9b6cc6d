import Tronscan.Theory.Base58Arrays

/-!
# Base58 Stays Inside its Buffers

Both methods over arrays compute what the functions on lists do, and so end
without an access outside of an array.

The output of the encoder has two places for each byte of the input. A pass that
leaves the leading byte standing leaves less than 58 of it, so a byte takes two
passes at most, and where the input starts with zeros, the places of these are
free for the characters that stand for them. A pass of the decoder always uses up
its leading digit. So one place for each character is enough, and those of the
leading zeros are left.

Twice the length of an input of `2 ^ 30` bytes or more is negative as an `int`.
The output cannot be created then, and the encoder throws before any pass.

## Main definitions

* `unitChar`: The character of a code unit.

## Theorems

* `encode_total`, `decode_total`: How the two methods end.
* `base58_buffers`: They end for all inputs, inside their buffers.
-/

namespace Tronscan.Base58.Buffers

open Lib Java

variable {E : JavaException → Prop}

/-! ## Encoding -/

/-- The byte that stands for a digit. -/
def encoded (mod : ℕ) : UInt8 := UInt8.ofNat (ALPHABET.getD mod '1').toNat

theorem encoded_spec : ∀ mod < 58, signed (UInt8.ofNat mod) = mod ∧ mod < alphabet.length ∧
    byte (alphabet.getD mod 0).toNat = encoded mod ∧
    asciiChar (encoded mod) = ALPHABET.getD mod '1' := by
  decide +kernel

theorem signed_one_iff : ∀ n < 256,
    (signed (UInt8.ofNat n) = 49 ↔ asciiChar (UInt8.ofNat n) = '1') := by
  decide +kernel

theorem encodeDigit_eq {mod : ℕ} (hmod : mod < 58) :
    encodeDigit (UInt8.ofNat mod) = pure (encoded mod) := by
  rcases encoded_spec mod hmod with ⟨hsigned, hlt, hbyte, -⟩
  unfold encodeDigit
  rw [hsigned, get_of_lt hlt 0, pure_bind, hbyte]

/-- The encoder's passes, with room for the characters of the leading zeros. -/
theorem encode_converts (zeroCount : ℕ) :
    Converts 256 58 divmod58 encodeDigit encoded
      (fun j number startAt w => encodeLoop j number startAt (w.map asciiChar))
      (fun j left => 2 * left.length + 2 * zeroCount ≤
        j + if (left.headD 0).toNat < 58 then 1 else 0) E where
  base_le := Nat.le_refl _
  divisor_pos := by omega
  divide_total := divmod_total 256 58
  digit_eq _ hmod := encodeDigit_eq hmod
  loop_eq j done d ds w := by
    rcases divmodFrom_pass (Nat.le_refl 256) (by omega : 0 < 58) done d ds (digits_lt _)
      with ⟨_, _, -, -, -, hrem, -⟩
    rw [encodeLoop, if_pos (by simp), divmod58_append, List.map_cons, (encoded_spec _ hrem).2.2.2]
  room_step j d ds left hroom _ hleft := by
    rw [List.headD_cons] at hroom
    have hpos : 1 ≤ j := by
      rw [List.length_cons] at hroom
      split at hroom <;> omega
    rcases Nat.exists_eq_add_of_le' hpos with ⟨k, rfl⟩
    exact ⟨k, rfl, encode_room hroom hleft⟩

theorem encodeLoop_done (j : ℕ) (number : List UInt8) (temp : List Char) :
    encodeLoop j number number.length temp = temp := by
  cases j with
  | zero => rfl
  | succ j => rw [encodeLoop, if_neg (Nat.lt_irrefl _)]

/-- Skipping from the start of an array. -/
theorem skip_start (x : Int) (a : List UInt8) :
    Total (fun n => skip a x n 0) (fun j => j = ((a.takeWhile fun b => signed b = x).length : ℕ))
      E := by
  have h := skip_total (E := E) x [] a
  simpa using h

/-- Skipping from where the output is filled. -/
theorem skip_written (x : Int) (j : ℕ) (w : List UInt8) :
    Total (fun n => skip (List.replicate j 0 ++ w) x n j)
      (fun j' => j' = (j + (w.takeWhile fun b => signed b = x).length : ℕ)) E := by
  have h := skip_total (E := E) x (List.replicate j 0) w
  simpa using h

theorem takeWhile_signed (a : List UInt8) :
    (a.takeWhile fun b => signed b = 0) = a.takeWhile (· = 0) := by
  have hsame : (fun b : UInt8 => decide (signed b = 0)) = fun b => decide (b = 0) :=
    funext fun b => decide_eq_decide.mpr signed_eq_zero_iff
  rw [hsame]

/-- Stripping the characters for zero is stripping the bytes that stand for them. -/
theorem dropWhile_asciiChar (w : List UInt8) :
    (w.map asciiChar).dropWhile (· = '1') =
      (w.dropWhile fun b => signed b = 49).map asciiChar := by
  have hsame : (fun c : Char => decide (c = '1')) ∘ asciiChar =
      fun b : UInt8 => decide (signed b = 49) := by
    funext b
    have h := signed_one_iff b.toNat b.toNat_lt
    rw [UInt8.ofNat_toNat] at h
    exact decide_eq_decide.mpr h.symm
  rw [List.dropWhile_map, hsame]

/-- What the encoder does with the digits it has: those for zero in front are stripped,
    and one is put there for each leading zero. -/
theorem finish_total (z j : ℕ) (w : List UInt8) (hz : z ≤ j) (hlength : j + w.length < 2 ^ 31) :
    Total (fun n => do
        let j' ← skip (List.replicate j 0 ++ w) ((49 : UInt16).toNat) n j
        let padding ← pad n z (List.replicate j 0 ++ w) j'
        let output ← copyOfRange padding.temp padding.j padding.temp.length
        return String.ofList (output.map asciiChar))
      (fun s => s = String.ofList
        (List.replicate z '1' ++ (w.map asciiChar).dropWhile (· = '1'))) E := by
  refine Total.bind (skip_written _ j w) ?_
  rintro _ rfl
  have hone : ((49 : UInt16).toNat : Int) = 49 := rfl
  have hw := List.takeWhile_append_dropWhile (p := fun b : UInt8 => decide (signed b = 49)) (l := w)
  have hfront : (List.replicate j (0 : UInt8) ++ w.takeWhile fun b => signed b = 49).length =
      j + (w.takeWhile fun b => signed b = 49).length := by simp
  have hpad := pad_total (E := E) (List.replicate j 0 ++ w.takeWhile fun b => signed b = 49)
    (w.dropWhile fun b => signed b = 49) (z := z) (by omega)
  rw [List.append_assoc, hw, hfront] at hpad
  rw [hone]
  refine Total.bind hpad ?_
  rintro ⟨_, temp, _⟩ ⟨front, hfront', rfl, rfl⟩
  have hlength' := congrArg List.length hw
  rw [List.length_append] at hlength'
  have hcopy := copyOfRange_drop (i := front.length)
    (a := front ++ (List.replicate z 49 ++ w.dropWhile fun b => signed b = 49))
    (by simp only [List.length_append, List.length_replicate]; omega) (by simp)
  rw [List.drop_left] at hcopy
  simp only [hcopy, pure_bind]
  refine Total.pure ?_
  rw [dropWhile_asciiChar, List.map_append, List.map_replicate]
  rfl

theorem newByteArray_twice {n : ℕ} (hn : 2 * n < 2 ^ 31) :
    newByteArray (int (n * 2)) = pure (List.replicate (2 * n) 0) := by
  have hcast : (n : Int) * 2 = (2 * n : ℕ) := by omega
  rw [int_of_lt (by omega) (by omega), hcast, newByteArray_natCast]

/-- Twice the length wraps around. -/
theorem newByteArray_twice_throws {n : ℕ} (hn : n < 2 ^ 31) (hlong : 2 ^ 31 ≤ 2 * n) :
    newByteArray (int (n * 2)) = throw .negativeArraySize := by
  have hint : int (n * 2) < 0 := by
    unfold int
    rw [Int.bmod_def]
    split <;> omega
  rw [newByteArray, if_pos hint]

/-- The passes of the encoder leave room for the characters of the leading zeros. -/
theorem encodeLoop_total (input : List UInt8) :
    Total (fun n => convertLoop (divmod58 n) encodeDigit n
        { number := input, startAt := (input.takeWhile (· = 0)).length
          temp := List.replicate (2 * input.length) 0, j := (2 * input.length : ℕ) })
      (fun s => ∃ (w : List UInt8) (j : ℕ), s.temp = List.replicate j 0 ++ w ∧ s.j = j ∧
        j + w.length = 2 * input.length ∧ (input.takeWhile (· = 0)).length ≤ j ∧
        w.map asciiChar =
          encodeLoop (2 * input.length) input (input.takeWhile (· = 0)).length []) E := by
  have hsplit := List.takeWhile_append_dropWhile (p := fun d : UInt8 => decide (d = 0)) (l := input)
  have hlength := congrArg List.length hsplit
  rw [List.length_append] at hlength
  have hloop := convertLoop_total (encode_converts (E := E) (input.takeWhile (· = 0)).length)
    (2 * input.length) (input.takeWhile (· = 0)) (input.dropWhile (· = 0)) [] (digits_lt _)
    (by omega)
  rw [hsplit, List.append_nil] at hloop
  refine hloop.mono ?_ fun e he => he
  rintro s ⟨number, w, j, htemp, hj, hw, hroom, hresult⟩
  rw [encodeLoop_done] at hresult
  refine ⟨w, j, htemp, hj, by simpa using hw, ?_, hresult⟩
  simp only [List.length_nil] at hroom
  split at hroom <;> omega

/-- The encoder ends. It returns what the encoder on lists does, unless the output
    cannot be created. -/
theorem encode_total (input : JavaArray UInt8) :
    Total (fun n => encode n input.elems)
      (fun s => s = Base58.encode input.elems ∧ 2 * input.elems.length < 2 ^ 31)
      (fun e => e = .negativeArraySize ∧ 2 ^ 31 ≤ 2 * input.elems.length) := by
  rcases input with ⟨input, hinput⟩
  dsimp only
  unfold encode
  by_cases hempty : input = []
  · subst hempty
    exact Total.pure ⟨rfl, by decide⟩
  have hcopy := copyOfRange_drop hinput (Nat.zero_le _)
  rw [Nat.cast_zero, List.drop_zero] at hcopy
  simp only [List.length_eq_zero_iff, if_neg hempty, hcopy, pure_bind]
  refine Total.bind (skip_start 0 input) ?_
  rintro _ rfl
  rw [takeWhile_signed]
  by_cases hlong : 2 ^ 31 ≤ 2 * input.length
  · rw [newByteArray_twice_throws hinput hlong]
    exact Total.bind (Q := fun _ => False) (Total.throw ⟨rfl, hlong⟩) fun _ h => h.elim
  · have hnew := newByteArray_twice (not_le.mp hlong)
    simp only [hnew, pure_bind, get_alphabet_zero, List.length_replicate]
    refine Total.bind (encodeLoop_total input) ?_
    rintro ⟨_, _, _, _⟩ ⟨w, j, rfl, rfl, hw, hfree, hresult⟩
    refine (finish_total _ j w hfree (by omega)).mono ?_ fun e he => he
    rintro _ rfl
    rw [hresult, Base58.encode, if_neg hempty]
    exact ⟨rfl, not_le.mp hlong⟩

/-! ## Reading the digits -/

/-- The character of a code unit. Half a surrogate pair is none. -/
def unitChar (c : UInt16) : Char := Char.ofNat c.toNat

theorem toNat_unitChar (c : UInt16) :
    (unitChar c).toNat = if c.toNat.isValidChar then c.toNat else 0 := by
  by_cases hvalid : c.toNat.isValidChar
  · have hchar : unitChar c = Char.ofNatAux c.toNat hvalid := dif_pos hvalid
    rw [hchar, if_pos hvalid]
    rfl
  · have hchar : unitChar c = Char.ofNat 0 := dif_neg hvalid
    rw [hchar, if_neg hvalid]
    rfl

/-- The digit of a code unit is that of its character. -/
theorem indexOf_eq (c : UInt16) : indexOf c = pure (digit58 (unitChar c)) := by
  unfold indexOf
  have hlength : INDEXES.length = 128 := by decide +kernel
  have hzero : INDEXES.getD 0 (-1) = -1 := by decide +kernel
  by_cases hc : c.toNat < 128
  · have hvalid : c.toNat.isValidChar := Or.inl (by omega)
    rw [if_pos hc, get_of_lt (by omega) (-1), digit58, toNat_unitChar, if_pos hvalid, if_pos hc]
  · rw [if_neg hc, digit58, toNat_unitChar]
    by_cases hvalid : c.toNat.isValidChar
    · rw [if_pos hvalid, if_neg hc]
    · rw [if_neg hvalid, if_pos (by omega), hzero]

/-- The alphabet is what has a digit. -/
theorem mem_alphabet_iff {c : UInt16} : c ∈ alphabet ↔ 0 ≤ digit58 (unitChar c) := by
  constructor
  · have htable : alphabet.all (fun c => decide (0 ≤ digit58 (unitChar c))) = true := by
      decide +kernel
    exact fun hc => of_decide_eq_true (List.all_eq_true.mp htable c hc)
  · intro hc
    rcases ALPHABET_digit58 (unitChar c) hc with ⟨hlt, hchar⟩
    have hmem : unitChar c ∈ ALPHABET := by
      rw [← hchar, List.getD_eq_getElem?_getD, List.getElem?_eq_getElem (by exact hlt)]
      exact List.getElem_mem _
    have hzero : ¬0 ≤ digit58 (Char.ofNat 0) := by decide +kernel
    have hvalid : c.toNat.isValidChar := by
      by_contra hvalid
      have htoNat := toNat_unitChar c
      rw [if_neg hvalid] at htoNat
      exact hzero (by rwa [← htoNat, Char.ofNat_toNat])
    have htoNat := toNat_unitChar c
    rw [if_pos hvalid] at htoNat
    exact List.mem_map.mpr ⟨unitChar c, hmem, by rw [htoNat, UInt16.ofNat_toNat]⟩

/-- The exception for the first character that is not in the alphabet. -/
def IllegalCharacter (input : List UInt16) (e : JavaException) : Prop :=
  ∃ (i : ℕ) (c : UInt16), input[i]? = some c ∧ c ∉ alphabet ∧ (∀ c ∈ input.take i, c ∈ alphabet) ∧
    e = .illegalArgument
      (units "Illegal character " ++ [c] ++ units " at " ++ units (toString (i : Int)))

theorem illegalCharacter_of_split {input seen cs : List UInt16} {c : UInt16}
    (hinput : input = seen ++ c :: cs) (hlegal : ∀ c ∈ seen, c ∈ alphabet) (hc : c ∉ alphabet) :
    IllegalCharacter input (.illegalArgument
      (units "Illegal character " ++ [c] ++ units " at " ++
        units (toString (seen.length : Int)))) := by
  refine ⟨seen.length, c, ?_, hc, ?_, rfl⟩
  · rw [hinput, List.getElem?_append_right (Nat.le_refl _), Nat.sub_self, List.getElem?_cons_zero]
  · rw [hinput, List.take_left]
    exact hlegal

/-- One more character with a digit. -/
theorem input58_concat {seen : List UInt16} {number : List UInt8} {c : UInt16}
    (hnumber : input58 (seen.map unitChar) = some number) (hc : 0 ≤ digit58 (unitChar c)) :
    input58 ((seen ++ [c]).map unitChar) = some (number ++ [byte (digit58 (unitChar c))]) := by
  have hbyte : byte (digit58 (unitChar c)) = UInt8.ofNat (digit58 (unitChar c)).toNat := by
    rw [← byte_natCast]
    congr 1
    omega
  unfold input58 at hnumber ⊢
  rw [List.map_append, List.mapM_append, hnumber]
  simp [not_lt.mpr hc, hbyte]

/-- Before each round, the digits of the characters that have been seen are in front. -/
structure ReadingInv (input seen rest : List UInt16) (number : List UInt8) : Prop where
  input_eq : input = seen ++ rest
  length_eq : number.length = seen.length
  number_eq : input58 (seen.map unitChar) = some number
  legal : ∀ c ∈ seen, c ∈ alphabet

theorem ReadingInv.concat {input seen cs : List UInt16} {number : List UInt8} {c : UInt16}
    (h : ReadingInv input seen (c :: cs) number) (hc : 0 ≤ digit58 (unitChar c)) :
    ReadingInv input (seen ++ [c]) cs (number ++ [byte (digit58 (unitChar c))]) where
  input_eq := by rw [h.input_eq, List.append_assoc, List.singleton_append]
  length_eq := by rw [List.length_append, List.length_append, h.length_eq]; rfl
  number_eq := input58_concat h.number_eq hc
  legal c' hc' := by
    rcases List.mem_append.mp hc' with hc' | hc'
    · exact h.legal c' hc'
    · rw [List.mem_singleton.mp hc']
      exact mem_alphabet_iff.mpr hc

/-- The digits of a string, unless there is a character that has none. -/
theorem readDigits_total (input : List UInt16) :
    Total (fun n => readDigits n input)
      (fun number => input58 (input.map unitChar) = some number ∧ number.length = input.length ∧
        ∀ c ∈ input, c ∈ alphabet) (IllegalCharacter input) := by
  let I : Reading → Prop := fun s => ∃ (seen rest : List UInt16) (number : List UInt8),
    s = { input58 := number ++ List.replicate rest.length 0, i := seen.length } ∧
      ReadingInv input seen rest number
  unfold readDigits
  refine Total.bind (Total.whileLoop I (fun s => (input.length - s.i).toNat) _ (fun _ _ => rfl) ?_
    ⟨[], input, [], rfl, rfl, rfl, rfl, by simp⟩) ?_
  · rintro _ ⟨seen, rest, number, rfl, h⟩ hnext
    rcases rest with _ | ⟨c, cs⟩
    · simp [h.input_eq] at hnext
    have hget : get input seen.length = pure c := by rw [h.input_eq, get_append]
    simp only [hget, pure_bind, indexOf_eq]
    by_cases hdigit : digit58 (unitChar c) < 0
    · rw [if_pos hdigit]
      have hc : c ∉ alphabet := by
        rw [mem_alphabet_iff]
        omega
      exact Total.throw (illegalCharacter_of_split h.input_eq h.legal hc)
    · rw [if_neg hdigit]
      have hset := set_append number (0 : UInt8) (byte (digit58 (unitChar c)))
        (List.replicate cs.length 0)
      rw [h.length_eq] at hset
      simp only [List.length_cons, List.replicate_succ, hset, pure_bind]
      refine Total.pure ⟨⟨seen ++ [c], cs, number ++ [byte (digit58 (unitChar c))], ?_,
        h.concat (not_lt.mp hdigit)⟩, ?_⟩
      · simp
      · have hlength := congrArg List.length h.input_eq
        rw [List.length_append, List.length_cons] at hlength
        dsimp only
        omega
  · rintro _ ⟨⟨seen, rest, number, rfl, h⟩, hstop⟩
    have hinput := h.input_eq
    rcases rest with _ | ⟨c, cs⟩
    · rw [List.append_nil] at hinput
      subst hinput
      exact Total.pure ⟨by simpa using h.number_eq, by simpa using h.length_eq, h.legal⟩
    · simp [hinput] at hstop

/-! ## Decoding -/

/-- The decoder's passes, each of which uses up a digit. -/
theorem decode_converts (zeroCount : ℕ) :
    Converts 58 256 divmod256 (fun mod => return mod) UInt8.ofNat decodeLoop
      (fun j left => left.length + zeroCount ≤ j) E where
  base_le := by omega
  divisor_pos := by omega
  divide_total := divmod_total 58 256
  digit_eq _ _ := rfl
  loop_eq j done d ds w := by
    rw [decodeLoop, if_pos (by simp), divmod256_append]
  room_step j d ds left hroom hdigits hleft := by
    rw [List.length_cons] at hroom
    have hd : d.toNat < 58 := hdigits d.toNat List.mem_cons_self
    rcases Nat.exists_eq_add_of_le' (by omega : 1 ≤ j) with ⟨k, rfl⟩
    exact ⟨k, rfl, by omega⟩

theorem decodeLoop_done (j : ℕ) (number temp : List UInt8) :
    decodeLoop j number number.length temp = some temp := by
  cases j with
  | zero => rw [decodeLoop, if_neg (Nat.lt_irrefl _)]
  | succ j => rw [decodeLoop, if_neg (Nat.lt_irrefl _)]

/-- The zeros that are skipped are like those in front of them, so any number of
    them may be taken back. -/
theorem drop_zeros (j z : ℕ) (w : List UInt8) (hz : z ≤ j) :
    (List.replicate j 0 ++ w).drop (j + (w.takeWhile (· = 0)).length - z) =
      List.replicate z 0 ++ w.dropWhile (· = 0) := by
  have hzeros : w.takeWhile (· = 0) = List.replicate (w.takeWhile (· = 0)).length 0 :=
    List.eq_replicate_iff.mpr
      ⟨rfl, fun b hb => of_decide_eq_true (List.all_eq_true.mp List.all_takeWhile b hb)⟩
  have hw := List.takeWhile_append_dropWhile (p := fun b : UInt8 => decide (b = 0)) (l := w)
  generalize (w.takeWhile (· = 0)).length = k at hzeros ⊢
  conv_lhs => rw [← hw, hzeros, ← List.append_assoc, List.replicate_append_replicate]
  rw [List.drop_append_of_le_length (by simp), List.drop_replicate]
  congr 2
  omega

/-- A string of code units. -/
def javaString (input : List UInt16) : String := String.ofList (input.map unitChar)

theorem javaString_ne_empty {input : List UInt16} (hne : input ≠ []) : javaString input ≠ "" := by
  intro h
  have hchars := congrArg String.toList h
  rw [javaString, String.toList_ofList] at hchars
  exact hne (List.map_eq_nil_iff.mp hchars)

/-- The passes of the decoder leave the places of the leading zeros. -/
theorem decodeLoop_total {number : List UInt8} (hdigits : ∀ e ∈ digits number, e < 58) :
    Total (fun n => convertLoop (divmod256 n) (fun mod => return mod) n
        { number := number, startAt := (number.takeWhile (· = 0)).length
          temp := List.replicate number.length 0, j := number.length })
      (fun s => ∃ (w : List UInt8) (j : ℕ), s.temp = List.replicate j 0 ++ w ∧ s.j = j ∧
        j + w.length = number.length ∧ (number.takeWhile (· = 0)).length ≤ j ∧
        decodeLoop number.length number (number.takeWhile (· = 0)).length [] = some w) E := by
  have hsplit := List.takeWhile_append_dropWhile (p := fun d : UInt8 => decide (d = 0)) (l := number)
  have hcount := congrArg List.length hsplit
  rw [List.length_append] at hcount
  have hleft : ∀ e ∈ digits (number.dropWhile (· = 0)), e < 58 := by
    intro e he
    rw [dropWhile_digits] at he
    exact hdigits e ((List.dropWhile_sublist _).subset he)
  have hloop := convertLoop_total (decode_converts (E := E) (number.takeWhile (· = 0)).length)
    number.length (number.takeWhile (· = 0)) (number.dropWhile (· = 0)) [] hleft (by omega)
  rw [hsplit, List.append_nil] at hloop
  refine hloop.mono ?_ fun e he => he
  rintro s ⟨number', w, j, htemp, hj, hw, hroom, hresult⟩
  rw [decodeLoop_done] at hresult
  rw [List.length_nil, Nat.zero_add] at hroom
  exact ⟨w, j, htemp, hj, by simpa using hw, hroom, hresult.symm⟩

/-- The loops of the decoder end, and what it copies is in the output. -/
theorem decodeLoops_total (input : List UInt16) :
    Total (fun n => decodeLoops n input)
      (fun s => (∀ c ∈ input, c ∈ alphabet) ∧ s.temp.length = input.length ∧
        ∃ i : ℕ, s.j - s.zeroCount = i ∧ i ≤ s.temp.length ∧
          (input ≠ [] → Base58.decode (javaString input) = some (s.temp.drop i)))
      (IllegalCharacter input) := by
  unfold decodeLoops
  refine Total.bind (readDigits_total input) ?_
  rintro number ⟨hnumber, hlength, hlegal⟩
  refine Total.bind (skip_start 0 number) ?_
  rintro _ rfl
  rw [takeWhile_signed]
  have hdigits := (input58_eq_some.mp hnumber).1
  simp only [newByteArray_natCast, pure_bind, List.length_replicate, ← hlength]
  refine Total.bind (decodeLoop_total hdigits) ?_
  rintro ⟨_, _, _, _⟩ ⟨w, j, rfl, rfl, hw, hroom, hresult⟩
  refine Total.bind (skip_written 0 j w) ?_
  rintro _ rfl
  rw [takeWhile_signed]
  have hwritten := (List.takeWhile_sublist (· = 0) (l := w)).length_le
  refine Total.pure ⟨hlegal, by simpa using hw,
    j + (w.takeWhile (· = 0)).length - (number.takeWhile (· = 0)).length, ?_, ?_, fun hne => ?_⟩
  · dsimp only
    omega
  · simp only [List.length_append, List.length_replicate]
    omega
  · rw [Base58.decode, if_neg (javaString_ne_empty hne), javaString, String.toList_ofList, hnumber,
      drop_zeros j _ w hroom]
    simp only [Option.bind_eq_bind, Option.bind_some, hresult]
    rfl

/-- The decoder ends. It throws for a character that is not in the alphabet, and
    otherwise returns what the decoder on lists does. -/
theorem decode_total (input : JavaArray UInt16) :
    Total (fun n => decode n input.elems)
      (fun bytes => (∀ c ∈ input.elems, c ∈ alphabet) ∧
        Base58.decode (javaString input.elems) = some bytes)
      (IllegalCharacter input.elems) := by
  rcases input with ⟨input, hinput⟩
  dsimp only
  unfold decode
  by_cases hempty : input = []
  · subst hempty
    exact Total.pure ⟨by simp, rfl⟩
  simp only [List.length_eq_zero_iff, if_neg hempty]
  refine Total.bind (decodeLoops_total input) ?_
  rintro ⟨temp, j, zeroCount⟩ ⟨hlegal, hlength, i, hi, hle, hresult⟩
  dsimp only at hlength hi hle hresult ⊢
  rw [hi, int_of_lt (by omega) (by omega), copyOfRange_drop (by omega) hle]
  exact Total.pure ⟨hlegal, hresult hempty⟩

/-- Both methods end for every input. The encoder returns, or cannot create its output.
    The decoder returns exactly when all characters are in the alphabet, and throws for
    the first that is not, and the start of what it copies is never negative. No index
    is outside of an array, since that would be an exception of its own. -/
theorem base58_buffers :
    (∀ input : JavaArray UInt8,
      Total (fun n => encode n input.elems) (fun s => s = Base58.encode input.elems)
        (fun e => e = .negativeArraySize ∧ 2 ^ 31 ≤ 2 * input.elems.length)) ∧
    (∀ input : JavaArray UInt16,
      Total (fun n => decode n input.elems)
        (fun bytes => (∀ c ∈ input.elems, c ∈ alphabet) ∧
          Base58.decode (javaString input.elems) = some bytes)
        (IllegalCharacter input.elems)) ∧
    ∀ input : JavaArray UInt16,
      Total (fun n => decodeLoops n input.elems)
        (fun s => 0 ≤ s.j - s.zeroCount ∧ s.j - s.zeroCount ≤ s.temp.length)
        (IllegalCharacter input.elems) := by
  refine ⟨fun input => (encode_total input).mono (fun _ hs => hs.1) fun _ he => he, decode_total,
    fun input => ?_⟩
  refine (decodeLoops_total input.elems).mono ?_ fun e he => he
  rintro s ⟨-, -, i, hi, hle, -⟩
  rw [hi]
  exact ⟨Int.natCast_nonneg i, by omega⟩

end Tronscan.Base58.Buffers
