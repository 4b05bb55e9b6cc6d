import Tronscan.Core.Wire
import Tronscan.Theory.Base58Buffers

/-!
# Addresses and Their Strings

The database and the API know an address by its Base58Check string, the nodes by
its bytes. Neither way loses anything.

On lists there is nothing more to say. The methods of the source work on arrays,
and the encoder needs one of twice the length of its input, checksum included. So
an array of `2 ^ 30 - 4` bytes or more has no string, and creating that array
throws. Up to there, both methods compute what their counterparts on lists do.

## Main definitions

* `longArray`: An array without a string.

## Theorems

* `encode58Check_injective`: The strings of different bytes differ.
* `base58Check_bijective`: The round trips on lists, and what follows for addresses.
* `length_encode_le`: A string fits into the array it is made in.
* `encode58Check_total`, `decode58Check_total`: How the methods end.
* `base58Check_arrays`: The round trips of the methods.
* `not_base58Check_bijective_long`: An array without a string.
-/

namespace Tronscan

open Base58

theorem encode_injective {a b : Bytes} (h : encode a = encode b) : a = b :=
  Option.some.inj ((decode_eq_some_iff.mpr rfl).symm.trans (decode_eq_some_iff.mpr h))

section Codec

variable [Codec]

theorem encode58Check_injective {p q : Bytes} (h : encode58Check p = encode58Check q) :
    p = q := by
  -- Both checksums are four bytes long.
  refine (List.append_inj' (encode_injective h) ?_).1
  rw [List.length_take, List.length_take, Codec.sha256_length, Codec.sha256_length]

/-- On lists, Base58Check is a bijection between the non-empty ones and the strings with a
    right checksum, so that an address and its string determine each other. -/
theorem base58Check_bijective :
    (∀ p : Bytes, p ≠ [] → decode58Check (encode58Check p) = some (some p)) ∧
    (∀ (s : String) (p : Bytes), (∀ c ∈ s.toList, c ∈ ALPHABET) →
      decode58Check s = some (some p) → encode58Check p = s) ∧
    (∀ p q : Bytes, encodeAddress p = encodeAddress q → p = q) ∧
    (∀ (s t : String) (p : Bytes), decodeAddress s = some p → decodeAddress t = some p →
      s = t) := by
  have hdecode : ∀ (s : String) (p : Bytes), decodeAddress s = some p → s = encode58Check p := by
    intro s p h
    exact (decode58Check_eq_some_iff.mp (Option.join_eq_some_iff.mp h)).2
  refine ⟨?_, ?_, ?_, ?_⟩
  · intro p hp
    exact decode58Check_eq_some_iff.mpr ⟨hp, rfl⟩
  · intro s p _ h
    exact (decode58Check_eq_some_iff.mp h).2.symm
  · intro p q h
    exact encode58Check_injective h
  · intro s t p hs ht
    rw [hdecode s p hs, hdecode t p ht]

end Codec

namespace Base58.Buffers

open Lib Java

/-! ## The strings of the encoder -/

theorem toNat_lt_of_mem_ALPHABET {c : Char} (hc : c ∈ ALPHABET) : c.toNat < 128 := by
  obtain ⟨d, hd, rfl⟩ := List.mem_iff_getElem.mp hc
  have hdigit := digit58_ALPHABET d hd
  rw [List.getD_eq_getElem?_getD, List.getElem?_eq_getElem hd, Option.getD_some, digit58] at hdigit
  by_contra hlarge
  rw [if_neg hlarge] at hdigit
  omega

theorem alphabet_units : ∀ c ∈ ALPHABET, unitChar (UInt16.ofNat c.toNat) = c := by
  intro c hc
  have hlt : c.toNat < 2 ^ 16 := (toNat_lt_of_mem_ALPHABET hc).trans (by decide)
  rw [unitChar, UInt16.toNat_ofNat_of_lt' hlt, Char.ofNat_toNat]

theorem units_alphabet : ∀ c ∈ alphabet, UInt16.ofNat (unitChar c).toNat = c := by
  intro c hc
  obtain ⟨d, hd, rfl⟩ := List.mem_map.mp hc
  rw [alphabet_units d hd]

/-- The code units of a string over the alphabet are its characters. -/
theorem javaString_units {s : String} (h : ∀ c ∈ s.toList, c ∈ ALPHABET) :
    javaString (units s) = s := by
  have hchars : s.toList.map (unitChar ∘ fun c => UInt16.ofNat c.toNat) = s.toList.map id :=
    List.map_congr_left fun c hc => alphabet_units c (h c hc)
  rw [javaString, units, List.map_map, hchars, List.map_id, String.ofList_toList]

theorem units_javaString {cs : List UInt16} (h : ∀ c ∈ cs, c ∈ alphabet) :
    units (javaString cs) = cs := by
  have hunits : cs.map ((fun c => UInt16.ofNat c.toNat) ∘ unitChar) = cs.map id :=
    List.map_congr_left fun c hc => units_alphabet c (h c hc)
  rw [javaString, units, String.toList_ofList, List.map_map, hunits, List.map_id]

theorem units_mem_alphabet {s : String} (h : ∀ c ∈ s.toList, c ∈ ALPHABET) :
    ∀ c ∈ units s, c ∈ alphabet := by
  intro c hc
  obtain ⟨char, hchar, rfl⟩ := List.mem_map.mp hc
  exact List.mem_map_of_mem (h char hchar)

theorem mem_ALPHABET_encode (bytes : Bytes) : ∀ c ∈ (Base58.encode bytes).toList, c ∈ ALPHABET := by
  intro c hc
  rw [encode_eq, String.toList_ofList] at hc
  rcases List.mem_map.mp hc with ⟨d, hd, rfl⟩
  have hlt : d < 58 := convert_lt (by omega) d hd
  rw [List.getD_eq_getElem?_getD, List.getElem?_eq_getElem (by exact hlt)]
  exact List.getElem_mem _

/-- The encoder's output fits into its buffer. -/
theorem length_encode_le (bytes : Bytes) : (Base58.encode bytes).toList.length ≤ 2 * bytes.length := by
  by_cases hempty : bytes = []
  · rw [hempty]
    exact Nat.le_refl 0
  rcases encodeLoop_total (E := fun _ => False) bytes with ⟨_, outcome, _, hreturns, hthrows⟩
  cases outcome with
  | error e => exact (hthrows e rfl).elim
  | ok s =>
      rcases hreturns s rfl with ⟨w, j, -, -, hlength, hzeros, hw⟩
      have hdrop : ((w.map asciiChar).dropWhile (· = '1')).length ≤ w.length := by
        have h := (List.dropWhile_sublist (l := w.map asciiChar) (· = '1')).length_le
        rwa [List.length_map] at h
      rw [Base58.encode, if_neg hempty, String.toList_ofList, ← hw, List.length_append,
        List.length_replicate]
      omega

variable [Codec]

/-! ## With a checksum -/

/-- The encoder with its checksum ends. It returns what that on lists does, or the array
    is too long. -/
theorem encode58Check_total (input : JavaArray UInt8) :
    Total (fun n => encode58Check n input.elems)
      (fun s => s = Base58.encode58Check input.elems ∧ input.elems.length + 4 < 2 ^ 30)
      (fun e => e = .negativeArraySize ∧ 2 ^ 30 ≤ input.elems.length + 4) := by
  rcases input with ⟨input, hinput⟩
  dsimp only
  rw [Base58.encode58Check]
  unfold encode58Check
  have hhash : ((Codec.sha256 (Codec.sha256 input)).take 4).length = 4 := by
    rw [List.length_take, Codec.sha256_length]
    rfl
  generalize Codec.sha256 (Codec.sha256 input) = hash1 at hhash ⊢
  by_cases hshort : input.length + 4 < 2 ^ 31
  · have hint : int ((input.length : Int) + 4) = (input.length + 4 : ℕ) := by
      rw [int_of_lt (by omega) (by omega)]
      rfl
    -- The input, and then the checksum, are copied to where there were zeros.
    have hcopy : arraycopy input 0 (List.replicate (input.length + 4) 0) 0 input.length =
        pure (input ++ List.replicate 4 0) :=
      arraycopy_append [] input [] [] (List.replicate input.length 0) (List.replicate 4 0) (by simp)
        (by rw [List.replicate_add]; rfl) (List.length_replicate ..)
    have hcopy' : arraycopy hash1 0 (input ++ List.replicate 4 0) input.length 4 =
        pure (input ++ hash1.take 4) := by
      have h := arraycopy_append [] (hash1.take 4) (hash1.drop 4) input (List.replicate 4 0) []
        (List.take_append_drop 4 hash1).symm (List.append_nil _).symm (by rw [hhash]; rfl)
      rwa [hhash, List.append_nil] at h
    have hlength : (input ++ hash1.take 4).length = input.length + 4 := by
      rw [List.length_append, hhash]
    simp only [hint, newByteArray_natCast, pure_bind, hcopy, hcopy']
    refine (encode_total ⟨input ++ hash1.take 4, hlength ▸ hshort⟩).mono ?_ ?_
    · rintro _ ⟨rfl, htwice⟩
      rw [hlength] at htwice
      exact ⟨rfl, by omega⟩
    · rintro _ ⟨rfl, htwice⟩
      rw [hlength] at htwice
      exact ⟨rfl, by omega⟩
  · -- The length with the checksum wraps around.
    have hnew : newByteArray (int ((input.length : Int) + 4)) = throw .negativeArraySize := by
      have hint : int ((input.length : Int) + 4) < 0 := by
        unfold int
        rw [Int.bmod_def]
        split <;> omega
      rw [newByteArray, if_pos hint]
    rw [hnew]
    exact Total.bind (Q := fun _ => False) (Total.throw ⟨rfl, by omega⟩) fun _ h => h.elim

omit [Codec] in
/-- The comparison of the checksums. -/
theorem allM_get {a b : List UInt8} {k : ℕ} (ha : 4 ≤ a.length) (hb : b.length = k + 4) :
    [0, 1, 2, 3].allM (fun i : Int => do
      return decide ((← get a i) = (← get b (k + i)))) =
      (pure (decide (a.take 4 = b.drop k)) : Java Bool) := by
  have hgetA (i : ℕ) (hi : i < 4) : get a i = pure ((a.take 4).getD i 0) := by
    rw [get_of_lt (by omega) 0]
    simp [List.getD_eq_getElem?_getD, hi]
  have hgetB (i : ℕ) (hi : i < 4) : get b ((k : Int) + i) = pure ((b.drop k).getD i 0) := by
    rw [← Nat.cast_add, get_of_lt (by omega) 0]
    simp [List.getD_eq_getElem?_getD]
  have hlengthA : (a.take 4).length = 4 := by
    rw [List.length_take]
    omega
  have hlengthB : (b.drop k).length = 4 := by
    rw [List.length_drop]
    omega
  generalize a.take 4 = x at hgetA hlengthA ⊢
  generalize b.drop k = y at hgetB hlengthB ⊢
  rcases List.length_eq_four.mp hlengthA with ⟨x₀, x₁, x₂, x₃, rfl⟩
  rcases List.length_eq_four.mp hlengthB with ⟨y₀, y₁, y₂, y₃, rfl⟩
  have hgets : ∀ i : ℕ, i < 4 → get a i = pure ([x₀, x₁, x₂, x₃].getD i 0) ∧
      get b ((k : Int) + i) = pure ([y₀, y₁, y₂, y₃].getD i 0) :=
    fun i hi => ⟨hgetA i hi, hgetB i hi⟩
  rcases hgets 0 (by omega) with ⟨ha₀, hb₀⟩
  rcases hgets 1 (by omega) with ⟨ha₁, hb₁⟩
  rcases hgets 2 (by omega) with ⟨ha₂, hb₂⟩
  rcases hgets 3 (by omega) with ⟨ha₃, hb₃⟩
  simp only [Nat.cast_zero, Nat.cast_one, Nat.cast_ofNat, List.getD_cons_zero,
    List.getD_cons_succ] at ha₀ hb₀ ha₁ hb₁ ha₂ hb₂ ha₃ hb₃
  simp only [List.allM, ha₀, hb₀, ha₁, hb₁, ha₂, hb₂, ha₃, hb₃, pure_bind, List.cons.injEq,
    and_true]
  by_cases h₀ : x₀ = y₀ <;> by_cases h₁ : x₁ = y₁ <;> by_cases h₂ : x₂ = y₂ <;>
    by_cases h₃ : x₃ = y₃ <;> simp [h₀, h₁, h₂, h₃]

/-- The decoder with its checksum ends. It throws for a character that is not in the
    alphabet. -/
theorem decode58Check_total (input : JavaArray UInt16) :
    Total (fun n => decode58Check n input.elems)
      (fun q => (∀ c ∈ input.elems, c ∈ alphabet) ∧
        Base58.decode58Check (javaString input.elems) = some q)
      (IllegalCharacter input.elems) := by
  unfold decode58Check
  refine Total.bind (decode_total input) ?_
  rintro decodeCheck ⟨hlegal, hdecode⟩
  rw [Base58.decode58Check, hdecode]
  by_cases hlength : decodeCheck.length ≤ 4
  · simp only [if_pos hlength]
    exact Total.pure ⟨hlegal, by simp [hlength]⟩
  · have hcast : (decodeCheck.length : Int) - 4 = (decodeCheck.length - 4 : ℕ) := by omega
    have hdata : (decodeCheck.take (decodeCheck.length - 4)).length = decodeCheck.length - 4 := by
      rw [List.length_take]
      omega
    have hcopy : arraycopy decodeCheck 0 (List.replicate (decodeCheck.length - 4) 0) 0
        (decodeCheck.length - 4 : ℕ) = pure (decodeCheck.take (decodeCheck.length - 4)) := by
      have h := arraycopy_append [] (decodeCheck.take (decodeCheck.length - 4))
        (decodeCheck.drop (decodeCheck.length - 4)) []
        (List.replicate (decodeCheck.length - 4) (0 : UInt8)) []
        (List.take_append_drop _ _).symm (List.append_nil _).symm
        (by rw [List.length_replicate, hdata])
      rwa [hdata, List.append_nil] at h
    have hcompare := allM_get (a := Codec.sha256 (Codec.sha256
      (decodeCheck.take (decodeCheck.length - 4)))) (b := decodeCheck)
      (k := decodeCheck.length - 4) (by rw [Codec.sha256_length]; decide) (by omega)
    simp only [if_neg hlength, hcast, newByteArray_natCast, pure_bind, List.length_replicate, hcopy,
      hdata, hcompare]
    refine Total.pure ⟨hlegal, ?_⟩
    simp [hlength]

/-- The string of an array that is short enough. -/
theorem encode58Check_returns {p : List UInt8} (hp : p.length + 4 < 2 ^ 30) :
    Returns (fun n => encode58Check n p) (Base58.encode58Check p) := by
  refine (encode58Check_total ⟨p, by omega⟩).mono (fun _ h => h.1) ?_
  rintro _ ⟨-, hlong⟩
  exact absurd hp (not_lt.mpr hlong)

/-- The array of a string that is the encoding of one. -/
theorem decode58Check_returns {p : List UInt8} (hp : p ≠ []) (hlength : p.length + 4 < 2 ^ 30) :
    Returns (fun n => decode58Check n (units (Base58.encode58Check p))) (some p) := by
  let inputCheck := p ++ (Codec.sha256 (Codec.sha256 p)).take 4
  have hchecksum : inputCheck.length = p.length + 4 := by
    rw [List.length_append, List.length_take, Codec.sha256_length]
    rfl
  have hchars : ∀ c ∈ (Base58.encode58Check p).toList, c ∈ ALPHABET :=
    mem_ALPHABET_encode inputCheck
  have hunits : (units (Base58.encode58Check p)).length < 2 ^ 31 := by
    have hle := length_encode_le inputCheck
    rw [hchecksum] at hle
    rw [units, List.length_map]
    exact lt_of_le_of_lt hle (by omega)
  refine (decode58Check_total ⟨_, hunits⟩).mono ?_ ?_
  · rintro q ⟨-, hq⟩
    rw [javaString_units hchars, decode58Check_eq_some_iff.mpr ⟨hp, rfl⟩] at hq
    exact (Option.some.inj hq).symm
  · -- All the characters are in the alphabet.
    rintro e ⟨i, c, hc, hnot, -⟩
    refine hnot ?_
    exact units_mem_alphabet hchars c (List.mem_of_getElem? hc)

/-- What a string decodes to, if it does, and what it is the encoding of. -/
theorem eq_of_decode58Check_returns {s : JavaArray UInt16} {p : List UInt8}
    (h : Returns (fun n => decode58Check n s.elems) (some p)) :
    p ≠ [] ∧ s.elems = units (Base58.encode58Check p) := by
  rcases (decode58Check_total s).of_returns h with ⟨hlegal, hdecode⟩
  rcases decode58Check_eq_some_iff.mp hdecode with ⟨hp, hs⟩
  exact ⟨hp, by rw [← hs, units_javaString hlegal]⟩

/-- Base58Check is a bijection between the non-empty arrays of less than `2 ^ 30 - 4` bytes
    and the strings that they have. No two arrays have one string, and no two strings one
    array, whatever the lengths. -/
theorem base58Check_arrays :
    (∀ p : JavaArray UInt8, p.elems ≠ [] → p.elems.length + 4 < 2 ^ 30 →
      Returns (fun n => do decode58Check n (units (← encode58Check n p.elems))) (some p.elems)) ∧
    (∀ (s : JavaArray UInt16) (p : JavaArray UInt8), (∀ c ∈ s.elems, c ∈ alphabet) →
      Returns (fun n => decode58Check n s.elems) (some p.elems) → p.elems.length + 4 < 2 ^ 30 →
        ∃ t, Returns (fun n => encode58Check n p.elems) t ∧ units t = s.elems) ∧
    (∀ (p q : JavaArray UInt8) (t : String), Returns (fun n => encode58Check n p.elems) t →
      Returns (fun n => encode58Check n q.elems) t → p.elems = q.elems) ∧
    (∀ (s t : JavaArray UInt16) (p : JavaArray UInt8),
      Returns (fun n => decode58Check n s.elems) (some p.elems) →
        Returns (fun n => decode58Check n t.elems) (some p.elems) → s.elems = t.elems) := by
  refine ⟨fun p hp hlength => ?_, fun s p _ hs hlength => ?_, fun p q t hp hq => ?_,
    fun s t p hs ht => ?_⟩
  · refine Total.bind (encode58Check_returns hlength) ?_
    rintro _ rfl
    exact decode58Check_returns hp hlength
  · exact ⟨_, encode58Check_returns hlength, (eq_of_decode58Check_returns hs).2.symm⟩
  · have hp' := ((encode58Check_total p).of_returns hp).1
    have hq' := ((encode58Check_total q).of_returns hq).1
    exact encode58Check_injective (hp'.symm.trans hq')
  · rw [(eq_of_decode58Check_returns hs).2, (eq_of_decode58Check_returns ht).2]

end Base58.Buffers

section Examples

open Base58.Buffers Lib Java

/-- The string of an address is the one that it comes back from. -/
theorem base58Check_arrays_owner :
    Returns (fun n => do
      @decode58Check exampleCodec n (units (← @encode58Check exampleCodec n exampleOwner)))
      (some exampleOwner) ∧
    ∃ t, Returns (fun n => @encode58Check exampleCodec n exampleOwner) t ∧
      units t = units "TA4Wt1DUCqz6YegbnsmqsWC5uUfbdBqPxm" := by
  refine ⟨(@base58Check_arrays exampleCodec).1 ⟨exampleOwner, by decide⟩ (by decide) (by decide),
    ?_⟩
  have hencode : @Base58.encode58Check exampleCodec exampleOwner =
      "TA4Wt1DUCqz6YegbnsmqsWC5uUfbdBqPxm" := by decide +kernel
  have halphabet : ∀ c ∈ units "TA4Wt1DUCqz6YegbnsmqsWC5uUfbdBqPxm", c ∈ alphabet := by
    rw [← hencode]
    exact units_mem_alphabet (mem_ALPHABET_encode _)
  have hdecode : Returns (fun n => @decode58Check exampleCodec n
      (units "TA4Wt1DUCqz6YegbnsmqsWC5uUfbdBqPxm")) (some exampleOwner) := by
    rw [← hencode]
    exact @decode58Check_returns exampleCodec exampleOwner (by decide) (by decide)
  exact (@base58Check_arrays exampleCodec).2.1 ⟨_, by decide⟩ ⟨exampleOwner, by decide⟩ halphabet
    hdecode (by decide)

/-- The shortest array of zeros that has no string. -/
def longArray : JavaArray UInt8 where
  elems := List.replicate (2 ^ 30 - 4) 0
  length_lt := by
    rw [List.length_replicate]
    omega

/-- It is not decoded from its string, there being none. -/
theorem not_base58Check_bijective_long : ¬ ∀ p : JavaArray UInt8, p.elems ≠ [] →
    Returns (fun n => do
      @decode58Check exampleCodec n (units (← @encode58Check exampleCodec n p.elems)))
      (some p.elems) := by
  intro h
  have hlength : longArray.elems.length = 2 ^ 30 - 4 := List.length_replicate ..
  have hne : longArray.elems ≠ [] := by
    intro hnil
    rw [hnil, List.length_nil] at hlength
    omega
  have hnone : Total (fun n => @encode58Check exampleCodec n longArray.elems) (fun _ => False)
      fun _ => True := by
    refine (@encode58Check_total exampleCodec longArray).mono ?_ fun _ _ => trivial
    rintro _ ⟨-, hshort⟩
    rw [hlength] at hshort
    omega
  have hbind : Total (fun n => do
      @decode58Check exampleCodec n (units (← @encode58Check exampleCodec n longArray.elems)))
      (fun _ => False) fun _ => True :=
    Total.bind hnone fun _ h => h.elim
  exact hbind.of_returns (h longArray hne)

end Examples

end Tronscan
