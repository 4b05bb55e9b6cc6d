import Tronscan.Core.Encoding
import Tronscan.Lib.Numeral

/-!
# Base58Check Read Back

The decoder of `Base58`, and what the encoder and the decoder compute.

Both run division passes over a list of digits until the digits left to divide
are gone, the encoder from base 256 to base 58 and the decoder back. A pass
moves its start on by one when it leaves a zero there. `divmodFrom_pass` says
once what a pass does, and with it each loop is the change of base of
`Lib.convert`, whatever the number of zeros in front of, or within, the digits.

Neither output buffer is ever too short. A pass of the decoder always moves the
start on, since a digit in base 58 is less than 256. The encoder may need two
passes for a byte and no more, since the first leaves less than 58.

## Main definitions

* `Base58.decode`: The bytes of a string, unless a character is illegal.
* `Base58.decode58Check`: The bytes before the checksum, if it is right.
* `decodeAddress`: The bytes of an address.

## Theorems

* `Base58.encode_eq`: Encoding is a change of base.
* `Base58.decode_eq`: Decoding is the change of base the other way.
* `Base58.decode_eq_some_iff`: A string decodes to what it is the encoding of.
* `Base58.decode58Check_eq_some_iff`: The same with checksum.
-/

namespace Tronscan

namespace Base58

open Lib

/-- `Base58.INDEXES`. -/
def INDEXES : List Int :=
  ALPHABET.zipIdx.foldl (fun indexes x => indexes.set x.1.toNat x.2) (List.replicate 128 (-1))

/-- The digit a character stands for, or a negative number. -/
def digit58 (c : Char) : Int :=
  if c.toNat < 128 then INDEXES.getD c.toNat (-1) else -1

/-- The digits of a string. An illegal character throws. -/
def input58 (input : List Char) : Option (List UInt8) :=
  input.mapM fun c => if digit58 c < 0 then none else some (UInt8.ofNat (digit58 c).toNat)

/-- `divmod256`: divide the number in place, from the digit `startAt` on. -/
def divmod256 (number58 : List UInt8) (startAt : Nat) : List UInt8 × Nat :=
  let tail := divmodFrom 58 256 0 (number58.drop startAt)
  (number58.take startAt ++ tail.1, tail.2)

/-- The decoding loop. `j` counts the free bytes of the output buffer; writing
    without one left would throw. -/
def decodeLoop : Nat → List UInt8 → Nat → List UInt8 → Option (List UInt8)
  | 0, input58, startAt, temp => if startAt < input58.length then none else some temp
  | j + 1, input58, startAt, temp =>
      if startAt < input58.length then
        let next := divmod256 input58 startAt
        let startAt' := if next.1.getD startAt 0 = 0 then startAt + 1 else startAt
        decodeLoop j next.1 startAt' (UInt8.ofNat next.2 :: temp)
      else some temp

/-- The bytes of a string, unless decoding throws. -/
def decode (input : String) : Option Bytes :=
  if input = "" then some [] else do
    let input58 ← input58 input.toList
    let zeroCount := (input58.takeWhile (· = 0)).length
    let temp ← decodeLoop input58.length input58 zeroCount []
    -- What is left of the buffer in front of `temp` is zero.
    return List.replicate zeroCount 0 ++ temp.dropWhile (· = 0)

variable [Codec]

/-- The bytes before the checksum, or `null` if there is no right one. -/
def decode58Check (input : String) : Option (Option Bytes) := do
  let decodeCheck ← decode input
  if decodeCheck.length ≤ 4 then return none
  let decodeData := decodeCheck.take (decodeCheck.length - 4)
  let hash1 := Codec.sha256 (Codec.sha256 decodeData)
  return if hash1.take 4 = decodeCheck.drop decodeData.length then some decodeData else none

end Base58

/-- `StringUtils.decodeAddress`. Copying from `null` throws. -/
def decodeAddress [Codec] (str : String) : Option Bytes := (Base58.decode58Check str).join

namespace Base58

open Lib

/-! ## The alphabet -/

theorem digit58_ALPHABET : ∀ d < 58, digit58 (ALPHABET.getD d '1') = d := by decide +kernel

theorem ALPHABET_digit58 (c : Char) (hc : 0 ≤ digit58 c) :
    (digit58 c).toNat < 58 ∧ ALPHABET.getD (digit58 c).toNat '1' = c := by
  have htable : ∀ n < 128, 0 ≤ INDEXES.getD n (-1) →
      (INDEXES.getD n (-1)).toNat < 58 ∧
        (ALPHABET.getD (INDEXES.getD n (-1)).toNat '1').toNat = n := by decide +kernel
  unfold digit58 at hc ⊢
  by_cases hn : c.toNat < 128
  · rw [if_pos hn] at hc ⊢
    rcases htable c.toNat hn hc with ⟨hlt, hchar⟩
    exact ⟨hlt, Char.toNat_inj.mp hchar⟩
  · rw [if_neg hn] at hc
    exact absurd hc (by decide)

/-! ## A division pass -/

/-- The digits in a list of bytes. -/
def digits (number : List UInt8) : List Nat := number.map (·.toNat)

theorem digits_injective {a b : List UInt8} (h : digits a = digits b) : a = b :=
  List.map_injective_iff.mpr (fun _ _ h => UInt8.toNat_inj.mp h) h

theorem digits_ofNat {ds : List Nat} (hds : ∀ d ∈ ds, d < 256) :
    digits (ds.map UInt8.ofNat) = ds := by
  unfold digits
  rw [List.map_map]
  conv_rhs => rw [← List.map_id ds]
  refine List.map_congr_left fun d hd => ?_
  rw [Function.comp, UInt8.toNat_ofNat', Nat.mod_eq_of_lt (hds d hd), id]

theorem digits_lt (number : List UInt8) : ∀ d ∈ digits number, d < 256 := by
  intro d hd
  rcases List.mem_map.mp hd with ⟨byte, -, rfl⟩
  exact byte.toNat_lt

section Pass

variable {base divisor : Nat}

/-- The bytes hold the quotient, since its digits are digits in the same base. -/
theorem divmodFrom_eq (hbase : base ≤ 256) (number : List UInt8)
    (hdigits : ∀ d ∈ digits number, d < base) (r : Nat) (hr : r < divisor) :
    digits (divmodFrom base divisor r number).1 = (longDivision base divisor r (digits number)).1 ∧
      (divmodFrom base divisor r number).2 = (longDivision base divisor r (digits number)).2 := by
  induction number generalizing r with
  | nil => exact ⟨rfl, rfl⟩
  | cons d number ih =>
      have hrest := ih (fun e he => hdigits e (List.mem_cons_of_mem _ he))
        ((r * base + d.toNat) % divisor) (Nat.mod_lt _ (by omega))
      have hquotient : (r * base + d.toNat) / divisor < base :=
        longDivision_digits hr hdigits _ List.mem_cons_self
      refine ⟨?_, hrest.2⟩
      unfold digits at hrest ⊢
      simp only [divmodFrom, longDivision, List.map_cons, hrest.1, UInt8.toNat_ofNat',
        Nat.mod_eq_of_lt (Nat.lt_of_lt_of_le hquotient hbase)]

theorem length_divmodFrom (r : Nat) (number : List UInt8) :
    (divmodFrom base divisor r number).1.length = number.length := by
  induction number generalizing r with
  | nil => rfl
  | cons d number ih =>
      unfold divmodFrom
      rw [List.length_cons, List.length_cons, ih]

/-- A pass starts without a remainder, so the first digit is divided alone. -/
theorem divmodFrom_cons (d : UInt8) (ds : List UInt8) :
    (divmodFrom base divisor 0 (d :: ds)).1 =
      UInt8.ofNat (d.toNat / divisor) :: (divmodFrom base divisor (d.toNat % divisor) ds).1 := by
  simp only [divmodFrom, Nat.zero_mul, Nat.zero_add]

theorem toNat_ofNat_div (d : UInt8) (divisor : Nat) :
    (UInt8.ofNat (d.toNat / divisor)).toNat = d.toNat / divisor := by
  rw [UInt8.toNat_ofNat', Nat.mod_eq_of_lt]
  exact Nat.lt_of_le_of_lt (Nat.div_le_self _ _) d.toNat_lt

/-- What a pass does: it divides the number, and the digits left to divide are
    either one fewer, or as many with a smaller first. -/
theorem divmodFrom_pass (hbase : base ≤ 256) (hdivisor : 0 < divisor) (done : List UInt8)
    (d : UInt8) (ds : List UInt8) (hdigits : ∀ e ∈ digits (d :: ds), e < base) :
    ∃ done' left : List UInt8,
      done ++ (divmodFrom base divisor 0 (d :: ds)).1 = done' ++ left ∧
      (if (done ++ (divmodFrom base divisor 0 (d :: ds)).1).getD done.length 0 = 0
        then done.length + 1 else done.length) = done'.length ∧
      (∀ e ∈ digits left, e < base) ∧
      (divmodFrom base divisor 0 (d :: ds)).2 < divisor ∧
      value base (digits left) * divisor + (divmodFrom base divisor 0 (d :: ds)).2 =
        value base (digits (d :: ds)) ∧
      (left.length = ds.length ∨
        left.length = ds.length + 1 ∧ divisor ≤ d.toNat ∧
          (left.headD 0).toNat = d.toNat / divisor) := by
  rcases divmodFrom_eq hbase (d :: ds) hdigits 0 hdivisor with ⟨hquotient, hremainder⟩
  have hlt := longDivision_digits hdivisor hdigits
  have hvalue := value_longDivision base divisor 0 (digits (d :: ds))
  rw [← hquotient] at hlt hvalue
  rw [← hremainder, Nat.zero_mul, Nat.zero_add] at hvalue
  have hrem : (divmodFrom base divisor 0 (d :: ds)).2 < divisor :=
    hremainder ▸ longDivision_lt hdivisor (digits (d :: ds))
  have hlength : (divmodFrom base divisor (d.toNat % divisor) ds).1.length = ds.length :=
    length_divmodFrom _ _
  rw [divmodFrom_cons] at hlt hvalue ⊢
  generalize divmodFrom base divisor (d.toNat % divisor) ds = tail at hlength hlt hvalue ⊢
  have hget : (done ++ UInt8.ofNat (d.toNat / divisor) :: tail.1).getD done.length 0 =
      UInt8.ofNat (d.toNat / divisor) := by
    simp only [List.getD_eq_getElem?_getD, List.getElem?_append_right (Nat.le_refl _),
      Nat.sub_self, List.getElem?_cons_zero, Option.getD_some]
  rw [hget]
  by_cases hzero : d.toNat / divisor = 0
  · -- The leading digit is gone.
    rw [hzero] at hlt hvalue ⊢
    refine ⟨done ++ [0], tail.1, by simp, by simp, ?_, hrem, ?_, .inl hlength⟩
    · exact fun e he => hlt e (List.mem_cons_of_mem _ he)
    · simpa [digits] using hvalue
  · have hne : UInt8.ofNat (d.toNat / divisor) ≠ 0 := by
      intro h
      have htoNat := toNat_ofNat_div d divisor
      rw [h] at htoNat
      exact hzero htoNat.symm
    refine ⟨done, _, rfl, by rw [if_neg hne], hlt, hrem, hvalue, .inr ⟨by simp [hlength], ?_, ?_⟩⟩
    · by_contra hle
      exact hzero (Nat.div_eq_of_lt (by omega))
    · rw [List.headD_cons, toNat_ofNat_div]

end Pass

/-! ## The loops -/

theorem divmod58_append (done left : List UInt8) :
    divmod58 (done ++ left) done.length =
      (done ++ (divmodFrom 256 58 0 left).1, (divmodFrom 256 58 0 left).2) := by
  simp [divmod58]

theorem divmod256_append (done left : List UInt8) :
    divmod256 (done ++ left) done.length =
      (done ++ (divmodFrom 58 256 0 left).1, (divmodFrom 58 256 0 left).2) := by
  simp [divmod256]

/-- A pass of the encoder takes one place of its output, and either a byte is gone or
    its first byte is less than 58 from now on. -/
theorem encode_room {c j : Nat} {d : UInt8} {ds left : List UInt8}
    (hroom : 2 * (d :: ds).length + c ≤ j + 1 + if d.toNat < 58 then 1 else 0)
    (hleft : left.length = ds.length ∨
      left.length = ds.length + 1 ∧ 58 ≤ d.toNat ∧ (left.headD 0).toNat = d.toNat / 58) :
    2 * left.length + c ≤ j + if (left.headD 0).toNat < 58 then 1 else 0 := by
  rw [List.length_cons] at hroom
  rcases hleft with hleft | ⟨hleft, hd, hhead⟩
  · rw [hleft]
    split at hroom <;> omega
  · -- The first byte was 58 at least, and is now less.
    have hbyte := d.toNat_lt
    rw [if_neg (by omega)] at hroom
    rw [hleft, hhead, if_pos (by omega)]
    omega

/-- The encoding loop writes the digits in base 58. There is room for two
    passes a byte, one of which is not needed when the first byte is small. -/
theorem encodeLoop_eq (j : Nat) (done left : List UInt8) (temp : List Char)
    (hroom : 2 * left.length ≤ j + if (left.headD 0).toNat < 58 then 1 else 0) :
    ∃ ds : List Nat, (∀ d ∈ ds, d < 58) ∧ value 58 ds = value 256 (digits left) ∧
      encodeLoop j (done ++ left) done.length temp = ds.map (ALPHABET.getD · '1') ++ temp := by
  induction j generalizing done left temp with
  | zero =>
      have hleft : left = [] := List.length_eq_zero_iff.mp (by split at hroom <;> omega)
      subst hleft
      exact ⟨[], by simp, rfl, rfl⟩
  | succ j ih =>
      rcases left with _ | ⟨d, ds⟩
      · exact ⟨[], by simp, rfl, by simp [encodeLoop]⟩
      rcases divmodFrom_pass (by omega : 256 ≤ 256) (by omega : 0 < 58) done d ds
        (digits_lt _) with ⟨done', left', hnumber, hstart, -, hrem, hvalue, hleft⟩
      have hroom' : 2 * left'.length ≤ j + if (left'.headD 0).toNat < 58 then 1 else 0 :=
        encode_room (c := 0) hroom hleft
      rcases ih done' left' (ALPHABET.getD (divmodFrom 256 58 0 (d :: ds)).2 '1' :: temp) hroom'
        with ⟨rest, hrest, hsame, hloop⟩
      -- The remainder is the last digit, since the buffer is filled from its end.
      refine ⟨rest ++ [(divmodFrom 256 58 0 (d :: ds)).2], ?_, ?_, ?_⟩
      · intro e he
        rcases List.mem_append.mp he with he | he
        · exact hrest e he
        · exact List.mem_singleton.mp he ▸ hrem
      · rw [value_concat, hsame, hvalue]
      · rw [encodeLoop, if_pos (by simp), divmod58_append]
        dsimp only
        rw [hstart, hnumber, hloop]
        simp

/-- The decoding loop writes the digits in base 256, and has room for a pass a
    digit. -/
theorem decodeLoop_eq (j : Nat) (done left temp : List UInt8) (hroom : left.length ≤ j)
    (hdigits : ∀ d ∈ digits left, d < 58) :
    ∃ ds : List UInt8, value 256 (digits ds) = value 58 (digits left) ∧
      decodeLoop j (done ++ left) done.length temp = some (ds ++ temp) := by
  induction j generalizing done left temp with
  | zero =>
      have hleft : left = [] := List.length_eq_zero_iff.mp (by omega)
      subst hleft
      exact ⟨[], rfl, by simp [decodeLoop]⟩
  | succ j ih =>
      rcases left with _ | ⟨d, ds⟩
      · exact ⟨[], rfl, by simp [decodeLoop]⟩
      rcases divmodFrom_pass (by omega : 58 ≤ 256) (by omega : 0 < 256) done d ds hdigits
        with ⟨done', left', hnumber, hstart, hlt, hrem, hvalue, hleft⟩
      have hroom' : left'.length ≤ j := by
        rw [List.length_cons] at hroom
        rcases hleft with hleft | ⟨-, hd, -⟩
        · omega
        · -- A digit is less than 256, so the pass cannot leave it standing.
          have := hdigits d.toNat List.mem_cons_self
          omega
      rcases ih done' left' (UInt8.ofNat (divmodFrom 58 256 0 (d :: ds)).2 :: temp) hroom' hlt
        with ⟨rest, hsame, hloop⟩
      refine ⟨rest ++ [UInt8.ofNat (divmodFrom 58 256 0 (d :: ds)).2], ?_, ?_⟩
      · unfold digits at hsame hvalue ⊢
        rw [List.map_append, List.map_singleton, value_concat, hsame, UInt8.toNat_ofNat',
          Nat.mod_eq_of_lt hrem, hvalue]
      · rw [decodeLoop, if_pos (by simp), divmod256_append]
        dsimp only
        rw [hstart, hnumber, hloop]
        simp

/-! ## The change of base -/

theorem takeWhile_digits (number : List UInt8) :
    (number.takeWhile (· = 0)).length = leadingZeros (digits number) := by
  unfold leadingZeros digits
  rw [List.takeWhile_map, List.length_map]
  congr 2
  funext d
  simp [← UInt8.toNat_inj]

theorem dropWhile_digits (number : List UInt8) :
    digits (number.dropWhile (· = 0)) = (digits number).dropWhile (· = 0) := by
  unfold digits
  rw [List.dropWhile_map]
  congr 2
  funext d
  simp [← UInt8.toNat_inj]

/-- The leading zeros add nothing to the number. -/
theorem value_dropWhile (b : Nat) (number : List UInt8) :
    value b (digits (number.dropWhile (· = 0))) = value b (digits number) := by
  rw [dropWhile_digits]
  conv_rhs => rw [← replicate_leadingZeros (digits number)]
  rw [value_replicate_zero]

/-- The digit with the first character is the zero. -/
theorem dropWhile_ALPHABET {ds : List Nat} (hds : ∀ d ∈ ds, d < 58) :
    (ds.map (ALPHABET.getD · '1')).dropWhile (· = '1') =
      (ds.dropWhile (· = 0)).map (ALPHABET.getD · '1') := by
  have hone : digit58 '1' = 0 := digit58_ALPHABET 0 (by omega)
  induction ds with
  | nil => rfl
  | cons d ds ih =>
      by_cases hd : d = 0
      · rw [List.map_cons, hd, List.dropWhile_cons_of_pos (by decide),
          List.dropWhile_cons_of_pos (by decide), ih fun e he => hds e (List.mem_cons_of_mem d he)]
      · have hchar : ALPHABET.getD d '1' ≠ '1' := by
          intro h
          have := digit58_ALPHABET d (hds d List.mem_cons_self)
          rw [h, hone] at this
          omega
        rw [List.map_cons, List.dropWhile_cons_of_neg (by simpa using hchar),
          List.dropWhile_cons_of_neg (by simpa using hd), List.map_cons]

/-- Encoding is the change of base from 256 to 58, leading zeros kept. -/
theorem encode_eq (input : Bytes) :
    encode input = String.ofList ((convert 256 58 (digits input)).map (ALPHABET.getD · '1')) := by
  by_cases hinput : input = []
  · subst hinput
    simp [encode, convert, digits, leadingZeros, numeral]
  -- The loop starts at the first byte that is not zero.
  have hsplit := List.takeWhile_append_dropWhile (p := fun d : UInt8 => decide (d = 0)) (l := input)
  have hroom : 2 * (input.dropWhile (· = 0)).length ≤ 2 * input.length +
      if ((input.dropWhile (· = 0)).headD 0).toNat < 58 then 1 else 0 := by
    have := congrArg List.length hsplit
    rw [List.length_append] at this
    omega
  rcases encodeLoop_eq (2 * input.length) (input.takeWhile (· = 0)) (input.dropWhile (· = 0)) []
    hroom with ⟨ds, hds, hvalue, hloop⟩
  rw [hsplit, List.append_nil] at hloop
  rw [encode, if_neg hinput]
  dsimp only
  rw [hloop, dropWhile_ALPHABET hds, ← numeral_value (by omega) hds, hvalue, value_dropWhile,
    takeWhile_digits, convert, List.map_append, List.map_replicate]
  rfl

/-- A character in front is a digit in front. -/
theorem input58_cons {c : Char} {cs : List Char} {number : List UInt8} :
    input58 (c :: cs) = some number ↔
      0 ≤ digit58 c ∧ ∃ rest, input58 cs = some rest ∧
        number = UInt8.ofNat (digit58 c).toNat :: rest := by
  unfold input58
  rw [List.mapM_cons]
  by_cases hc : digit58 c < 0
  · rw [if_pos hc]
    exact iff_of_false (fun h => by cases h) fun h => absurd h.1 (not_le.mpr hc)
  · rw [if_neg hc, and_iff_right (not_lt.mp hc)]
    simp only [Option.pure_def, Option.bind_eq_bind, Option.bind_some, Option.bind_eq_some_iff,
      Option.some.injEq, eq_comm (b := number)]

/-- The digits of a string, which has to be over the alphabet. -/
theorem input58_eq_some {cs : List Char} {number : List UInt8} :
    input58 cs = some number ↔
      (∀ d ∈ digits number, d < 58) ∧ cs = (digits number).map (ALPHABET.getD · '1') := by
  induction cs generalizing number with
  | nil =>
      constructor
      · intro h
        cases h
        exact ⟨by simp [digits], rfl⟩
      · rintro ⟨-, h⟩
        rw [List.map_eq_nil_iff.mp (List.map_eq_nil_iff.mp h.symm)]
        rfl
  | cons c cs ih =>
      rw [input58_cons]
      constructor
      · rintro ⟨hc, rest, hrest, rfl⟩
        rcases ALPHABET_digit58 c hc with ⟨hlt, hchar⟩
        rcases ih.mp hrest with ⟨hdigits, hcs⟩
        have hd : digits (UInt8.ofNat (digit58 c).toNat :: rest) =
            (digit58 c).toNat :: digits rest := by
          unfold digits
          rw [List.map_cons, UInt8.toNat_ofNat', Nat.mod_eq_of_lt (by omega)]
        rw [hd, List.map_cons, hchar, ← hcs]
        refine ⟨fun e he => ?_, rfl⟩
        rcases List.mem_cons.mp he with rfl | he
        · exact hlt
        · exact hdigits e he
      · rintro ⟨hdigits, hcs⟩
        rcases number with _ | ⟨d, number⟩
        · cases hcs
        rcases List.cons.inj hcs with ⟨hc, hcs⟩
        have hd := digit58_ALPHABET d.toNat (hdigits d.toNat List.mem_cons_self)
        rw [hc, hd]
        refine ⟨by omega, number, ?_, ?_⟩
        · exact ih.mpr ⟨fun e he => hdigits e (List.mem_cons_of_mem _ he), hcs⟩
        · rw [Int.toNat_natCast, UInt8.ofNat_toNat]

/-- Decoding is the change of base from 58 to 256, leading zeros kept. -/
theorem decode_eq {s : String} {number : List UInt8} (hs : input58 s.toList = some number) :
    ∃ bytes, decode s = some bytes ∧ digits bytes = convert 58 256 (digits number) := by
  have hdigits := (input58_eq_some.mp hs).1
  unfold decode
  by_cases hempty : s = ""
  · subst hempty
    cases hs
    exact ⟨[], rfl, by simp [convert, digits, leadingZeros, numeral]⟩
  have hsplit := List.takeWhile_append_dropWhile (p := fun d : UInt8 => decide (d = 0))
    (l := number)
  have hroom : (number.dropWhile (· = 0)).length ≤ number.length := by
    have := congrArg List.length hsplit
    rw [List.length_append] at this
    omega
  have hleft : ∀ d ∈ digits (number.dropWhile (· = 0)), d < 58 := by
    intro d hd
    rw [dropWhile_digits] at hd
    exact hdigits d ((List.dropWhile_sublist _).subset hd)
  rcases decodeLoop_eq number.length (number.takeWhile (· = 0)) (number.dropWhile (· = 0)) [] hroom
    hleft with ⟨ds, hvalue, hloop⟩
  rw [hsplit, List.append_nil] at hloop
  refine ⟨List.replicate (number.takeWhile (· = 0)).length 0 ++ ds.dropWhile (· = 0), ?_, ?_⟩
  · rw [if_neg hempty, hs]
    simp only [Option.bind_eq_bind, Option.bind_some, hloop]
    rfl
  · unfold convert
    rw [← value_dropWhile 58 number, ← hvalue, numeral_value (by omega) (digits_lt ds),
      ← dropWhile_digits, takeWhile_digits]
    simp [digits]

theorem decode_eq_none {s : String} (hs : input58 s.toList = none) : decode s = none := by
  have hempty : s ≠ "" := by
    rintro rfl
    cases hs
  rw [decode, if_neg hempty, hs]
  rfl

/-- A string decodes to exactly the bytes that it is the encoding of. -/
theorem decode_eq_some_iff {s : String} {bytes : Bytes} :
    decode s = some bytes ↔ s = encode bytes := by
  constructor
  · intro h
    rcases hs : input58 s.toList with _ | number
    · rw [decode_eq_none hs] at h
      cases h
    rcases decode_eq hs with ⟨bytes', hbytes', hdigits⟩
    -- Changing the base back gives the digits of the string, and they its characters.
    cases Option.some.inj (hbytes'.symm.trans h)
    rcases input58_eq_some.mp hs with ⟨hlt, hchars⟩
    rw [encode_eq, hdigits, convert_convert (by omega) (by omega) hlt, ← hchars, String.ofList_toList]
  · rintro rfl
    have hlt : ∀ d ∈ convert 256 58 (digits bytes), d < 58 := convert_lt (by omega)
    have hnumber : digits ((convert 256 58 (digits bytes)).map UInt8.ofNat) =
        convert 256 58 (digits bytes) :=
      digits_ofNat fun d hd => by have := hlt d hd; omega
    have hs : input58 (encode bytes).toList =
        some ((convert 256 58 (digits bytes)).map UInt8.ofNat) := by
      rw [input58_eq_some, hnumber, encode_eq, String.toList_ofList]
      exact ⟨hlt, rfl⟩
    rcases decode_eq hs with ⟨bytes', hbytes', hdigits⟩
    rw [hnumber, convert_convert (by omega) (by omega) (digits_lt bytes)] at hdigits
    rw [hbytes', digits_injective hdigits]

variable [Codec]

/-- A string decodes to exactly the bytes that it is the encoding of, checksum
    included, and to no bytes at all if there are none before the checksum. -/
theorem decode58Check_eq_some_iff {s : String} {p : Bytes} :
    decode58Check s = some (some p) ↔ p ≠ [] ∧ s = encode58Check p := by
  have hchecksum : ∀ b : Bytes, ((Codec.sha256 b).take 4).length = 4 := by
    intro b
    rw [List.length_take, Codec.sha256_length]
    rfl
  unfold decode58Check encode58Check
  constructor
  · intro h
    rcases Option.bind_eq_some_iff.mp h with ⟨decodeCheck, hdecode, h⟩
    split at h
    · cases h
    rename_i hlength
    have hdata : (decodeCheck.take (decodeCheck.length - 4)).length = decodeCheck.length - 4 := by
      rw [List.length_take]
      omega
    dsimp only at h
    rw [hdata] at h
    split at h
    · rename_i hhash
      cases h
      -- More than the checksum was decoded, so something is left of it.
      refine ⟨?_, ?_⟩
      · intro hnil
        rw [hnil, List.length_nil] at hdata
        omega
      · rw [hhash, List.take_append_drop]
        exact decode_eq_some_iff.mp hdecode
    · cases h
  · rintro ⟨hp, hs⟩
    have hpos := List.length_pos_iff.mpr hp
    rw [decode_eq_some_iff.mpr hs]
    simp only [Option.bind_eq_bind, Option.bind_some, List.length_append, hchecksum,
      Nat.add_sub_cancel, List.take_left', List.drop_left', if_neg (show ¬p.length + 4 ≤ 4 by omega),
      Option.pure_def, if_true]

end Base58

end Tronscan
