import Mathlib.Data.Nat.Digits.Lemmas

/-!
# Numerals and Change of Base

Big-endian numerals with leading zeros, and the conversion between two bases
that keeps them.

A list of digits is more than a number, since it may start with zeros.
`convert` writes the number in another base and puts as many zeros in front as
there were, so it loses nothing: converting back gives the list. This is the
format of the Base58 family, whichever two bases are meant.

Where numbers are kept in fields of a fixed width, the zeros in front are not
data. `padded` is the numeral in such a field, and any digits that fill the field
and have the value of a number are its numeral there.

A program with no big integers gets at the digits by dividing the list itself.
`longDivision` is one pass of that, and `value_longDivision` what it does to the
number. The remainders of such passes, last one first, are the numeral in the
other base.

## Main definitions

* `value`: The number a list of digits stands for.
* `numeral`: The digits of a number, without leading zeros.
* `convert`: The change of base that keeps the leading zeros.
* `padded`: The digits of a number in a field of a fixed width.
* `longDivision`: One pass of division over a list of digits.

## Theorems

* `numeral_value`: A numeral is its digits less the leading zeros.
* `convert_convert`: Converting there and back gives the same list.
* `padded_value`, `value_padded`: Numbers and the digits that fill a field.
* `numeral_eq_cons`: The numbers whose numeral has a given first digit and length.
* `value_longDivision`: A pass divides the number.
-/

namespace Lib

/-- The number a list of digits stands for, the first digit weighing most. -/
def value (b : ℕ) (ds : List ℕ) : ℕ :=
  Nat.ofDigits b ds.reverse

/-- The digits of a number, without leading zeros. -/
def numeral (b n : ℕ) : List ℕ :=
  (Nat.digits b n).reverse

/-- The zeros a list of digits starts with. -/
def leadingZeros (ds : List ℕ) : ℕ :=
  (ds.takeWhile (· = 0)).length

/-- The same number in base `c`, with the same leading zeros. -/
def convert (b c : ℕ) (ds : List ℕ) : List ℕ :=
  List.replicate (leadingZeros ds) 0 ++ numeral c (value b ds)

section Value

variable (b : ℕ)

@[simp] theorem value_nil : value b [] = 0 := rfl

@[simp] theorem value_cons (d : ℕ) (ds : List ℕ) :
    value b (d :: ds) = d * b ^ ds.length + value b ds := by
  unfold value
  rw [Nat.ofDigits_reverse_cons, Nat.add_comm, Nat.mul_comm]

@[simp] theorem value_concat (ds : List ℕ) (d : ℕ) :
    value b (ds ++ [d]) = value b ds * b + d := by
  unfold value
  rw [List.reverse_append, List.reverse_singleton, List.singleton_append, Nat.ofDigits_cons,
    Nat.add_comm, Nat.mul_comm]

@[simp] theorem value_replicate_zero (n : ℕ) (ds : List ℕ) :
    value b (List.replicate n 0 ++ ds) = value b ds := by
  induction n with
  | zero => simp
  | succ n ih => simp [List.replicate_succ, ih]

@[simp] theorem value_numeral (n : ℕ) : value b (numeral b n) = n := by
  simp [value, numeral, Nat.ofDigits_digits]

end Value

variable {b c : ℕ} {ds : List ℕ}

theorem value_lt (hb : 1 < b) (hds : ∀ d ∈ ds, d < b) : value b ds < b ^ ds.length := by
  unfold value
  rw [← List.length_reverse]
  exact Nat.ofDigits_lt_base_pow_length hb fun d hd => hds d (List.mem_reverse.mp hd)

theorem numeral_lt (hb : 1 < b) (n : ℕ) : ∀ d ∈ numeral b n, d < b := by
  intro d hd
  exact Nat.digits_lt_base hb (List.mem_reverse.mp hd)

/-- A number's numeral is any list of its digits, less the leading zeros. -/
theorem numeral_value (hb : 1 < b) (hds : ∀ d ∈ ds, d < b) :
    numeral b (value b ds) = ds.dropWhile (· = 0) := by
  induction ds with
  | nil => simp [numeral]
  | cons d ds ih =>
      by_cases hd : d = 0
      · rw [value_cons, hd, Nat.zero_mul, Nat.zero_add,
          ih fun e he => hds e (List.mem_cons_of_mem d he)]
        simp
      · -- The first digit is not zero, so the list is the numeral.
        have hlast : ∀ h : (d :: ds).reverse ≠ [], (d :: ds).reverse.getLast h ≠ 0 := by
          intro h
          simpa using hd
        unfold numeral value
        rw [Nat.digits_ofDigits b hb _ (fun e he => hds e (List.mem_reverse.mp he)) hlast]
        simp [hd]

/-- A numeral does not start with a zero. -/
theorem leadingZeros_numeral (hb : 1 < b) (n : ℕ) : leadingZeros (numeral b n) = 0 := by
  have hdrop := numeral_value hb (numeral_lt hb n)
  rw [value_numeral] at hdrop
  have hlength := congrArg List.length (List.takeWhile_append_dropWhile (p := fun d => decide (d = 0))
    (l := numeral b n))
  rw [List.length_append, ← hdrop] at hlength
  unfold leadingZeros
  omega

theorem leadingZeros_replicate (n : ℕ) (ds : List ℕ) :
    leadingZeros (List.replicate n 0 ++ ds) = n + leadingZeros ds := by
  induction n with
  | zero => simp
  | succ n ih =>
      unfold leadingZeros at ih ⊢
      simp only [List.replicate_succ, List.cons_append, List.takeWhile_cons, decide_true, if_true,
        List.length_cons, ih]
      omega

theorem replicate_leadingZeros (ds : List ℕ) :
    List.replicate (leadingZeros ds) 0 ++ ds.dropWhile (· = 0) = ds := by
  induction ds with
  | nil => simp [leadingZeros]
  | cons d ds ih =>
      by_cases hd : d = 0
      · unfold leadingZeros at ih ⊢
        simp [hd, List.replicate_succ, ih]
      · simp [leadingZeros, hd]

theorem convert_lt (hc : 1 < c) : ∀ d ∈ convert b c ds, d < c := by
  intro d hd
  rcases List.mem_append.mp hd with h | h
  · rw [List.eq_of_mem_replicate h]
    omega
  · exact numeral_lt hc _ d h

/-- Nothing is lost by a change of base that keeps the leading zeros. -/
theorem convert_convert (hb : 1 < b) (hc : 1 < c) (hds : ∀ d ∈ ds, d < b) :
    convert c b (convert b c ds) = ds := by
  have hzeros : leadingZeros (convert b c ds) = leadingZeros ds := by
    unfold convert
    rw [leadingZeros_replicate, leadingZeros_numeral hc, Nat.add_zero]
  have hvalue : value c (convert b c ds) = value b ds := by
    unfold convert
    rw [value_replicate_zero, value_numeral]
  rw [convert, hzeros, hvalue, numeral_value hb hds, replicate_leadingZeros]

/-- The digits of a number in a field of `n` digits: its last ones, or zeros and all
    of them. -/
def padded (b : ℕ) : ℕ → ℕ → List ℕ
  | 0, _ => []
  | n + 1, m => padded b n (m / b) ++ [m % b]

@[simp] theorem length_padded (b n m : ℕ) : (padded b n m).length = n := by
  induction n generalizing m with
  | zero => rfl
  | succ n ih => simp [padded, ih]

theorem padded_lt (hb : 0 < b) (n m : ℕ) : ∀ d ∈ padded b n m, d < b := by
  induction n generalizing m with
  | zero => exact fun d hd => absurd hd List.not_mem_nil
  | succ n ih =>
      intro d hd
      rcases List.mem_append.mp hd with hd | hd
      · exact ih _ d hd
      · rw [List.mem_singleton.mp hd]
        exact Nat.mod_lt m hb

/-- A field holds a number up to its size. -/
theorem value_padded (b n m : ℕ) : value b (padded b n m) = m % b ^ n := by
  induction n generalizing m with
  | zero => simp [padded, Nat.mod_one]
  | succ n ih =>
      unfold padded
      rw [value_concat, ih, Nat.pow_succ', Nat.mod_mul]
      ring

/-- Digits that fill a field are those of their number. -/
theorem padded_value (hds : ∀ d ∈ ds, d < b) : padded b ds.length (value b ds) = ds := by
  induction ds using List.reverseRecOn with
  | nil => rfl
  | append_singleton ds d ih =>
      have hd : d < b := hds d (by simp)
      rw [List.length_append, List.length_singleton, value_concat, padded,
        Nat.mul_comm, Nat.mul_add_div (by omega), Nat.mul_add_mod, Nat.div_eq_of_lt hd,
        Nat.mod_eq_of_lt hd, Nat.add_zero, ih fun e he => hds e (List.mem_append_left _ he)]

/-- A number has one numeral in a field. -/
theorem padded_eq (hds : ∀ d ∈ ds, d < b) {n m : ℕ} (hlength : ds.length = n)
    (hvalue : value b ds = m) : padded b n m = ds := by
  rw [← hlength, ← hvalue]
  exact padded_value hds

/-- In a wider field there are zeros in front. -/
theorem padded_of_lt {k n m : ℕ} (hb : 0 < b) (hk : k ≤ n) (hm : m < b ^ k) :
    padded b n m = List.replicate (n - k) 0 ++ padded b k m := by
  refine padded_eq (fun d hd => ?_) (by simp; omega) ?_
  · rcases List.mem_append.mp hd with hd | hd
    · rw [List.eq_of_mem_replicate hd]
      exact hb
    · exact padded_lt hb k m d hd
  · rw [value_replicate_zero, value_padded, Nat.mod_eq_of_lt hm]

/-- In a field that is one digit narrower the first digit is missing. -/
theorem padded_tail (b n m : ℕ) : (padded b (n + 1) m).tail = padded b n m := by
  induction n generalizing m with
  | zero => simp [padded]
  | succ n ih =>
      have hne : padded b (n + 1) (m / b) ≠ [] := by
        intro h
        have hlength := congrArg List.length h
        simp at hlength
      rw [padded, List.tail_append_of_ne_nil hne, ih, padded]

/-- From `k` times a power of the base up to the next multiple, the numerals start with
    `k` and are as long as the power says. -/
theorem numeral_eq_cons {k m n : ℕ} (hk : 0 < k) (hkb : k < b) (hlow : k * b ^ m ≤ n)
    (hhigh : n < (k + 1) * b ^ m) : numeral b n = k :: padded b m n := by
  have hfirst : n / b ^ m = k := Nat.div_eq_of_lt_le hlow hhigh
  have hvalue : value b (k :: padded b m n) = n := by
    rw [value_cons, length_padded, value_padded, ← hfirst, Nat.mul_comm]
    exact Nat.div_add_mod n (b ^ m)
  have hdigits : ∀ d ∈ k :: padded b m n, d < b := by
    intro d hd
    rcases List.mem_cons.mp hd with rfl | hd
    · exact hkb
    · exact padded_lt (by omega) m n d hd
  have hnumeral := numeral_value (by omega) hdigits
  rw [hvalue, List.dropWhile_cons_of_neg (by simp only [decide_eq_true_eq]; omega)] at hnumeral
  exact hnumeral

/-- One pass of division over the digits, with a remainder `r` brought in front
    of them: the digits of the quotient, and the remainder left. -/
def longDivision (b n : ℕ) : ℕ → List ℕ → List ℕ × ℕ
  | r, [] => ([], r)
  | r, d :: ds =>
      let rest := longDivision b n ((r * b + d) % n) ds
      ((r * b + d) / n :: rest.1, rest.2)

theorem length_longDivision (b n r : ℕ) (ds : List ℕ) :
    (longDivision b n r ds).1.length = ds.length := by
  induction ds generalizing r with
  | nil => rfl
  | cons d ds ih => simp [longDivision, ih]

theorem longDivision_lt {n r : ℕ} (hr : r < n) (ds : List ℕ) : (longDivision b n r ds).2 < n := by
  induction ds generalizing r with
  | nil => exact hr
  | cons d ds ih => exact ih (Nat.mod_lt _ (by omega))

/-- The quotient's digits are digits again. -/
theorem longDivision_digits {n r : ℕ} (hr : r < n) (hds : ∀ d ∈ ds, d < b) :
    ∀ q ∈ (longDivision b n r ds).1, q < b := by
  induction ds generalizing r with
  | nil => intro q hq; exact absurd hq List.not_mem_nil
  | cons d ds ih =>
      intro q hq
      rcases List.mem_cons.mp hq with rfl | hq
      · have hd : d < b := hds d List.mem_cons_self
        have hlt : r * b + d < n * b :=
          calc r * b + d < r * b + b := by omega
            _ = (r + 1) * b := by ring
            _ ≤ n * b := Nat.mul_le_mul_right b hr
        exact Nat.div_lt_of_lt_mul hlt
      · exact ih (Nat.mod_lt _ (by omega)) (fun e he => hds e (List.mem_cons_of_mem d he)) q hq

/-- A pass divides the number, the remainder in front of it included. -/
theorem value_longDivision (b n r : ℕ) (ds : List ℕ) :
    value b (longDivision b n r ds).1 * n + (longDivision b n r ds).2 =
      r * b ^ ds.length + value b ds := by
  induction ds generalizing r with
  | nil => simp [longDivision]
  | cons d ds ih =>
      have hstep := ih ((r * b + d) % n)
      have hdiv := Nat.div_add_mod (r * b + d) n
      simp only [longDivision, value_cons, length_longDivision, List.length_cons]
      calc ((r * b + d) / n * b ^ ds.length + value b (longDivision b n ((r * b + d) % n) ds).1) * n
            + (longDivision b n ((r * b + d) % n) ds).2
          = (r * b + d) / n * n * b ^ ds.length
            + (value b (longDivision b n ((r * b + d) % n) ds).1 * n
              + (longDivision b n ((r * b + d) % n) ds).2) := by ring
        _ = (n * ((r * b + d) / n) + (r * b + d) % n) * b ^ ds.length + value b ds := by
              rw [hstep]; ring
        _ = r * b ^ (ds.length + 1) + (d * b ^ ds.length + value b ds) := by rw [hdiv]; ring

end Lib
