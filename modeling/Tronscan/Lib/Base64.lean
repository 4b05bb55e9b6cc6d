import Mathlib.Tactic.NormNum

/-!
# Base64

Three bytes are four sextets. The last group may be short by one or two bytes,
and is filled up with `=`.

Decoding is as lenient as decoders usually are and does not look at the bits that
the padding leaves over. It undoes encoding.

## Main definitions

* `sextetChar`, `charSextet`: The alphabet, in both directions.
* `encode`, `decode`: Bytes as characters and back.

## Theorems

* `charSextet_sextetChar`: A character stands for its sextet.
* `decode_encode`: What was encoded is decoded.
-/

namespace Lib.Base64

/-- The character of a sextet. -/
def sextetChar (n : ℕ) : Char :=
  if n < 26 then Char.ofNat (65 + n)
  else if n < 52 then Char.ofNat (71 + n)
  else if n < 62 then Char.ofNat (n - 4)
  else if n = 62 then '+'
  else '/'

/-- The sextet of a character, if it is in the alphabet. -/
def charSextet (c : Char) : Option ℕ :=
  let n := c.toNat
  if 65 ≤ n ∧ n ≤ 90 then some (n - 65)
  else if 97 ≤ n ∧ n ≤ 122 then some (n - 71)
  else if 48 ≤ n ∧ n ≤ 57 then some (n + 4)
  else if c = '+' then some 62
  else if c = '/' then some 63
  else none

/-- Bytes in groups of three. -/
def encode : List UInt8 → List Char
  | [] => []
  | [a] => [sextetChar (a.toNat / 4), sextetChar (a.toNat % 4 * 16), '=', '=']
  | [a, b] =>
      [sextetChar (a.toNat / 4), sextetChar (a.toNat % 4 * 16 + b.toNat / 16),
        sextetChar (b.toNat % 16 * 4), '=']
  | a :: b :: c :: rest =>
      [sextetChar (a.toNat / 4), sextetChar (a.toNat % 4 * 16 + b.toNat / 16),
        sextetChar (b.toNat % 16 * 4 + c.toNat / 64), sextetChar (c.toNat % 64)] ++ encode rest

/-- Characters in groups of four, only the last of which may be padded. -/
def decode : List Char → Option (List UInt8)
  | [] => some []
  | [p, q, '=', '='] => do
      let p ← charSextet p
      let q ← charSextet q
      return [UInt8.ofNat (p * 4 + q / 16)]
  | [p, q, r, '='] => do
      let p ← charSextet p
      let q ← charSextet q
      let r ← charSextet r
      return [UInt8.ofNat (p * 4 + q / 16), UInt8.ofNat (q % 16 * 16 + r / 4)]
  | p :: q :: r :: s :: rest => do
      let p ← charSextet p
      let q ← charSextet q
      let r ← charSextet r
      let s ← charSextet s
      let rest ← decode rest
      return UInt8.ofNat (p * 4 + q / 16) :: UInt8.ofNat (q % 16 * 16 + r / 4) ::
        UInt8.ofNat (r % 4 * 64 + s) :: rest
  | _ => none

theorem charSextet_sextetChar : ∀ n < 64, charSextet (sextetChar n) = some n := by
  decide

/-- The padding is not in the alphabet. -/
theorem sextetChar_ne : ∀ n < 64, sextetChar n ≠ '=' := by
  decide

/-- A byte from its value. -/
theorem ofNat_eq {a : UInt8} {n : ℕ} (h : n = a.toNat) : UInt8.ofNat n = a := by
  rw [h, UInt8.ofNat_toNat]

theorem decode_encode (bytes : List UInt8) : decode (encode bytes) = some bytes := by
  induction bytes using encode.induct with
  | case1 => rfl
  | case2 a =>
      have ha := a.toNat_lt
      simp only [encode, decode, charSextet_sextetChar _ (show a.toNat / 4 < 64 by omega),
        charSextet_sextetChar _ (show a.toNat % 4 * 16 < 64 by omega), Option.bind_eq_bind,
        Option.bind_some, Option.pure_def]
      rw [ofNat_eq (a := a) (by omega)]
  | case3 a b =>
      have ha := a.toNat_lt
      have hb := b.toNat_lt
      have hr : b.toNat % 16 * 4 < 64 := by omega
      rw [encode, decode]
      · simp only [charSextet_sextetChar _ (show a.toNat / 4 < 64 by omega),
          charSextet_sextetChar _ (show a.toNat % 4 * 16 + b.toNat / 16 < 64 by omega),
          charSextet_sextetChar _ hr, Option.bind_eq_bind, Option.bind_some, Option.pure_def]
        rw [ofNat_eq (a := a) (by omega), ofNat_eq (a := b) (by omega)]
      · -- A full sextet is not taken for padding.
        exact sextetChar_ne _ hr
  | case4 a b c rest ih =>
      -- Three bytes are four sextets, which are cut and put together again.
      have ha := a.toNat_lt
      have hb := b.toNat_lt
      have hc := c.toNat_lt
      have hs : c.toNat % 64 < 64 := by omega
      simp only [encode, List.cons_append, List.nil_append]
      rw [decode]
      · simp only [charSextet_sextetChar _ (show a.toNat / 4 < 64 by omega),
          charSextet_sextetChar _ (show a.toNat % 4 * 16 + b.toNat / 16 < 64 by omega),
          charSextet_sextetChar _ (show b.toNat % 16 * 4 + c.toNat / 64 < 64 by omega),
          charSextet_sextetChar _ hs, ih, Option.bind_eq_bind, Option.bind_some, Option.pure_def]
        rw [ofNat_eq (a := a) (by omega), ofNat_eq (a := b) (by omega), ofNat_eq (a := c) (by omega)]
      · intro _ hpad
        exact absurd hpad (sextetChar_ne _ hs)
      · intro hpad
        exact absurd hpad (sextetChar_ne _ hs)

end Lib.Base64
