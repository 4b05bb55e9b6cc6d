import Mathlib.Data.Nat.Bitwise
import Tronscan.Lib.Sponge

/-!
# The Keccak Sponge

The permutation is over twenty-five lanes of `w` bits, arranged five by five, and
a round is five steps. All but one of them are linear, and `chi` is where lanes are
combined with an and. The two tables that implementations carry are computed:
the rotations along a walk through the lanes, and the round constants from a shift
register of eight bits.

Implementations keep some lanes complemented, which saves most of the negations in
`chi`. The complement of some lanes passes through the linear steps and comes out as
the complement of others, which is what `theta_masked`, `rho_masked` and `pi_masked` say.
What is left to an implementation is its own form of `chi`.

A message is bytes, least significant bit first. It is padded with a one, zeros and
a one to full blocks, the blocks are absorbed one after the other, and the digest is
the first bytes of the state.

## Main definitions

* `theta`, `rho`, `pi`, `chi`, `iota`, `round`, `permutation`: The permutation.
* `masked`: Lanes complemented.
* `padding`, `absorb`, `squeeze`, `digest`: The sponge.

## Theorems

* `theta_masked`, `rho_masked`, `pi_masked`: The linear steps on complemented lanes.
* `length_padding`, `absorbed_append_padding`: Padding completes one block.
-/

namespace Lib.Keccak

/-- Five columns of five lanes. -/
abbrev State (w : ℕ) := Fin 5 → Fin 5 → BitVec w

variable {w : ℕ}

/-! ## The permutation -/

/-- The parity of a column. -/
def parity (S : State w) (x : Fin 5) : BitVec w :=
  S x 0 ^^^ S x 1 ^^^ S x 2 ^^^ S x 3 ^^^ S x 4

/-- Add to each lane the parities of two columns beside it. -/
def theta (S : State w) : State w := fun x y =>
  S x y ^^^ (parity S (x - 1) ^^^ (parity S (x + 1)).rotateLeft 1)

/-- The walk through the lanes that the rotations are counted along. -/
def walk : ℕ → Fin 5 × Fin 5
  | 0 => (1, 0)
  | t + 1 => ((walk t).2, 2 * (walk t).1 + 3 * (walk t).2)

/-- The rotation of a lane. The walk leaves out the lane in the middle. -/
def offset (x y : Fin 5) : ℕ :=
  match (List.range 24).find? fun t => walk t == (x, y) with
  | some t => (t + 1) * (t + 2) / 2
  | none => 0

/-- Rotate each lane by its offset. -/
def rho (S : State w) : State w := fun x y => (S x y).rotateLeft (offset x y)

/-- Move the lanes. -/
def pi (S : State w) : State w := fun x y => S (x + 3 * y) x

/-- Combine the lanes of each row, the only step that is not linear. -/
def chi (S : State w) : State w := fun x y => S x y ^^^ (~~~S (x + 1) y &&& S (x + 2) y)

/-- Add the round constant to the first lane. -/
def iota (c : BitVec w) (S : State w) : State w := fun x y =>
  if x = 0 ∧ y = 0 then S x y ^^^ c else S x y

/-- The five steps. -/
def round (c : BitVec w) (S : State w) : State w := iota c (chi (pi (rho (theta S))))

/-- The shift register, after so many steps. -/
def register : ℕ → ℕ
  | 0 => 1
  | t + 1 => if (2 * register t).testBit 8 then 2 * register t ^^^ 0x171 else 2 * register t

/-- The word with the given bits, the least significant first. -/
def word (f : Fin w → Bool) : BitVec w := BitVec.ofNat w (Nat.ofBits f)

theorem getLsbD_word (f : Fin w → Bool) {i : ℕ} (hi : i < w) : (word f).getLsbD i = f ⟨i, hi⟩ := by
  rw [word, BitVec.getLsbD_ofNat, Nat.testBit_ofBits_lt f i hi, decide_eq_true hi, Bool.true_and]

/-- The constant of a round: seven bits for lanes of 64, where the others are zero. -/
def roundConstant (w i : ℕ) : BitVec w :=
  word fun z => (List.range (Nat.log2 w + 1)).any fun j =>
    decide (z.val = 2 ^ j - 1) && (register (j + 7 * i)).testBit 0

/-- Keccak-f: all the rounds, `12 + 2 l` of them for lanes of `2 ^ l` bits. -/
def permutation (S : State w) : State w :=
  (List.range (12 + 2 * Nat.log2 w)).foldl (fun S i => round (roundConstant w i) S) S

/-! ## Complemented lanes -/

/-- Some of the lanes complemented. -/
def masked (m : Fin 5 → Fin 5 → Bool) (S : State w) : State w := fun x y =>
  S x y ^^^ BitVec.fill w (m x y)

/-- The lanes that are complemented after `theta`. -/
def thetaMask (m : Fin 5 → Fin 5 → Bool) : Fin 5 → Fin 5 → Bool := fun x y =>
  let column x := m x 0 ^^ m x 1 ^^ m x 2 ^^ m x 3 ^^ m x 4
  m x y ^^ (column (x - 1) ^^ column (x + 1))

/-- Those that are after `pi`. -/
def piMask (m : Fin 5 → Fin 5 → Bool) : Fin 5 → Fin 5 → Bool := fun x y => m (x + 3 * y) x

theorem fill_xor (a b : Bool) : BitVec.fill w a ^^^ BitVec.fill w b = BitVec.fill w (a ^^ b) := by
  cases a <;> cases b <;> simp

theorem rotateLeft_xor (a b : BitVec w) (n : ℕ) :
    (a ^^^ b).rotateLeft n = a.rotateLeft n ^^^ b.rotateLeft n := by
  apply BitVec.eq_of_getLsbD_eq
  intro i hi
  simp only [BitVec.getLsbD_rotateLeft, BitVec.getLsbD_xor]
  cases decide (i < n % w)
  · exact Bool.and_xor_distrib_left _ _ _
  · rfl

theorem rotateLeft_fill (b : Bool) (n : ℕ) : (BitVec.fill w b).rotateLeft n = BitVec.fill w b := by
  apply BitVec.eq_of_getLsbD_eq
  intro i hi
  have hn : n % w < w := Nat.mod_lt n (by omega)
  simp only [BitVec.getLsbD_rotateLeft, BitVec.getLsbD_fill, hi, decide_true, Bool.and_true]
  by_cases hin : i < n % w
  · rw [decide_eq_true hin, cond_true, decide_eq_true (by omega), Bool.and_true]
  · rw [decide_eq_false hin, cond_false, decide_eq_true (by omega), Bool.and_true, Bool.true_and]

theorem masked_masked (m : Fin 5 → Fin 5 → Bool) (S : State w) : masked m (masked m S) = S := by
  funext x y
  rw [masked, masked, BitVec.xor_assoc, BitVec.xor_self, BitVec.xor_zero]

theorem parity_masked (m : Fin 5 → Fin 5 → Bool) (S : State w) (x : Fin 5) :
    parity (masked m S) x =
      parity S x ^^^ BitVec.fill w (m x 0 ^^ m x 1 ^^ m x 2 ^^ m x 3 ^^ m x 4) := by
  simp only [parity, masked, ← fill_xor]
  ac_rfl

theorem theta_masked (m : Fin 5 → Fin 5 → Bool) (S : State w) :
    theta (masked m S) = masked (thetaMask m) (theta S) := by
  funext x y
  simp only [theta, parity_masked, rotateLeft_xor, rotateLeft_fill]
  simp only [masked, theta, thetaMask, ← fill_xor]
  ac_rfl

theorem rho_masked (m : Fin 5 → Fin 5 → Bool) (S : State w) : rho (masked m S) = masked m (rho S) := by
  funext x y
  rw [rho, masked, rotateLeft_xor, rotateLeft_fill]
  rfl

theorem pi_masked (m : Fin 5 → Fin 5 → Bool) (S : State w) :
    pi (masked m S) = masked (piMask m) (pi S) := rfl

theorem iota_masked (c : BitVec w) (m : Fin 5 → Fin 5 → Bool) (S : State w) :
    iota c (masked m S) = masked m (iota c S) := by
  funext x y
  simp only [iota, masked]
  split
  · rw [BitVec.xor_assoc, BitVec.xor_assoc, BitVec.xor_comm c]
  · rfl

/-! ## The sponge -/

/-- A bit of a block, where there are only zeros after its end. -/
def blockBit (block : List UInt8) (k : ℕ) : Bool := (block[k / 8]?.getD 0).toBitVec.getLsbD (k % 8)

/-- A bit of the state, lane after lane. -/
def stateBit (S : State w) (k : ℕ) : Bool :=
  (S (Fin.ofNat 5 (k / w)) (Fin.ofNat 5 (k / w / 5))).getLsbD (k % w)

/-- A one, zeros and a one, in so many bytes. -/
def padding : ℕ → List UInt8
  | 0 => []
  | 1 => [0x81]
  | n + 2 => 0x01 :: (List.replicate n 0 ++ [0x80])

/-- Add a block to the state, and permute. -/
def absorb (S : State w) (block : List UInt8) : State w :=
  permutation fun x y =>
    S x y ^^^ word fun z => blockBit block (w * (5 * y.val + x.val) + z.val)

/-- The first bytes of a state. -/
def squeeze (S : State w) (d : ℕ) : List UInt8 :=
  (List.range d).map fun i => .ofBitVec (word fun t => stateBit S (8 * i + t.val))

/-- The digest of `d` bytes, for blocks of `r` bytes. -/
def digest (w r d : ℕ) (message : List UInt8) : List UInt8 :=
  let padded := message ++ padding (r - message.length % r)
  squeeze (Sponge.absorbed absorb (fun _ _ => (0 : BitVec w)) r padded) d

theorem length_padding (n : ℕ) : (padding n).length = n := by
  rcases n with _ | _ | n <;> simp [padding]

/-- The padding completes the block that the message ends in. -/
theorem absorbed_append_padding {σ : Type*} (f : σ → List UInt8 → σ) (init : σ) {r : ℕ} (hr : 0 < r)
    (message : List UInt8) :
    Sponge.absorbed f init r (message ++ padding (r - message.length % r)) =
      f (Sponge.absorbed f init r message)
        ((Sponge.chop r message).2 ++ padding (r - message.length % r)) := by
  have hlt : message.length % r < r := Nat.mod_lt _ hr
  refine (Sponge.absorbed_append f init message _ ?_ ?_).1
  · rw [Sponge.length_chop_snd hr, length_padding]
    omega
  · rw [length_padding]
    omega

end Lib.Keccak
