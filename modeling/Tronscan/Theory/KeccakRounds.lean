import Mathlib.Tactic.FinCases
import Tronscan.Core.Keccak
import Tronscan.Lib.Keccak

/-!
# Two Rounds at a Time

The loop in `processBlock` is the permutation, on the state that the lanes stand for.

Three things stand between the two. The lanes are written in place, and so `pi` is only
a matter of where a lane is looked for: `stateOf place` reads them off where `place` has
them, and a round that finds them there leaves them for `place ∘ moved`. Six lanes are
complemented, which the linear steps turn into twelve others, and each plane of `chi` is
written so that the same six come out. And `theta` shares its sums between columns, which
is a matter of associativity.

## Main definitions

* `stateOf`: The lanes, found where they are.
* `state`: The state that they stand for.

## Theorems

* `get_assign`, `get_move`: Assignments one after the other.
* `stateOf_theta`, `stateOf_rho`, `get_chi`, `chiRow_eq`: The steps.
* `stateOf_round`: A round.
* `state_rounds`: The loop.
-/

namespace Tronscan

namespace KeccakCore

open Lib.Keccak (masked piMask thetaMask pi_masked rho_masked theta_masked iota_masked
  masked_masked)

/-- The lanes, found where `place` has them. -/
def stateOf (place : Fin 25 → Fin 25) (A : Lanes) : Lib.Keccak.State 64 := fun x y =>
  A.get (place (lane x y))

/-- The lanes that are complemented. -/
def mask (x y : Fin 5) : Bool := [1, 2, 8, 12, 17, 20].contains (lane x y)

theorem rotate_eq (x : BitVec 64) (n : ℕ) : rotate x (n % 64) = x.rotateLeft n :=
  BitVec.rotateLeft_def.symm

theorem thetaWord_eq (p q : Fin 5 → BitVec 64) : thetaWord p q =
    (q 0 ^^^ q 1 ^^^ q 2 ^^^ q 3 ^^^ q 4) ^^^ (p 0 ^^^ p 1 ^^^ p 2 ^^^ p 3 ^^^ p 4).rotateLeft 1 := by
  have hone (x : BitVec 64) : rotate x 1 = x.rotateLeft 1 := rotate_eq x 1
  simp only [thetaWord, hone, Lib.Keccak.rotateLeft_xor]
  ac_rfl

variable {place : Fin 25 → Fin 25}

theorem get_set (A : Lanes) (i k : Fin 25) (h : i.val < 25) (v : BitVec 64) :
    (A.set i v h).get k = if i = k then v else A.get k := by
  have hset : (A.set i v)[k.val] = if i.val = k.val then v else A[k.val] := Vector.getElem_set _ _
  simp only [Fin.ext_iff]
  exact hset

/-- What assignments to different lanes leave in one of them. -/
theorem get_assign {α : Type} (hplace : Function.Injective place)
    (f : α → BitVec 64 → BitVec 64) (lanes : List (Fin 25 × α)) (A : Lanes)
    (hnodup : (lanes.map Prod.fst).Nodup) (k : Fin 25) :
    (assign place f lanes A).get (place k) =
      (lanes.lookup k).elim (A.get (place k)) fun a => f a (A.get (place k)) := by
  induction lanes generalizing A with
  | nil => rfl
  | cons l lanes ih =>
      rw [List.map_cons, List.nodup_cons] at hnodup
      unfold assign at ih ⊢
      rw [List.foldl_cons, ih _ hnodup.2, List.lookup_cons, get_set]
      by_cases hk : k = l.1
      · have hnone : lanes.lookup l.1 = none := by
          refine List.lookup_eq_none_iff.mpr fun p hp => bne_iff_ne.mpr fun h => ?_
          exact hnodup.1 (List.mem_map.mpr ⟨p, hp, h.symm⟩)
        subst hk
        simp [hnone]
      · have hne : place l.1 ≠ place k := fun h => hk (hplace h).symm
        rw [if_neg hne, beq_eq_false_iff_ne.mpr hk]

theorem nodup_columns {α : Type} (t : Fin 5 → α) : ((columns t).map Prod.fst).Nodup := by
  change [0, 5, 10, 15, 20, 1, 6, 11, 16, 21, 2, 7, 12, 17, 22, 3, 8, 13, 18, 23, 4, 9, 14, 19,
    (24 : Fin 25)].Nodup
  decide

theorem lookup_columns {α : Type} (t : Fin 5 → α) (x y : Fin 5) :
    (columns t).lookup (lane x y) = some (t x) := by
  fin_cases x <;> fin_cases y <;> rfl

theorem stateOf_theta (hplace : Function.Injective place) (A : Lanes) :
    stateOf place (theta place A) = Lib.Keccak.theta (stateOf place A) := by
  funext x y
  unfold theta stateOf
  rw [get_assign hplace _ _ _ (nodup_columns _), lookup_columns]
  exact congrArg (A.get (place (lane x y)) ^^^ ·) (thetaWord_eq _ _)

theorem lookup_rotations (x y : Fin 5) : rotations.lookup (lane x y) =
    if lane x y = 0 then none else some (Lib.Keccak.offset x y % 64) := by
  revert x y
  decide

theorem offset_of_lane_eq_zero (x y : Fin 5) (h : lane x y = 0) : Lib.Keccak.offset x y = 0 := by
  revert x y
  decide

theorem stateOf_rho (hplace : Function.Injective place) (A : Lanes) :
    stateOf place (rho place A) = Lib.Keccak.rho (stateOf place A) := by
  funext x y
  unfold rho stateOf Lib.Keccak.rho
  rw [get_assign hplace _ _ _ (by decide), lookup_rotations]
  by_cases h : lane x y = 0
  · rw [if_pos h, offset_of_lane_eq_zero x y h, BitVec.rotateLeft_def]
    simp [BitVec.ushiftRight_eq_zero]
  · rw [if_neg h]
    exact rotate_eq _ _

section Planes

variable (hplace : Function.Injective place)
  (c : BitVec 64 → BitVec 64 → BitVec 64 → BitVec 64 → BitVec 64 → Vector (BitVec 64) 5)
  {k0 k1 k2 k3 k4 k : Fin 25} (A : Lanes)

include hplace

theorem get_chiPlane (hnodup : [k0, k1, k2, k3, k4].Nodup) :
    (chiPlane place c k0 k1 k2 k3 k4 A).get (place k) =
      let p := c (A.get (place k0)) (A.get (place k1)) (A.get (place k2)) (A.get (place k3))
        (A.get (place k4))
      ([(k0, p.get 0), (k1, p.get 1), (k2, p.get 2), (k3, p.get 3), (k4, p.get 4)].lookup k).elim
        (A.get (place k)) id := by
  unfold chiPlane
  dsimp only
  rw [get_assign hplace]
  · rfl
  · exact hnodup

/-- A plane leaves the lanes of the others. -/
theorem get_chiPlane_of_not_mem (hk : k ∉ [k0, k1, k2, k3, k4])
    (hnodup : [k0, k1, k2, k3, k4].Nodup) :
    (chiPlane place c k0 k1 k2 k3 k4 A).get (place k) = A.get (place k) := by
  have hnone (p : Vector (BitVec 64) 5) :
      [(k0, p.get 0), (k1, p.get 1), (k2, p.get 2), (k3, p.get 3), (k4, p.get 4)].lookup k = none :=
    List.lookup_eq_none_iff.mpr (by simpa using hk)
  rw [get_chiPlane hplace c A hnodup]
  dsimp only
  rw [hnone]
  rfl

end Planes

/-- The form of `chi` in a plane. -/
def chiRow : Fin 5 → BitVec 64 → BitVec 64 → BitVec 64 → BitVec 64 → BitVec 64 →
    Vector (BitVec 64) 5
  | 0 => chi0
  | 1 => chi1
  | 2 => chi2
  | 3 => chi3
  | 4 => chi4

/-- The planes are apart, and so each of them is still as `rho` left it when `chi`
    comes to it. -/
theorem get_chi (hplace : Function.Injective place) (A : Lanes) (x y : Fin 5) :
    (chi place A).get (place (lane (x + 3 * y) x)) =
      let T := Lib.Keccak.pi (stateOf place A)
      (chiRow y (T 0 y) (T 1 y) (T 2 y) (T 3 y) (T 4 y)).get x := by
  have hother c {k0 k1 k2 k3 k4 k : Fin 25} (B : Lanes) (hk : k ∉ [k0, k1, k2, k3, k4])
      (hnodup : [k0, k1, k2, k3, k4].Nodup) :=
    get_chiPlane_of_not_mem hplace c B hk hnodup
  unfold chi
  dsimp only
  fin_cases y <;> fin_cases x <;> simp (disch := decide) only [hother, lane] <;>
    (rw [get_chiPlane hplace _ _ (by decide)]; simp (disch := decide) only [hother]; rfl)

/-- In each of the lanes, this is De Morgan. -/
theorem chiRow_eq (T : Lib.Keccak.State 64) (x y : Fin 5) :
    (chiRow y (T 0 y) (T 1 y) (T 2 y) (T 3 y) (T 4 y)).get x =
      masked mask (Lib.Keccak.chi (masked (piMask (thetaMask mask)) T)) x y := by
  change (chiRow y (T 0 y) (T 1 y) (T 2 y) (T 3 y) (T 4 y))[x.val] = _
  apply BitVec.eq_of_getLsbD_eq
  intro i hi
  fin_cases y <;> fin_cases x <;>
    simp [-BitVec.fill_true, -BitVec.fill_false, chiRow, chi0, chi1, chi2, chi3, chi4,
      Lib.Keccak.chi, masked, piMask, thetaMask, mask, lane, hi] <;> grind

theorem moved_lane (x y : Fin 5) : moved (lane x y) = lane (x + 3 * y) x := by
  revert x y
  decide

theorem eq_zero_of_lane (x y : Fin 5) (h : lane x y = lane 0 0) : x = 0 ∧ y = 0 := by
  revert x y
  decide

theorem injective_moved : Function.Injective moved := by decide

/-- `chi` and the steps before it, on lanes of which some are complemented. -/
theorem stateOf_chi (hplace : Function.Injective place) (A : Lanes) :
    stateOf (place ∘ moved) (chi place (rho place (theta place A))) =
      masked mask (Lib.Keccak.chi (Lib.Keccak.pi (Lib.Keccak.rho (Lib.Keccak.theta
        (masked mask (stateOf place A)))))) := by
  funext x y
  have hrow := get_chi hplace (rho place (theta place A)) x y
  dsimp only at hrow
  rw [chiRow_eq, ← pi_masked, stateOf_rho hplace, stateOf_theta hplace, ← rho_masked,
    ← theta_masked] at hrow
  rw [← hrow]
  simp only [← moved_lane]
  rfl

/-- A round leaves each lane where the next one looks for it. -/
theorem stateOf_round (hplace : Function.Injective place) (hzero : place 0 = 0) (c : BitVec 64)
    (A : Lanes) : stateOf (place ∘ moved) (round place c A) =
      masked mask (Lib.Keccak.round c (masked mask (stateOf place A))) := by
  have hchi := stateOf_chi hplace A
  rw [Lib.Keccak.round, ← iota_masked, ← hchi]
  funext x y
  have hinj : Function.Injective (place ∘ moved) := hplace.comp injective_moved
  have hfirst : (place ∘ moved) (lane 0 0) = 0 := hzero
  unfold stateOf round Lib.Keccak.iota
  by_cases h : x = 0 ∧ y = 0
  · have hlane : (place ∘ moved) (lane x y) = 0 := by rw [h.1, h.2, hfirst]
    rw [if_pos h]
    simp only [hlane]
    exact Vector.getElem_set_self _
  · have hne : (0 : ℕ) ≠ ((place ∘ moved) (lane x y)).val := by
      intro hk
      exact h (eq_zero_of_lane x y (hinj (hfirst.trans (Fin.ext hk))).symm)
    rw [if_neg h]
    exact Vector.getElem_set_ne _ _ hne

/-- What assignments `A[k] = A[l]` leave, where none of them reads or writes what one
    before it has written. -/
theorem get_move (lanes : List (Fin 25 × Fin 25)) (A : Lanes)
    (hlanes : lanes.Pairwise fun p q => p.1 ≠ q.1 ∧ p.1 ≠ q.2) (k : Fin 25) :
    (move lanes A).get k = A.get ((lanes.lookup k).getD k) := by
  induction lanes generalizing A with
  | nil => rfl
  | cons l lanes ih =>
      rw [List.pairwise_cons] at hlanes
      unfold move at ih ⊢
      rw [List.foldl_cons, ih _ hlanes.2, List.lookup_cons, get_set]
      by_cases hk : k = l.1
      · have hnone : lanes.lookup l.1 = none :=
          List.lookup_eq_none_iff.mpr fun p hp => bne_iff_ne.mpr (hlanes.1 p hp).1
        subst hk
        rw [hnone, Option.getD_none, if_pos rfl, beq_self_eq_true]
        rfl
      · have hread : l.1 ≠ (lanes.lookup k).getD k := by
          cases hlookup : lanes.lookup k with
          | none => exact Ne.symm hk
          | some j =>
              obtain ⟨p, q, hlanes', -⟩ := List.lookup_eq_some_iff.mp hlookup
              exact (hlanes.1 (k, j) (by simp [hlanes'])).2
        rw [if_neg hread, beq_eq_false_iff_ne.mpr hk]

theorem get_restore (A : Lanes) (k : Fin 25) : (restore A).get k = A.get (moved (moved k)) := by
  have hfirst (k : Fin 25) := get_move [(5, 18), (18, 11), (11, 10), (10, 6), (6, 22), (22, 20),
    (20, 12), (12, 19), (19, 15), (15, 24), (24, 8)] A (by decide) k
  unfold restore
  set B := move [(5, 18), (18, 11), (11, 10), (10, 6), (6, 22), (22, 20), (20, 12), (12, 19),
    (19, 15), (15, 24), (24, 8)] A with hB
  have hC (k : Fin 25) : (B.set 8 A[5]).get k = if 8 = k then A.get 5 else B.get k := get_set B 8 k _ _
  have hsecond (k : Fin 25) := get_move [(1, 9), (9, 14), (14, 2), (2, 13), (13, 23), (23, 4),
    (4, 21), (21, 16), (16, 3), (3, 17), (17, 7)] (B.set 8 A[5]) (by decide) k
  refine (get_set _ 7 k _ _).trans ?_
  rw [hsecond]
  change (if 7 = k then (B.set 8 A[5]).get 1 else _) = _
  rw [hC, hC, hfirst, hfirst]
  fin_cases k <;> rfl

/-- The state that the lanes stand for. -/
def state (A : Lanes) : Lib.Keccak.State 64 := masked mask (stateOf id A)

theorem RC_eq (i : Fin 24) : RC[i] = Lib.Keccak.roundConstant 64 i.val := by
  revert i
  decide +kernel

/-- Two rounds of the permutation. -/
def twoRounds (S : Lib.Keccak.State 64) (j : Fin 12) : Lib.Keccak.State 64 :=
  Lib.Keccak.round (Lib.Keccak.roundConstant 64 (2 * j.val + 1))
    (Lib.Keccak.round (Lib.Keccak.roundConstant 64 (2 * j.val)) S)

theorem state_tworounds (A : Lanes) (j : Fin 12) :
    twoRounds (state A) j = state (tworounds j A) := by
  have h0 : RC[2 * j.val] = _ := RC_eq ⟨2 * j.val, by omega⟩
  have h1 : RC[2 * j.val + 1] = _ := RC_eq ⟨2 * j.val + 1, by omega⟩
  have hrestore (B : Lanes) : stateOf id (restore B) = stateOf (moved ∘ moved) B := by
    funext x y
    exact get_restore B (lane x y)
  have hid : Function.Injective (id : Fin 25 → Fin 25) := Function.injective_id
  have hfirst := stateOf_round hid rfl RC[2 * j.val] A
  have hsecond := stateOf_round injective_moved rfl RC[2 * j.val + 1]
    (round id RC[2 * j.val] A)
  unfold state tworounds twoRounds
  dsimp only
  rw [hrestore, hsecond, masked_masked, ← h0, ← h1]
  exact (congrArg _ ((congrArg (masked mask) hfirst).trans (masked_masked _ _))).symm

/-- The loop is the permutation of the state that the lanes stand for. -/
theorem state_rounds (A : Lanes) : state (rounds A) = Lib.Keccak.permutation (state A) := by
  have hloop : (List.finRange 12).foldl twoRounds (state A) = state (rounds A) :=
    List.foldl_hom state state_tworounds
  rw [← hloop]
  rfl

end KeccakCore

end Tronscan
