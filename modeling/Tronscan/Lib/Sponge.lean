import Mathlib.Data.List.Induction
import Mathlib.Tactic.Common

/-!
# Messages Cut into Blocks

A function that is computed block by block is fed its message in pieces, and the
pieces do not end where the blocks do. What is kept between two pieces is the
state after the blocks that are full and the start of the block that is not.

`feed` takes one element in, and a block is closed as soon as it is full. Feeding
is a fold, so that a message fed in pieces is cut where the whole message would
have been, however it was taken apart. The rest is what the last block of a
padded message begins with.

## Main definitions

* `feed`: One more element.
* `chop`: The full blocks of a message, and the rest.
* `absorbed`: The state after the full blocks.

## Theorems

* `chop_append`: Feeding a message in two pieces.
* `foldl_feed_of_lt`, `foldl_feed_of_eq`: A piece that stays within a block.
* `chop_spec`: Blocks are full, the rest is not, and together they are the message.
* `length_chop_snd`: How long the rest is.
* `absorbed_append`: A piece that completes a block.
-/

namespace Lib.Sponge

variable {σ β : Type*} {r : ℕ}

/-- One more element, which may complete a block. -/
def feed (r : ℕ) (s : List (List β) × List β) (b : β) : List (List β) × List β :=
  if s.2.length + 1 = r then (s.1 ++ [s.2 ++ [b]], []) else (s.1, s.2 ++ [b])

/-- The full blocks of a message, and the rest. -/
def chop (r : ℕ) (m : List β) : List (List β) × List β := m.foldl (feed r) ([], [])

/-- The state after the full blocks of a message. -/
def absorbed (absorb : σ → List β → σ) (init : σ) (r : ℕ) (m : List β) : σ :=
  (chop r m).1.foldl absorb init

/-- A message in two pieces. -/
theorem chop_append (m c : List β) : chop r (m ++ c) = c.foldl (feed r) (chop r m) := by
  rw [chop, chop, List.foldl_append]

/-- A piece that does not complete the block. -/
theorem foldl_feed_of_lt (blocks : List (List β)) (rest c : List β)
    (h : rest.length + c.length < r) :
    c.foldl (feed r) (blocks, rest) = (blocks, rest ++ c) := by
  induction c generalizing rest with
  | nil => rw [List.foldl_nil, List.append_nil]
  | cons b c ih =>
      rw [List.length_cons] at h
      have hone : feed r (blocks, rest) b = (blocks, rest ++ [b]) := if_neg (by dsimp only; omega)
      have hlt : (rest ++ [b]).length + c.length < r := by
        rw [List.length_append, List.length_singleton]
        omega
      rw [List.foldl_cons, hone, ih (rest ++ [b]) hlt, List.append_assoc, List.singleton_append]

/-- A piece that completes it and ends there. -/
theorem foldl_feed_of_eq (blocks : List (List β)) (rest c : List β)
    (h : rest.length + c.length = r) (hc : 0 < c.length) :
    c.foldl (feed r) (blocks, rest) = (blocks ++ [rest ++ c], []) := by
  obtain ⟨c, b, rfl⟩ : ∃ c' b, c = c' ++ [b] :=
    ⟨c.dropLast, c.getLast (List.ne_nil_of_length_pos hc), (List.dropLast_concat_getLast _).symm⟩
  rw [List.length_append, List.length_singleton] at h
  rw [List.foldl_append, foldl_feed_of_lt blocks rest c (by omega), List.foldl_cons, List.foldl_nil,
    feed, if_pos (by rw [List.length_append]; omega), List.append_assoc]

/-- What feeding keeps: blocks are full, and the rest is not. -/
structure Cut (r : ℕ) (m : List β) (s : List (List β) × List β) : Prop where
  whole : s.1.flatten ++ s.2 = m
  full : ∀ block ∈ s.1, block.length = r
  rest_lt : s.2.length < r

theorem Cut.feed {m : List β} {s : List (List β) × List β} (h : Cut r m s) (b : β) :
    Cut r (m ++ [b]) (feed r s b) := by
  unfold Sponge.feed
  split
  · rename_i hfull
    refine ⟨?_, fun block hblock => ?_, Nat.lt_of_le_of_lt (Nat.zero_le _) h.rest_lt⟩
    · simp only [List.flatten_append, List.flatten_singleton, List.append_nil]
      rw [← List.append_assoc, h.whole]
    · rcases List.mem_append.mp hblock with hblock | hblock
      · exact h.full block hblock
      · rw [List.mem_singleton.mp hblock, List.length_append, List.length_singleton, hfull]
  · rename_i hfull
    refine ⟨?_, h.full, ?_⟩
    · rw [← List.append_assoc, h.whole]
    · have := h.rest_lt
      simp only [List.length_append, List.length_singleton]
      omega

/-- Blocks are full, the rest is not, and together they are the message. -/
theorem chop_spec (hr : 0 < r) (m : List β) : Cut r m (chop r m) := by
  induction m using List.reverseRecOn with
  | nil => exact ⟨rfl, fun _ h => absurd h List.not_mem_nil, hr⟩
  | append_singleton m b ih =>
      rw [chop_append, List.foldl_cons, List.foldl_nil]
      exact ih.feed b

theorem Cut.length {m : List β} {s : List (List β) × List β} (h : Cut r m s) :
    r * s.1.length + s.2.length = m.length := by
  have hflat : s.1.flatten.length = r * s.1.length := by
    rw [List.length_flatten, List.map_congr_left h.full, List.map_const', List.sum_replicate_nat,
      Nat.mul_comm]
  rw [← hflat, ← List.length_append, h.whole]

theorem length_chop_snd (hr : 0 < r) (m : List β) : (chop r m).2.length = m.length % r := by
  have h := chop_spec hr m
  rw [← h.length, Nat.mul_add_mod, Nat.mod_eq_of_lt h.rest_lt]

/-- A piece that completes the block is absorbed with the rest in front of it. -/
theorem absorbed_append (absorb : σ → List β → σ) (init : σ) (m c : List β)
    (h : (chop r m).2.length + c.length = r) (hc : 0 < c.length) :
    absorbed absorb init r (m ++ c) =
        absorb (absorbed absorb init r m) ((chop r m).2 ++ c) ∧
      (chop r (m ++ c)).2 = [] := by
  have hchop : chop r (m ++ c) = ((chop r m).1 ++ [(chop r m).2 ++ c], []) :=
    (chop_append m c).trans (foldl_feed_of_eq _ _ c h hc)
  unfold absorbed
  rw [hchop, List.foldl_append]
  exact ⟨rfl, rfl⟩

/-- One that does not is only added to the rest. -/
theorem absorbed_append_of_lt (absorb : σ → List β → σ) (init : σ) (m c : List β)
    (h : (chop r m).2.length + c.length < r) :
    absorbed absorb init r (m ++ c) = absorbed absorb init r m ∧
      (chop r (m ++ c)).2 = (chop r m).2 ++ c := by
  have hchop : chop r (m ++ c) = ((chop r m).1, (chop r m).2 ++ c) :=
    (chop_append m c).trans (foldl_feed_of_lt _ _ c h)
  unfold absorbed
  rw [hchop]
  exact ⟨rfl, rfl⟩

end Lib.Sponge
