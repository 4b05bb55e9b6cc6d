import Mathlib.Algebra.BigOperators.Group.Finset.Basic
import Mathlib.Algebra.Group.Action.Defs
import Mathlib.Algebra.Order.BigOperators.Group.Finset
import Tronscan.Lib.System

/-!
# Workers on a Work List That Is Read Ahead

There is a set of items that need work, and workers that are fed from it. The set is
read in batches, and a batch is read as soon as the last one has been handed out and a
worker is free, without waiting for those that are still at work. So an item that some
worker has in hand is read again, and a slow one may be handed to every worker there is.

It cannot be handed out forever. As long as it needs work, everybody it has been handed
to is still at it or has given it up, so besides those there are at most as many as
there are workers, the next batch included, which is read for a worker that is free.
Once it is done it is in no further batch. So the handouts are bounded by the items and
by what has been given up.

Items may also be done by somebody else. Nothing here makes an item need work again.

## Main definitions

* `State`, `Event`, `step`: The work list, its last batch, and the workers.
* `Fresh`: Nothing has been read yet.
* `Inv`: What is known of the handouts of an item.

## Theorems

* `inv_run`: The invariant, from a fresh pool on.
* `Inv.count_le`: An item is handed out as often as there are workers, and once more for
  each time it is given up.
* `Inv.length_le`: All the handouts.
-/

namespace Lib.Pool

variable {α : Type*} [DecidableEq α]

/-- The work list, its last batch, what the workers have in hand, all that has been
    handed out, and what has been given up. -/
structure State (α : Type*) where
  dirty : Finset α
  queue : List α
  running : Multiset α
  exhausted : Bool
  started : List α
  lost : List α

/-- What can happen: a batch is read, an item is started, done, and let go. -/
inductive Event (α : Type*) where
  | read (batch : List α)
  | start
  /-- The item is done, by a worker or by somebody else. -/
  | clean (x : α)
  /-- A worker is through with an item that is done. -/
  | finish (x : α)
  /-- A worker is through with an item, whether it is done or not. -/
  | lose (x : α)

/-- A batch is any part of the work list, of a given size unless that is all of it. -/
def step (width limit : ℕ) (s : State α) : Event α → Option (State α)
  | .read batch =>
      if s.queue = [] ∧ s.exhausted = false ∧ s.running.card < width ∧ batch.Nodup ∧
          (∀ x ∈ batch, x ∈ s.dirty) ∧ batch.length = min limit s.dirty.card then
        some { s with queue := batch, exhausted := batch.isEmpty }
      else none
  | .start =>
      match s.queue with
      | x :: rest =>
          if s.running.card < width then
            some { s with
              queue := rest, running := x ::ₘ s.running, started := x :: s.started }
          else none
      | [] => none
  | .clean x => some { s with dirty := s.dirty.erase x }
  | .finish x =>
      if x ∈ s.running ∧ x ∉ s.dirty then some { s with running := s.running.erase x } else none
  | .lose x =>
      if x ∈ s.running then
        some { s with running := s.running.erase x, lost := x :: s.lost }
      else none

/-- Nothing has been read yet. -/
structure Fresh (s : State α) : Prop where
  queue : s.queue = []
  running : s.running = 0
  exhausted : s.exhausted = false
  started : s.started = []
  lost : s.lost = []

section Steps

variable {width limit : ℕ} {s t : State α} {batch : List α} {x : α}

theorem step_read (h : step width limit s (.read batch) = some t) :
    (s.queue = [] ∧ s.exhausted = false ∧ s.running.card < width ∧ batch.Nodup ∧
      (∀ x ∈ batch, x ∈ s.dirty) ∧ batch.length = min limit s.dirty.card) ∧
      t = { s with queue := batch, exhausted := batch.isEmpty } := by
  rw [step] at h
  split at h
  · rename_i hguard
    exact ⟨hguard, (Option.some.inj h).symm⟩
  · cases h

theorem step_start (h : step width limit s .start = some t) :
    ∃ x rest, s.queue = x :: rest ∧ s.running.card < width ∧
      t = { s with queue := rest, running := x ::ₘ s.running, started := x :: s.started } := by
  rw [step] at h
  split at h
  · rename_i x rest hqueue
    split at h
    · rename_i hwidth
      exact ⟨x, rest, hqueue, hwidth, (Option.some.inj h).symm⟩
    · cases h
  · cases h

theorem step_finish (h : step width limit s (.finish x) = some t) :
    (x ∈ s.running ∧ x ∉ s.dirty) ∧ t = { s with running := s.running.erase x } := by
  rw [step] at h
  split at h
  · rename_i hguard
    exact ⟨hguard, (Option.some.inj h).symm⟩
  · cases h

theorem step_lose (h : step width limit s (.lose x) = some t) :
    x ∈ s.running ∧ t = { s with running := s.running.erase x, lost := x :: s.lost } := by
  rw [step] at h
  split at h
  · rename_i hmem
    exact ⟨hmem, (Option.some.inj h).symm⟩
  · cases h

end Steps

/-- What is known of a pool that started out with the given items. -/
structure Inv (width : ℕ) (items : Finset α) (s : State α) : Prop where
  dirty_subset : s.dirty ⊆ items
  handed : ∀ x ∈ s.started ++ s.queue, x ∈ items
  lost_subset : ∀ x ∈ s.lost, x ∈ items
  running_subset : ∀ x ∈ s.running, x ∈ items
  /-- A batch is read while a worker is free, and has an item once. -/
  under_way : ∀ x, s.running.count x + s.queue.count x ≤ width
  /-- Nobody is through with an item that needs work, except by giving it up. -/
  count_dirty : ∀ x ∈ s.dirty, s.started.count x = s.running.count x + s.lost.count x
  count_clean : ∀ x ∉ s.dirty, s.started.count x + s.queue.count x ≤ width + s.lost.count x
  exhausted : s.exhausted = true → s.dirty = ∅ ∧ s.queue = []

section Invariant

variable {width limit : ℕ} {items : Finset α} {s t : State α}

theorem inv_fresh (h : Fresh s) : Inv width s.dirty s := by
  obtain ⟨hqueue, hrunning, hexhausted, hstarted, hlost⟩ := h
  constructor
  · exact Finset.Subset.refl _
  · rw [hqueue, hstarted]
    exact fun x hx => absurd hx List.not_mem_nil
  · rw [hlost]
    exact fun x hx => absurd hx List.not_mem_nil
  · rw [hrunning]
    exact fun x hx => absurd hx (Multiset.notMem_zero x)
  · intro x
    rw [hqueue, hrunning]
    exact Nat.zero_le width
  · intro x _
    rw [hstarted, hrunning, hlost]
    rfl
  · intro x _
    rw [hstarted, hqueue]
    exact Nat.zero_le _
  · rw [hexhausted]
    exact fun h => absurd h Bool.false_ne_true

/-- As long as an item needs work, everybody who has had it is still at it or has given
    it up. -/
theorem Inv.count_le (hI : Inv width items s) (x : α) :
    s.started.count x + s.queue.count x ≤ width + s.lost.count x := by
  by_cases hx : x ∈ s.dirty
  · have hle := hI.under_way x
    rw [hI.count_dirty x hx]
    omega
  · exact hI.count_clean x hx

theorem inv_read (hlimit : 0 < limit) {batch : List α} (hI : Inv width items s)
    (h : step width limit s (.read batch) = some t) : Inv width items t := by
  obtain ⟨⟨hqueue, -, hwidth, hnodup, hbatch, hlength⟩, rfl⟩ := step_read h
  have hhanded := hI.handed
  rw [hqueue, List.append_nil] at hhanded
  refine ⟨hI.dirty_subset, ?_, hI.lost_subset, hI.running_subset, ?_, hI.count_dirty, ?_, ?_⟩
  · intro x hx
    rcases List.mem_append.mp hx with hx | hx
    · exact hhanded x hx
    · exact hI.dirty_subset (hbatch x hx)
  · intro x
    have hrunning := Multiset.count_le_card x s.running
    have hcount := List.nodup_iff_count_le_one.mp hnodup x
    show s.running.count x + batch.count x ≤ width
    omega
  · intro x hx
    have hle := hI.count_clean x hx
    rw [hqueue] at hle
    rw [List.count_eq_zero_of_not_mem fun hmem => hx (hbatch x hmem)]
    exact hle
  · intro hempty
    have hnil : batch = [] := List.isEmpty_iff.mp hempty
    rw [hnil, List.length_nil] at hlength
    have hcard : s.dirty.card = 0 := by omega
    exact ⟨Finset.card_eq_zero.mp hcard, hnil⟩

theorem inv_start (hI : Inv width items s) (h : step width limit s .start = some t) :
    Inv width items t := by
  obtain ⟨x, rest, hqueue, hwidth, rfl⟩ := step_start h
  have hhanded := hI.handed
  rw [hqueue] at hhanded
  refine ⟨hI.dirty_subset, fun y hy => hhanded y ?_, hI.lost_subset, fun y hy => ?_, fun y => ?_,
    fun y hy => ?_, fun y hy => ?_, fun hexhausted => ?_⟩
  · exact (List.perm_middle.mem_iff).mpr hy
  · rcases Multiset.mem_cons.mp hy with rfl | hy
    · exact hhanded y (List.mem_append_right _ List.mem_cons_self)
    · exact hI.running_subset y hy
  · have hle := hI.under_way y
    rw [hqueue, List.count_cons] at hle
    show (x ::ₘ s.running).count y + rest.count y ≤ width
    rw [Multiset.count_cons]
    by_cases hxy : x = y
    · rw [if_pos hxy.symm]
      rw [if_pos (beq_iff_eq.mpr hxy)] at hle
      omega
    · rw [if_neg (Ne.symm hxy)]
      omega
  · have hcount := hI.count_dirty y hy
    show (x :: s.started).count y = (x ::ₘ s.running).count y + s.lost.count y
    rw [List.count_cons, Multiset.count_cons]
    by_cases hxy : x = y
    · rw [if_pos (beq_iff_eq.mpr hxy), if_pos hxy.symm]
      omega
    · rw [if_neg (fun h => hxy (beq_iff_eq.mp h)), if_neg (Ne.symm hxy)]
      omega
  · have hle := hI.count_clean y hy
    rw [hqueue, List.count_cons] at hle
    show (x :: s.started).count y + rest.count y ≤ width + s.lost.count y
    rw [List.count_cons]
    omega
  · have hnil := (hI.exhausted hexhausted).2
    rw [hqueue] at hnil
    cases hnil

/-- Whoever does an item, it is in no batch from then on. -/
theorem inv_clean (hI : Inv width items s) (x : α) :
    Inv width items { s with dirty := s.dirty.erase x } := by
  refine ⟨(Finset.erase_subset x _).trans hI.dirty_subset, hI.handed, hI.lost_subset,
    hI.running_subset, hI.under_way, fun y hy => hI.count_dirty y (Finset.mem_of_mem_erase hy),
    fun y _ => hI.count_le y, fun h => ?_⟩
  obtain ⟨hdirty, hqueue⟩ := hI.exhausted h
  exact ⟨by simp only [hdirty, Finset.erase_empty], hqueue⟩

/-- A worker that is through with its item makes room. -/
theorem Inv.under_way_erase (hI : Inv width items s) (x y : α) :
    (s.running.erase x).count y + s.queue.count y ≤ width :=
  (Nat.add_le_add_right (Multiset.count_le_of_le y (Multiset.erase_le x s.running)) _).trans
    (hI.under_way y)

theorem inv_finish {x : α} (hI : Inv width items s) (h : step width limit s (.finish x) = some t) :
    Inv width items t := by
  obtain ⟨⟨-, hclean⟩, rfl⟩ := step_finish h
  refine ⟨hI.dirty_subset, hI.handed, hI.lost_subset,
    fun y hy => hI.running_subset y (Multiset.mem_of_mem_erase hy), hI.under_way_erase x,
    fun y hy => ?_, hI.count_clean, hI.exhausted⟩
  have hne : y ≠ x := fun hyx => hclean (hyx ▸ hy)
  rw [Multiset.count_erase_of_ne hne]
  exact hI.count_dirty y hy

theorem inv_lose {x : α} (hI : Inv width items s) (h : step width limit s (.lose x) = some t) :
    Inv width items t := by
  obtain ⟨hmem, rfl⟩ := step_lose h
  refine ⟨hI.dirty_subset, hI.handed, List.forall_mem_cons.mpr ⟨?_, hI.lost_subset⟩,
    fun y hy => hI.running_subset y (Multiset.mem_of_mem_erase hy), hI.under_way_erase x,
    fun y hy => ?_, fun y hy => ?_, hI.exhausted⟩
  · exact hI.running_subset x hmem
  · rw [List.count_cons, hI.count_dirty y hy]
    by_cases hyx : y = x
    · have hpos := Multiset.count_pos.mpr hmem
      rw [hyx, Multiset.count_erase_self, if_pos (beq_self_eq_true x)]
      omega
    · rw [Multiset.count_erase_of_ne hyx, if_neg fun h => hyx (beq_iff_eq.mp h).symm]
      omega
  · have hle := hI.count_clean y hy
    show s.started.count y + s.queue.count y ≤ width + (x :: s.lost).count y
    rw [List.count_cons]
    omega

theorem inv_step (hlimit : 0 < limit) {e : Event α} (hI : Inv width items s)
    (h : step width limit s e = some t) : Inv width items t := by
  cases e with
  | read batch => exact inv_read hlimit hI h
  | start => exact inv_start hI h
  | clean x =>
      cases h
      exact inv_clean hI x
  | finish x => exact inv_finish hI h
  | lose x => exact inv_lose hI h

variable {es : List (Event α)}

theorem inv_run (hlimit : 0 < limit) (hs : Fresh s) (hrun : runFrom (step width limit) s es = some t) :
    Inv width s.dirty t :=
  invariant_of_step (fun _ _ _ hI h => inv_step hlimit hI h) s t es (inv_fresh hs) hrun

/-- The handouts are bounded by the items that needed work in the beginning, and by what
    has been given up. -/
theorem Inv.length_le (hI : Inv width items s) :
    s.started.length + s.queue.length ≤ width * items.card + s.lost.length := by
  have hsum : ∑ x ∈ items, ((s.started ++ s.queue : List α) : Multiset α).count x =
      (s.started ++ s.queue).length :=
    Multiset.sum_count_eq_card hI.handed
  have hlost : ∑ x ∈ items, (s.lost : Multiset α).count x = s.lost.length :=
    Multiset.sum_count_eq_card hI.lost_subset
  calc s.started.length + s.queue.length
      = ∑ x ∈ items, ((s.started ++ s.queue : List α) : Multiset α).count x := by
        rw [hsum, List.length_append]
    _ ≤ ∑ x ∈ items, (width + (s.lost : Multiset α).count x) := by
        refine Finset.sum_le_sum fun x _ => ?_
        rw [Multiset.coe_count, Multiset.coe_count, List.count_append]
        exact hI.count_le x
    _ = width * items.card + s.lost.length := by
        rw [Finset.sum_add_distrib, hlost, Finset.sum_const, smul_eq_mul, mul_comm]

end Invariant

end Lib.Pool
