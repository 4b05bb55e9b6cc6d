import Mathlib.Data.List.MinMax
import Mathlib.Data.List.Nodup

/-!
# Keyed Tables

A database table is a list of rows, read as a bag: no statement depends on the
order. A table with a primary key has pairwise distinct keys, and the two ways
of adding a row to it treat a taken key differently. A plain insert is refused;
an upsert overwrites the row that holds the key.

`upsert` overwrites in place rather than deleting and appending. That makes an
upsert of a row that is already there the identity, which is what shows that
replaying rows onto a table changes nothing.

## Main definitions

* `hasKey`: Some row of the table holds a key.
* `upsert`: Insert a row, or overwrite the one with its key.
* `highest`, `lowest`: The row a table sorted by a column begins with.

## Theorems

* `mem_upsert`: An upsert adds its row and removes the one with its key.
* `upsert_of_mem`: Upserting a row that is there changes nothing.
* `upsert_fresh`: Upserting under a free key is an insert.
* `foldl_upsert_of_mem`, `foldl_upsert_fresh`: The same for a list of rows.
* `nodup_keys_append`: An insert under a free key keeps the keys distinct.
* `nodup_keys_upsert`: An upsert keeps the keys distinct.
* `nodup_keys_filter`: A delete keeps the keys distinct.
* `map_keys_update`: An update off the key keeps the keys.
* `hasKey_map`: An update off the key keeps the keys taken.
* `filter_key_eq_singleton`: The row with a key, where no two have the same.
* `filter_keys_eq_iff`: Selections from two tables with the same keys.
* `filter_update_at`, `filter_update_off`: An update of the rows of a group.
* `filter_replace_at`, `filter_replace_off`: Putting other rows in a group's place.
* `countP_eq_iff`: A selection that counts no more than a narrower one.
* `highest_spec`: The highest row is in the table and bounds it.
-/

namespace Lib

section Keys

variable {α κ : Type*} {key : α → κ}

theorem nodup_keys_append {row : α} {rows : List α} (hnodup : (rows.map key).Nodup)
    (hfresh : ∀ r ∈ rows, key r ≠ key row) : ((rows ++ [row]).map key).Nodup := by
  rw [List.map_append, List.map_singleton]
  refine List.Nodup.append hnodup (List.nodup_singleton _) ?_
  intro k hk hk'
  rcases List.mem_map.mp hk with ⟨r, hr, rfl⟩
  exact hfresh r hr (List.mem_singleton.mp hk')

theorem nodup_keys_filter {rows : List α} (p : α → Bool) (hnodup : (rows.map key).Nodup) :
    ((rows.filter p).map key).Nodup :=
  hnodup.sublist (List.filter_sublist.map key)

theorem map_keys_update {rows : List α} (f : α → α) (hf : ∀ r, key (f r) = key r) :
    (rows.map f).map key = rows.map key := by
  rw [List.map_map]
  exact List.map_congr_left fun r _ => hf r

theorem filter_key_eq_singleton [DecidableEq κ] {row : α} {rows : List α}
    (hnodup : (rows.map key).Nodup) (h : row ∈ rows) :
    rows.filter (fun r => decide (key r = key row)) = [row] := by
  rcases List.append_of_mem h with ⟨before, after, rfl⟩
  rw [List.map_append, List.map_cons, List.nodup_middle, List.nodup_cons, List.mem_append] at hnodup
  -- The rows around it have other keys.
  have hbefore : before.filter (fun r => decide (key r = key row)) = [] :=
    List.filter_eq_nil_iff.mpr fun r hr hkey =>
      hnodup.1 (Or.inl (of_decide_eq_true hkey ▸ List.mem_map_of_mem hr))
  have hafter : after.filter (fun r => decide (key r = key row)) = [] :=
    List.filter_eq_nil_iff.mpr fun r hr hkey =>
      hnodup.1 (Or.inr (of_decide_eq_true hkey ▸ List.mem_map_of_mem hr))
  rw [List.filter_append, List.filter_cons, if_pos (decide_eq_true rfl), hbefore, hafter,
    List.nil_append]

/-- Two tables with the same distinct keys, row by row. Selections from them have
    the same keys exactly when they select the same rows. -/
theorem filter_keys_eq_iff {β : Type*} {key' : β → κ} {xs : List α} {ys : List β}
    (hkeys : List.Forall₂ (fun x y => key x = key' y) xs ys) (hnodup : (xs.map key).Nodup)
    (p : α → Bool) (q : β → Bool) :
    (xs.filter p).map key = (ys.filter q).map key' ↔
      List.Forall₂ (fun x y => p x = q y) xs ys := by
  induction hkeys with
  | nil => exact iff_of_true rfl List.Forall₂.nil
  | @cons x y xs ys hxy hrest ih =>
      rw [List.map_cons, List.nodup_cons] at hnodup
      have hmap : xs.map key = ys.map key' := by
        rw [← List.forall₂_eq_eq_eq, List.forall₂_map_left_iff, List.forall₂_map_right_iff]
        exact hrest
      -- The key of the first row is nowhere else.
      have hleft : ∀ r ∈ xs.filter p, key r ≠ key x := fun r hr h =>
        hnodup.1 (h ▸ List.mem_map_of_mem (List.mem_of_mem_filter hr))
      have hright : ∀ r ∈ ys.filter q, key' r ≠ key x := fun r hr h =>
        hnodup.1 (hmap ▸ h ▸ List.mem_map_of_mem (List.mem_of_mem_filter hr))
      rw [List.forall₂_cons, List.filter_cons, List.filter_cons, ← ih hnodup.2]
      cases hp : p x <;> cases hq : q y
      · simp only [Bool.false_eq_true, if_false, true_and]
      · simp only [Bool.false_eq_true, if_false, if_true, List.map_cons, false_and, iff_false]
        intro h
        rcases List.mem_map.mp (h ▸ List.mem_cons_self : key' y ∈ (xs.filter p).map key) with
          ⟨r, hr, hkey⟩
        exact hleft r hr (hkey.trans hxy.symm)
      · simp only [Bool.false_eq_true, if_false, if_true, List.map_cons, Bool.true_eq_false,
          false_and, iff_false]
        intro h
        rcases List.mem_map.mp (h ▸ List.mem_cons_self : key x ∈ (ys.filter q).map key') with
          ⟨r, hr, hkey⟩
        exact hright r hr hkey
      · simp only [if_true, List.map_cons, hxy, List.cons.injEq, true_and]

/-- Where one selection is part of another, they count the same exactly when the
    other has no more rows. -/
theorem countP_eq_iff {p q : α → Bool} {rows : List α} (h : ∀ r ∈ rows, p r = true → q r = true) :
    rows.countP p = rows.countP q ↔ ∀ r ∈ rows, q r = true → p r = true := by
  have hinside : rows.countP p = (rows.filter q).countP p := by
    rw [List.countP_filter]
    refine List.countP_congr fun r hr => ?_
    rw [Bool.and_eq_true]
    exact ⟨fun hp => ⟨hp, h r hr hp⟩, fun hpq => hpq.1⟩
  rw [hinside, List.countP_eq_length_filter (p := q), List.countP_eq_length]
  simp only [List.mem_filter, and_imp]

end Keys

section Groups

variable {α κ : Type*} [DecidableEq κ] (group : α → κ) {k : κ} {rows new : List α}

theorem group_update {f : α → α} (hf : ∀ r, group (f r) = group r) (r : α) :
    group (if group r = k then f r else r) = group r := by
  split
  · exact hf r
  · rfl

/-- Updating the rows of a group updates what the group holds. -/
theorem filter_update_at {f : α → α} (hf : ∀ r, group (f r) = group r) :
    (rows.map fun r => if group r = k then f r else r).filter (fun r => decide (group r = k)) =
      (rows.filter fun r => decide (group r = k)).map f := by
  simp only [List.filter_map, Function.comp_def, group_update group hf]
  refine List.map_congr_left fun r hr => ?_
  exact if_pos (of_decide_eq_true (List.mem_filter.mp hr).2)

/-- And leaves the other groups alone. -/
theorem filter_update_off {f : α → α} (hf : ∀ r, group (f r) = group r) :
    (rows.map fun r => if group r = k then f r else r).filter (fun r => decide (group r ≠ k)) =
      rows.filter fun r => decide (group r ≠ k) := by
  simp only [List.filter_map, Function.comp_def, group_update group hf]
  refine (List.map_congr_left fun r hr => ?_).trans (List.map_id' _)
  exact if_neg (of_decide_eq_true (List.mem_filter.mp hr).2)

/-- Deleting a group and appending rows of it leaves these as the group. -/
theorem filter_replace_at (hnew : ∀ r ∈ new, group r = k) :
    (rows.filter (fun r => decide (group r ≠ k)) ++ new).filter (fun r => decide (group r = k)) =
      new := by
  rw [List.filter_append, List.filter_filter, List.filter_eq_nil_iff.mpr, List.nil_append]
  · exact List.filter_eq_self.mpr fun r hr => decide_eq_true (hnew r hr)
  · intro r _
    rw [← Bool.decide_and, decide_eq_true_eq]
    exact fun h => h.2 h.1

/-- And leaves the other groups alone. -/
theorem filter_replace_off (hnew : ∀ r ∈ new, group r = k) :
    (rows.filter (fun r => decide (group r ≠ k)) ++ new).filter (fun r => decide (group r ≠ k)) =
      rows.filter fun r => decide (group r ≠ k) := by
  have hnone : new.filter (fun r => decide (group r ≠ k)) = [] := by
    refine List.filter_eq_nil_iff.mpr fun r hr => ?_
    rw [decide_eq_true_eq]
    exact not_not.mpr (hnew r hr)
  rw [List.filter_append, List.filter_filter, hnone, List.append_nil]
  simp only [Bool.and_self]

end Groups

section Order

variable {α κ : Type*} [LinearOrder κ] {column : α → κ} {rows : List α}

/-- The first row in descending order of a column. -/
def highest (column : α → κ) (rows : List α) : Option α :=
  rows.argmax column

/-- The first row in ascending order of a column. -/
def lowest (column : α → κ) (rows : List α) : Option α :=
  rows.argmin column

theorem highest_spec {row : α} (h : highest column rows = some row) :
    row ∈ rows ∧ ∀ r ∈ rows, column r ≤ column row :=
  ⟨List.argmax_mem h, fun _ hr => List.le_of_mem_argmax hr h⟩

theorem highest_eq_none : highest column rows = none ↔ rows = [] :=
  List.argmax_eq_none

end Order

variable {α κ : Type*} [DecidableEq κ] (key : α → κ)

/-- Some row holds the key. -/
def hasKey (k : κ) (rows : List α) : Bool :=
  rows.any fun r => decide (key r = k)

/-- Insert a row, or overwrite the row that holds its key. -/
def upsert (row : α) (rows : List α) : List α :=
  if hasKey key (key row) rows then rows.map fun r => if key r = key row then row else r
  else rows ++ [row]

variable {key}

theorem hasKey_iff {k : κ} {rows : List α} : hasKey key k rows = true ↔ ∃ r ∈ rows, key r = k := by
  simp only [hasKey, List.any_eq_true, decide_eq_true_eq]

theorem hasKey_eq_false {k : κ} {rows : List α} :
    hasKey key k rows = false ↔ ∀ r ∈ rows, key r ≠ k := by
  simp only [hasKey, List.any_eq_false, decide_eq_true_eq, ne_eq]

theorem upsert_fresh {row : α} {rows : List α} (h : ∀ r ∈ rows, key r ≠ key row) :
    upsert key row rows = rows ++ [row] := by
  rw [upsert, hasKey_eq_false.mpr h, if_neg Bool.false_ne_true]

theorem mem_upsert {row r : α} {rows : List α} :
    r ∈ upsert key row rows ↔ r = row ∨ (r ∈ rows ∧ key r ≠ key row) := by
  by_cases hk : hasKey key (key row) rows
  · -- The row that holds the key is overwritten, and there is one.
    rw [upsert, if_pos hk, List.mem_map]
    constructor
    · rintro ⟨q, hq, rfl⟩
      by_cases hqk : key q = key row
      · exact Or.inl (if_pos hqk)
      · rw [if_neg hqk]
        exact Or.inr ⟨hq, hqk⟩
    · rintro (rfl | ⟨hr, hrk⟩)
      · rcases hasKey_iff.mp hk with ⟨q, hq, hqk⟩
        exact ⟨q, hq, if_pos hqk⟩
      · exact ⟨r, hr, if_neg hrk⟩
  · have hfresh := hasKey_eq_false.mp (Bool.not_eq_true _ ▸ hk)
    rw [upsert_fresh hfresh, List.mem_append, List.mem_singleton, or_comm]
    exact or_congr_right ⟨fun hr => ⟨hr, hfresh r hr⟩, fun hr => hr.1⟩

/-- Upserting a row that is there overwrites it by itself. -/
theorem upsert_of_mem {row : α} {rows : List α} (hnodup : (rows.map key).Nodup)
    (hrow : row ∈ rows) : upsert key row rows = rows := by
  rw [upsert, if_pos (hasKey_iff.mpr ⟨row, hrow, rfl⟩)]
  -- The one row with its key is the row itself.
  have hsame : ∀ r ∈ rows, (if key r = key row then row else r) = r := by
    intro r hr
    by_cases hk : key r = key row
    · rw [if_pos hk]
      exact (List.inj_on_of_nodup_map hnodup hr hrow hk).symm
    · rw [if_neg hk]
  exact (List.map_congr_left hsame).trans (List.map_id' rows)

/-- An update that keeps the keys. -/
theorem hasKey_map {f : α → α} (hf : ∀ r, key (f r) = key r) {k : κ} {rows : List α} :
    hasKey key k (rows.map f) = hasKey key k rows := by
  rw [hasKey, hasKey, List.any_map]
  exact congrArg rows.any (funext fun r => by rw [Function.comp_apply, hf])

/-- Replaying rows that are all there changes nothing. -/
theorem foldl_upsert_of_mem {rows table : List α} (hnodup : (table.map key).Nodup)
    (hrows : ∀ row ∈ rows, row ∈ table) :
    rows.foldl (fun t row => upsert key row t) table = table := by
  induction rows with
  | nil => rfl
  | cons row rows ih =>
      rw [List.foldl_cons, upsert_of_mem hnodup (hrows row List.mem_cons_self)]
      exact ih fun r hr => hrows r (List.mem_cons_of_mem row hr)

/-- Rows under free and distinct keys are appended. -/
theorem foldl_upsert_fresh {rows table : List α} (hnodup : (rows.map key).Nodup)
    (hfresh : ∀ row ∈ rows, ∀ r ∈ table, key r ≠ key row) :
    rows.foldl (fun t row => upsert key row t) table = table ++ rows := by
  induction rows generalizing table with
  | nil => rw [List.foldl_nil, List.append_nil]
  | cons row rows ih =>
      rw [List.map_cons, List.nodup_cons] at hnodup
      rw [List.foldl_cons, upsert_fresh (hfresh row List.mem_cons_self), ih hnodup.2,
        List.append_assoc, List.singleton_append]
      intro r hr q hq hkey
      rcases List.mem_append.mp hq with hq | hq
      · exact hfresh r (List.mem_cons_of_mem row hr) q hq hkey
      · rw [List.mem_singleton.mp hq] at hkey
        exact hnodup.1 (hkey ▸ List.mem_map_of_mem hr)

theorem nodup_keys_upsert {row : α} {rows : List α} (hnodup : (rows.map key).Nodup) :
    ((upsert key row rows).map key).Nodup := by
  by_cases hk : hasKey key (key row) rows
  · have hkeys : (upsert key row rows).map key = rows.map key := by
      rw [upsert, if_pos hk, List.map_map]
      refine List.map_congr_left (fun r _ => ?_)
      rw [Function.comp_apply]
      by_cases hr : key r = key row
      · rw [if_pos hr, hr]
      · rw [if_neg hr]
    rw [hkeys]
    exact hnodup
  · have hfresh := hasKey_eq_false.mp (Bool.not_eq_true _ ▸ hk)
    rw [upsert_fresh hfresh]
    exact nodup_keys_append hnodup hfresh

end Lib
