import Tronscan.Lib.Batch
import Mathlib.Data.List.Nodup

/-!
# Surrogate Keys

A table whose rows have a key of their own, which says nothing about the row.
Whoever writes a list of inserts makes up the keys, and an insert fails when its
key is taken.

Executing the same inserts again is then an error, unless the rows have been
deleted. A list of operations is covered when each row it inserts is one that an
operation before it deletes. `exec_of_covered` says that a covered list may be
executed as often as one likes: `Remnants` is what stays true of the table, that
a row with the key of an insert is what has become of the row inserted.

## Main definitions

* `RowOp`, `RowOp.apply`: Inserting a row, deleting or updating those there are.
* `RowOp.exec`: The same on rows with keys, `none` when a key is taken.
* `Covered`, `Stable`: The condition on the operations.
* `Remnants`: The condition on the table.
* `Cleared`: What is true of it between two operations.

## Theorems

* `exec_apply`, `execAll_apply`: The keys do not matter to the rows.
* `covered_append`, `covered_flatMap`, `covered_of_delete`: Covered lists.
* `cleared_exec`, `exec_of_covered`: A covered list executes, step by step.
-/

namespace Lib

variable {α β ι : Type*}

/-- What a query does to the rows of a table. -/
inductive RowOp (α : Type*) where
  | insert (row : α)
  | delete (keep : α → Bool)
  | update (set : α → α)

namespace RowOp

/-- What an operation does to the rows. -/
def apply : RowOp α → List α → List α
  | insert row, rows => rows ++ [row]
  | delete keep, rows => rows.filter keep
  | update set, rows => rows.map set

/-- The operation where rows have keys. The row it inserts gets the key given. -/
def exec [DecidableEq ι] : ι × RowOp α → List (ι × α) → Option (List (ι × α))
  | (id, insert row), table =>
      if id ∈ table.map (·.1) then none else some (table ++ [(id, row)])
  | (_, delete keep), table => some (table.filter fun r => keep r.2)
  | (_, update set), table => some (table.map fun r => (r.1, set r.2))

end RowOp

/-- Each row that is inserted is one that an operation before it deletes. -/
def Covered (ops : List (RowOp α)) : Prop :=
  ∀ before row after, ops = before ++ .insert row :: after →
    ∃ keep, .delete keep ∈ before ∧ keep row = false

/-- An update does not decide whether a row is deleted. -/
def Stable (ops : List (RowOp α)) : Prop :=
  ∀ keep set, .delete keep ∈ ops → .update set ∈ ops → ∀ r, keep (set r) = keep r

/-- A row with the key of an insert is deleted by what deletes the row inserted. -/
def Remnants (ops : List (ι × RowOp α)) (table : List (ι × α)) : Prop :=
  ∀ id row, (id, .insert row) ∈ ops → ∀ r, (id, r) ∈ table →
    ∀ keep, .delete keep ∈ ops.map (·.2) → keep r = keep row

section Covered

theorem covered_of_not_insert {ops : List (RowOp α)} (h : ∀ row, .insert row ∉ ops) :
    Covered ops := by
  intro before row after hops
  exact absurd (hops ▸ List.mem_append_right _ List.mem_cons_self) (h row)

theorem covered_append {ops ops' : List (RowOp α)} (h : Covered ops) (h' : Covered ops') :
    Covered (ops ++ ops') := by
  intro before row after hops
  -- The insert is in the second list, or in the first.
  rcases List.append_eq_append_iff.mp hops with ⟨mid, hbefore, hrest⟩ | ⟨mid, hfirst, hrest⟩
  · rcases h' mid row after hrest with ⟨keep, hkeep, hrow⟩
    exact ⟨keep, hbefore ▸ List.mem_append_right _ hkeep, hrow⟩
  · cases mid with
    | nil =>
        rcases h' [] row after hrest.symm with ⟨keep, hkeep, -⟩
        cases hkeep
    | cons op mid =>
        cases hrest
        exact h before row mid hfirst

theorem covered_flatMap {f : β → List (RowOp α)} {xs : List β} (h : ∀ x ∈ xs, Covered (f x)) :
    Covered (xs.flatMap f) := by
  induction xs with
  | nil => exact covered_of_not_insert fun row => List.not_mem_nil
  | cons x xs ih =>
      rw [List.flatMap_cons]
      exact covered_append (h x List.mem_cons_self)
        (ih fun y hy => h y (List.mem_cons_of_mem x hy))

/-- A delete covers the inserts after it, of rows that it deletes. -/
theorem covered_of_delete {keep : α → Bool} {ops : List (RowOp α)}
    (h : ∀ row, .insert row ∈ ops → keep row = false) : Covered (.delete keep :: ops) := by
  intro before row after hops
  cases before with
  | nil => cases hops
  | cons op before =>
      cases hops
      exact ⟨keep, List.mem_cons_self, h row (List.mem_append_right _ List.mem_cons_self)⟩

end Covered

section Exec

variable [DecidableEq ι] {ops : List (ι × RowOp α)} {table table' : List (ι × α)}

theorem exec_insert {id : ι} {row : α} : RowOp.exec (id, .insert row) table = some table' ↔
    id ∉ table.map (·.1) ∧ table ++ [(id, row)] = table' := by
  have hexec : RowOp.exec (id, .insert row) table =
      if id ∈ table.map (·.1) then none else some (table ++ [(id, row)]) := rfl
  rw [hexec]
  by_cases h : id ∈ table.map (·.1)
  · rw [if_pos h]
    exact iff_of_false (fun hnone => by cases hnone) fun hfree => hfree.1 h
  · rw [if_neg h, Option.some.injEq]
    exact ⟨fun hrows => ⟨h, hrows⟩, fun hrows => hrows.2⟩

/-- The keys do not matter to the rows. -/
theorem exec_apply {op : ι × RowOp α} (h : RowOp.exec op table = some table') :
    table'.map (·.2) = op.2.apply (table.map (·.2)) := by
  rcases op with ⟨id, row | keep | set⟩
  · rw [← (exec_insert.mp h).2, List.map_append]
    rfl
  · cases h
    change _ = (table.map (·.2)).filter keep
    rw [List.filter_map]
    rfl
  · cases h
    change _ = (table.map (·.2)).map set
    rw [List.map_map, List.map_map]
    rfl

/-- So with a list of operations. -/
theorem execAll_apply (h : execAll RowOp.exec ops table = some table') :
    table'.map (·.2) =
      (ops.map (·.2)).foldl (fun rows op => op.apply rows) (table.map (·.2)) := by
  rw [List.foldl_map]
  exact execAll_view (fun t : List (ι × α) => t.map (·.2)) (fun op rows => op.2.apply rows)
    (fun _ _ _ hop => exec_apply hop) ops table table' h

/-- One operation keeps the remnants. -/
theorem remnants_exec (hids : (ops.map (·.1)).Nodup) (hstable : Stable (ops.map (·.2)))
    (htable : Remnants ops table) {op : ι × RowOp α} (hop : op ∈ ops)
    (h : RowOp.exec op table = some table') : Remnants ops table' := by
  intro id row hinsert r hr keep hkeep
  rcases op with ⟨id', row' | keep' | set⟩
  · rw [← (exec_insert.mp h).2] at hr
    rcases List.mem_append.mp hr with hr | hr
    · exact htable id row hinsert r hr keep hkeep
    · -- The keys being distinct, the insert is the one that was executed.
      cases List.mem_singleton.mp hr
      have hsame := List.inj_on_of_nodup_map hids hinsert hop rfl
      cases hsame
      rfl
  · cases h
    exact htable id row hinsert r (List.mem_filter.mp hr).1 keep hkeep
  · -- What is deleted does not change with the update.
    cases h
    rcases List.mem_map.mp hr with ⟨⟨id', r'⟩, hr', hsame⟩
    cases hsame
    rw [hstable keep set hkeep (List.mem_map.mpr ⟨_, hop, rfl⟩)]
    exact htable id' row hinsert r' hr' keep hkeep

/-- An operation adds no key but its own. -/
theorem mem_ids_of_exec {op : ι × RowOp α} {id : ι} (h : RowOp.exec op table = some table')
    (hid : op.1 ≠ id) (hmem : id ∈ table'.map (·.1)) : id ∈ table.map (·.1) := by
  rcases op with ⟨id', row | keep | set⟩
  · rw [← (exec_insert.mp h).2, List.map_append, List.mem_append] at hmem
    exact hmem.resolve_right fun hlast => hid (List.mem_singleton.mp hlast).symm
  · cases h
    exact (List.filter_sublist.map _).subset hmem
  · cases h
    rwa [List.map_map] at hmem

/-- The keys of the inserts to come that a delete has covered are free. -/
def Cleared (before after : List (ι × RowOp α)) (table : List (ι × α)) : Prop :=
  ∀ id row, (id, .insert row) ∈ after → ∀ keep, .delete keep ∈ before.map (·.2) →
    keep row = false → id ∉ table.map (·.1)

/-- The next of the operations executes where they are free. -/
theorem exec_of_cleared {before after : List (ι × RowOp α)} {op : ι × RowOp α}
    (hops : ops = before ++ op :: after) (hcovered : Covered (ops.map (·.2)))
    (h : Cleared before (op :: after) table) : ∃ table', RowOp.exec op table = some table' := by
  rcases op with ⟨id, row | keep | set⟩
  · rcases hcovered (before.map (·.2)) row (after.map (·.2)) (by rw [hops]; simp)
      with ⟨keep, hkeep, hrow⟩
    have hfree := h id row List.mem_cons_self keep hkeep hrow
    exact ⟨_, exec_insert.mpr ⟨hfree, rfl⟩⟩
  · exact ⟨_, rfl⟩
  · exact ⟨_, rfl⟩

/-- It leaves them free, and with them the keys that it clears itself. -/
theorem cleared_exec {before after : List (ι × RowOp α)} {op : ι × RowOp α}
    (hops : ops = before ++ op :: after) (hids : (ops.map (·.1)).Nodup)
    (htable : Remnants ops table) (h : Cleared before (op :: after) table)
    (hexec : RowOp.exec op table = some table') : Cleared (before ++ [op]) after table' := by
  intro id row hinsert keep hkeep hrow hmem
  rw [List.map_append, List.mem_append, List.map_singleton, List.mem_singleton] at hkeep
  rcases hkeep with hearlier | hdelete
  · have hother : op.1 ≠ id := by
      rw [hops, List.map_append, List.map_cons] at hids
      have hnodup := (List.nodup_cons.mp (List.nodup_append.mp hids).2.1).1
      exact fun hid => hnodup (hid ▸ List.mem_map.mpr ⟨_, hinsert, rfl⟩)
    have hbefore := mem_ids_of_exec hexec hother hmem
    exact h id row (List.mem_cons_of_mem op hinsert) keep hearlier hrow hbefore
  · -- The operation deletes what is left of the row.
    rcases op with ⟨id', rowOp⟩
    cases hdelete
    cases hexec
    rcases List.mem_map.mp hmem with ⟨⟨_, r⟩, hr, rfl⟩
    rcases List.mem_filter.mp hr with ⟨hr, hkept⟩
    have hinops : (_, .insert row) ∈ ops :=
      hops ▸ List.mem_append_right _ (List.mem_cons_of_mem _ hinsert)
    have hdeletes : .delete keep ∈ ops.map (·.2) := by
      rw [hops]
      simp
    rw [htable _ row hinops r hr keep hdeletes, hrow] at hkept
    cases hkept

/-- A covered list of operations executes where the rows with their keys are
    remnants of their rows, and leaves such a table. -/
theorem exec_of_covered (hids : (ops.map (·.1)).Nodup) (hcovered : Covered (ops.map (·.2)))
    (hstable : Stable (ops.map (·.2))) (htable : Remnants ops table) :
    ∃ table', execAll RowOp.exec ops table = some table' ∧ Remnants ops table' := by
  -- By induction on what is left to execute.
  suffices h : ∀ before after, ops = before ++ after → ∀ t, Remnants ops t →
      Cleared before after t → ∃ t', execAll RowOp.exec after t = some t' ∧ Remnants ops t' from
    h [] ops rfl table htable fun _ _ _ _ hkeep => absurd hkeep List.not_mem_nil
  intro before after
  induction after generalizing before with
  | nil => exact fun _ t ht _ => ⟨t, rfl, ht⟩
  | cons op after ih =>
      intro hops t ht hcleared
      have hop : op ∈ ops := hops ▸ List.mem_append_right _ List.mem_cons_self
      rcases exec_of_cleared hops hcovered hcleared with ⟨u, hu⟩
      have hremnants := remnants_exec hids hstable ht hop hu
      have hrest := cleared_exec hops hids ht hcleared hu
      rcases ih (before ++ [op]) (by rw [hops]; simp) u hremnants hrest with ⟨t', ht', hlast⟩
      exact ⟨t', execAll_cons_some.mpr ⟨u, hu, ht'⟩, hlast⟩

end Exec

end Lib
