import Tronscan.Lib.Latest
import Tronscan.Lib.Writes

/-!
# Doing It Again

When a list of queries that has been executed leaves a table as it is the next
time.

There are three ways for it to. The rows it adds are deleted first, and what it
does to the others it may do twice. Or it upserts, so that the latest row of
each key is in the table already. Or it writes whole groups, and the last write
to each key is the same.

## Theorems

* `refill_twice`, `replace_twice`: Deleting, rewriting the rest and adding.
* `update_twice`: Updating in place.
* `foldl_upsert_twice`: Upserting, whatever has been deleted in between.
* `applyWrites_twice`: Writing groups.
-/

namespace Lib

variable {α κ : Type*}

/-- Rows that are deleted before they are added again are there once. -/
theorem refill_twice {keep : α → Bool} {rewrite : α → α} {added : List α}
    (hrewrite : ∀ r, rewrite (rewrite r) = rewrite r) (hkeep : ∀ r, keep (rewrite r) = keep r)
    (hadded : ∀ r ∈ added, keep r = false) (rows : List α) :
    (((rows.filter keep).map rewrite ++ added).filter keep).map rewrite ++ added =
      (rows.filter keep).map rewrite ++ added := by
  have hgone : added.filter keep = [] :=
    List.filter_eq_nil_iff.mpr fun r hr => by simp [hadded r hr]
  have hkept : ((rows.filter keep).map rewrite).filter keep = (rows.filter keep).map rewrite := by
    refine List.filter_eq_self.mpr fun r hr => ?_
    rcases List.mem_map.mp hr with ⟨r', hr', rfl⟩
    rw [hkeep]
    exact (List.mem_filter.mp hr').2
  rw [List.filter_append, hgone, hkept, List.append_nil, List.map_map]
  congr 2
  exact funext hrewrite

theorem replace_twice {keep : α → Bool} {added : List α} (hadded : ∀ r ∈ added, keep r = false)
    (rows : List α) :
    (rows.filter keep ++ added).filter keep ++ added = rows.filter keep ++ added := by
  have h : (((rows.filter keep).map id ++ added).filter keep).map id ++ added =
      (rows.filter keep).map id ++ added :=
    refill_twice (fun _ => rfl) (fun _ => rfl) hadded rows
  simpa only [List.map_id] using h

/-- An update in place may be done twice. -/
theorem update_twice (p : α → Prop) [DecidablePred p] (set : α → α) (hp : ∀ r, p (set r) ↔ p r)
    (hset : ∀ r, set (set r) = set r) (rows : List α) :
    ((rows.map fun r => if p r then set r else r).map fun r => if p r then set r else r) =
      rows.map fun r => if p r then set r else r := by
  rw [List.map_map]
  refine List.map_congr_left fun r _ => ?_
  rw [Function.comp_apply]
  by_cases h : p r
  · rw [if_pos h, if_pos ((hp r).mpr h), hset]
  · rw [if_neg h, if_neg h]

variable [DecidableEq κ] {key : α → κ}

/-- Upserting rows again leaves the same rows, even where some of them, and
    nothing else, have been deleted. -/
theorem foldl_upsert_twice (keep : α → Bool) (rows : List α) {table : List α}
    (hnodup : (table.map key).Nodup) (hkeep : ∀ r ∈ table, keep r = true) :
    (rows.foldl (fun table row => upsert key row table)
        ((rows.foldl (fun table row => upsert key row table) table).filter keep)).Perm
      (rows.foldl (fun table row => upsert key row table) table) := by
  have honce := nodup_foldl_upsert_into rows hnodup
  have htwice := nodup_foldl_upsert_into rows (nodup_keys_filter keep honce)
  rw [List.perm_ext_iff_of_nodup htwice.of_map honce.of_map]
  -- A row there is the latest of those upserted, or is from the table and survives
  -- the deletion.
  intro r
  rw [mem_foldl_upsert_into, List.mem_filter, mem_foldl_upsert_into]
  constructor
  · rintro (hlatest | ⟨hnone, h, -⟩)
    · exact .inl hlatest
    · exact h
  · rintro (hlatest | ⟨hnone, hr⟩)
    · exact .inl hlatest
    · exact .inr ⟨hnone, .inr ⟨hnone, hr⟩, hkeep r hr⟩

/-- Writing the same groups again leaves the same rows. -/
theorem applyWrites_twice {ws : List (κ × List α)} (hws : WellKeyed key ws) (table : List α) :
    (applyWrites key ws (applyWrites key ws table)).Perm (applyWrites key ws table) := by
  rw [@perm_iff_rowsOf _ _ key]
  intro k
  -- The rows of a key are those of its last write, or have not been written.
  rw [rowsOf_applyWrites k ws _ hws, rowsOf_applyWrites k ws _ hws]
  cases lastWrite k ws with
  | none => exact List.Perm.refl _
  | some rows => exact List.Perm.refl _

end Lib
