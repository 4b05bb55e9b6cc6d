import Mathlib.Data.List.Count
import Mathlib.Data.List.Perm.Basic

/-!
# Last Writer Wins

A table in which each key owns a group of rows, and a write replaces the whole
group of one key. After a log of writes, a key's group is what the last write
to that key put there, so the table is determined by the last write to each
key and by nothing else in the log.

`replay_perm_iff` is about repairing history. A log `pre ++ mid ++ post` has
already been applied when it turns out that `mid'` should have stood where
`mid` did. Appending `mid'` at the end is cheap and usually wrong: it wins over
`post`, and it leaves standing what only `mid` wrote. The theorem says exactly
when it is right. Rows carry a tag naming the part of the log they come from,
which is what tells a group from the one it should have been; two groups from
different parts agree only by both being empty.

## Main definitions

* `write`: Replace the group of one key.
* `applyWrites`: A log of writes, applied in order.
* `rowsOf`: The group of a key.
* `lastWrite`: The last group a log writes to a key.
* `WellKeyed`: Every write writes rows of its own key.
* `Tagged`: Every row of a log carries a tag satisfying a predicate.

## Theorems

* `rowsOf_write`: A write sets its own group and no other.
* `applyWrites_append`: A log in two parts.
* `rowsOf_applyWrites`: A group holds what the last write to it put there.
* `lastWrite_append`: The later part of a log wins.
* `lastWrite_mem`, `lastWrite_eq_none`: The last write is one of the writes, if
  there are any.
* `perm_iff_rowsOf`: Tables agree as bags when they agree key by key.
* `replay_perm_iff`: When replaying at the end amounts to rewriting the middle.
-/

namespace Lib

variable {β κ τ : Type*} (key : β → κ)

/-- Every write writes rows of its own key. -/
def WellKeyed (ws : List (κ × List β)) : Prop :=
  ∀ w ∈ ws, ∀ r ∈ w.2, key r = w.1

/-- Every row a log writes carries a tag satisfying the predicate. -/
def Tagged (tag : β → τ) (p : τ → Prop) (ws : List (κ × List β)) : Prop :=
  ∀ w ∈ ws, ∀ r ∈ w.2, p (tag r)

theorem wellKeyed_append {key : β → κ} {as bs : List (κ × List β)} :
    WellKeyed key (as ++ bs) ↔ WellKeyed key as ∧ WellKeyed key bs := by
  simp only [WellKeyed, List.forall_mem_append]

variable [DecidableEq κ]

/-- Replace the group of one key by the rows given. -/
def write (w : κ × List β) (table : List β) : List β :=
  table.filter (fun r => decide (key r ≠ w.1)) ++ w.2

/-- Apply a log of writes in order. -/
def applyWrites (ws : List (κ × List β)) (table : List β) : List β :=
  ws.foldl (fun t w => write key w t) table

/-- The rows of one key. -/
def rowsOf (k : κ) (table : List β) : List β :=
  table.filter fun r => decide (key r = k)

/-- The last group a log writes to a key, if it writes to it at all. -/
def lastWrite (k : κ) : List (κ × List β) → Option (List β)
  | [] => none
  | w :: ws => (lastWrite k ws).or (if w.1 = k then some w.2 else none)

variable {key}

/-- A write sets its own group and leaves the others as they were. -/
theorem rowsOf_write (k : κ) (w : κ × List β) (table : List β) (hw : ∀ r ∈ w.2, key r = w.1) :
    rowsOf key k (write key w table) = if w.1 = k then w.2 else rowsOf key k table := by
  rw [rowsOf, write, List.filter_append, List.filter_filter]
  by_cases hk : w.1 = k
  · -- The group of the key goes, and the rows written take its place.
    have hold : table.filter (fun r => decide (key r = k) && decide (key r ≠ w.1)) = [] := by
      refine List.filter_eq_nil_iff.mpr (fun r _ => ?_)
      rw [hk, ← Bool.decide_and, decide_eq_true_eq]
      exact fun h => h.2 h.1
    rw [if_pos hk, hold, List.nil_append]
    exact List.filter_eq_self.mpr fun r hr => decide_eq_true ((hw r hr).trans hk)
  · -- No row of the key goes or comes.
    have hnew : w.2.filter (fun r => decide (key r = k)) = [] := by
      refine List.filter_eq_nil_iff.mpr (fun r hr => ?_)
      rw [hw r hr, decide_eq_true_eq]
      exact hk
    rw [if_neg hk, hnew, List.append_nil, rowsOf]
    refine List.filter_congr (fun r _ => ?_)
    rw [← Bool.decide_and, decide_eq_decide]
    exact ⟨fun h => h.1, fun h => ⟨h, fun hr => hk (hr.symm.trans h)⟩⟩

/-- A group holds what the last write to its key put there. -/
theorem rowsOf_applyWrites (k : κ) (ws : List (κ × List β)) (table : List β)
    (hws : WellKeyed key ws) :
    rowsOf key k (applyWrites key ws table) = (lastWrite k ws).getD (rowsOf key k table) := by
  induction ws generalizing table with
  | nil => rfl
  | cons w ws ih =>
      rw [applyWrites, List.foldl_cons]
      refine (ih (write key w table) (fun v hv => hws v (List.mem_cons_of_mem w hv))).trans ?_
      rw [rowsOf_write k w table (hws w List.mem_cons_self), lastWrite]
      cases lastWrite k ws with
      | some rows => rfl
      | none =>
          rw [Option.getD_none, Option.none_or]
          by_cases hk : w.1 = k
          · rw [if_pos hk, if_pos hk, Option.getD_some]
          · rw [if_neg hk, if_neg hk, Option.getD_none]

theorem applyWrites_append (as bs : List (κ × List β)) (table : List β) :
    applyWrites key (as ++ bs) table = applyWrites key bs (applyWrites key as table) :=
  List.foldl_append

theorem lastWrite_append (k : κ) (as bs : List (κ × List β)) :
    lastWrite k (as ++ bs) = (lastWrite k bs).or (lastWrite k as) := by
  induction as with
  | nil => rw [List.nil_append, lastWrite, Option.or_none]
  | cons a as ih => rw [List.cons_append, lastWrite, lastWrite, ih, Option.or_assoc]

theorem lastWrite_mem {k : κ} {ws : List (κ × List β)} {rows : List β}
    (h : lastWrite k ws = some rows) : (k, rows) ∈ ws := by
  induction ws with
  | nil => simp only [lastWrite, reduceCtorEq] at h
  | cons w ws ih =>
      rw [lastWrite, Option.or_eq_some_iff] at h
      rcases h with h | ⟨_, h⟩
      · exact List.mem_cons_of_mem w (ih h)
      · by_cases hk : w.1 = k
        · rw [if_pos hk, Option.some.injEq] at h
          rw [← hk, ← h]
          exact List.mem_cons_self
        · rw [if_neg hk] at h
          exact absurd h (by simp only [reduceCtorEq, not_false_eq_true])

/-- A log that writes to a key has a last write to it. -/
theorem lastWrite_eq_none {k : κ} {ws : List (κ × List β)} :
    lastWrite k ws = none ↔ k ∉ ws.map (·.1) := by
  induction ws with
  | nil => exact iff_of_true rfl List.not_mem_nil
  | cons w ws ih =>
      rw [lastWrite, Option.or_eq_none_iff, ih, List.map_cons, List.mem_cons, not_or, and_comm,
        eq_comm (a := k)]
      refine and_congr_left fun _ => ?_
      by_cases hk : w.1 = k
      · rw [if_pos hk]
        exact iff_of_false (fun h => by cases h) (not_not.mpr hk)
      · rw [if_neg hk]
        exact iff_of_true rfl hk

/-- Tables agree as bags exactly when they agree key by key. -/
theorem perm_iff_rowsOf {s t : List β} :
    s.Perm t ↔ ∀ k, (rowsOf key k s).Perm (rowsOf key k t) := by
  classical
  constructor
  · exact fun h k => h.filter _
  · intro h
    refine List.perm_iff_count.mpr (fun r => ?_)
    have hcount : ∀ rows : List β, (rowsOf key (key r) rows).count r = rows.count r :=
      fun rows => List.count_filter (p := fun q => decide (key q = key r)) (decide_eq_true rfl)
    rw [← hcount s, ← hcount t]
    exact (h (key r)).count_eq r

/-- Groups whose rows carry different tags agree only by both being empty. -/
theorem perm_iff_nil_of_tags {tag : β → τ} {n : τ} {xs ys : List β}
    (hxs : ∀ r ∈ xs, tag r = n) (hys : ∀ r ∈ ys, tag r ≠ n) :
    xs.Perm ys ↔ xs = [] ∧ ys = [] := by
  constructor
  · intro h
    have hnil : xs = [] := by
      refine List.eq_nil_iff_forall_not_mem.mpr (fun r hr => ?_)
      exact hys r (h.mem_iff.mp hr) (hxs r hr)
    rw [hnil] at h
    exact ⟨hnil, List.nil_perm.mp h⟩
  · rintro ⟨rfl, rfl⟩
    exact List.Perm.nil

/-- When appending `mid'` to a log repairs it as putting `mid'` in the place of
    `mid` would. For each key: a later write must not be overwritten, and what
    only `mid` wrote must not be left standing, unless the groups concerned are
    empty anyway. -/
theorem replay_perm_iff (tag : β → τ) (n : τ) (pre mid mid' post : List (κ × List β))
    (hpre : WellKeyed key pre) (hmid : WellKeyed key mid) (hmid' : WellKeyed key mid')
    (hpost : WellKeyed key post) (tpre : Tagged tag (· ≠ n) pre) (tmid : Tagged tag (· = n) mid)
    (tmid' : Tagged tag (· = n) mid') (tpost : Tagged tag (· ≠ n) post) :
    (applyWrites key (pre ++ mid ++ post ++ mid') []).Perm
        (applyWrites key (pre ++ mid' ++ post) []) ↔
      ∀ k, (∀ rows' rows, lastWrite k mid' = some rows' → lastWrite k post = some rows →
          rows' = [] ∧ rows = []) ∧
        (lastWrite k mid' = none → lastWrite k post = none → ∀ rows, lastWrite k mid = some rows →
          rows = [] ∧ (lastWrite k pre).getD [] = []) := by
  have hleft : WellKeyed key (pre ++ mid ++ post ++ mid') := by
    simp only [wellKeyed_append]
    exact ⟨⟨⟨hpre, hmid⟩, hpost⟩, hmid'⟩
  have hright : WellKeyed key (pre ++ mid' ++ post) := by
    simp only [wellKeyed_append]
    exact ⟨⟨hpre, hmid'⟩, hpost⟩
  rw [@perm_iff_rowsOf _ _ key]
  refine forall_congr' (fun k => ?_)
  rw [rowsOf_applyWrites k _ _ hleft, rowsOf_applyWrites k _ _ hright]
  simp only [lastWrite_append, rowsOf, List.filter_nil]
  -- The four parts of the log decide the case: what `mid'` and `post` write.
  rcases hm' : lastWrite k mid' with _ | rows'
  · rcases hp : lastWrite k post with _ | rows
    · rcases hm : lastWrite k mid with _ | rows
      · -- Neither log has the key: both tables hold what `pre` wrote.
        simp only [Option.none_or, reduceCtorEq, false_implies, implies_true, true_and]
        exact iff_of_true (List.Perm.refl _) trivial
      · -- The group of `mid` is left standing where that of `pre` should be.
        simp only [Option.none_or, Option.some_or, Option.getD_some, reduceCtorEq, false_implies,
          implies_true, true_and, true_implies, Option.some.injEq, forall_eq']
        refine @perm_iff_nil_of_tags _ _ tag n _ _ (tmid _ (lastWrite_mem hm)) ?_
        intro r hr
        rcases hq : lastWrite k pre with _ | rows
        · rw [hq, Option.getD_none] at hr
          exact absurd hr List.not_mem_nil
        · rw [hq, Option.getD_some] at hr
          exact tpre _ (lastWrite_mem hq) r hr
    · -- `post` has the last word on both sides.
      simp only [Option.none_or, Option.some_or, Option.getD_some, reduceCtorEq, false_implies,
        implies_true, true_and]
      exact iff_of_true (List.Perm.refl _) trivial
  · rcases hp : lastWrite k post with _ | rows
    · -- So has `mid'`, wherever it stands.
      simp only [Option.none_or, Option.some_or, Option.getD_some, reduceCtorEq, false_implies,
        implies_true, and_true]
      exact iff_of_true (List.Perm.refl _) trivial
    · -- The group of `mid'` is on top where that of `post` should be.
      simp only [Option.some_or, Option.getD_some, reduceCtorEq, false_implies, and_true,
        Option.some.injEq, forall_eq', forall_apply_eq_imp_iff]
      exact perm_iff_nil_of_tags (tmid' _ (lastWrite_mem hm')) (tpost _ (lastWrite_mem hp))

end Lib
