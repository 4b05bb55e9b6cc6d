import Mathlib.Data.List.Basic

/-!
# Atomic Batches

A store that executes queries one at a time and batches of them atomically.
A query is a partial state transformer, `none` standing for a violated
constraint; a batch runs its queries in order and either all of them take
effect or none does.

A query stream is cut into batches by a timer as well as by size, so a cut can
fall after any query. `groupedWithin` is that stage: it collects the elements
into a group, and lets the group go when it is full, when the timer fires, or
when the stream ends. The timer is an input, one flag for each element, so a
statement about every `fired` is a statement about every way to cut.

`runBatches` takes each batch with a flag saying whether its transaction
commits. A batch that fails, for whatever reason, is dropped and the stream
goes on with the next one.

## Main definitions

* `execAll`: The queries of one transaction, all or none.
* `groupFrom`: The grouping stage with a group already open.
* `groupedWithin`: Cutting a stream into groups, by size and by a timer.
* `runBatches`: Batch after batch, dropping those whose transaction fails.
* `committed`: The queries of the batches that commit.
* `withFates`: Giving the batches their fates.
* `runDropping`: The same where a violated constraint makes a batch fail.

## Theorems

* `execAll_append`: A transaction splits at any query.
* `execAll_induction`: The invariant rule for one transaction.
* `execAll_view`: A view each query updates by itself is updated by a fold.
* `groupedWithin_flatten`: Grouping loses and reorders nothing.
* `groupedWithin_length_le`: No group is larger than the bound.
* `groupFrom_ne_nil`: No group is empty.
* `groupedWithin_complete`: Every cut within the bound is the work of some timer.
* `groupFrom_close`: A timer that fires at a group's end lets it go.
* `mem_committed`: A query commits with the batch it is in.
* `committed_sublist`: What commits is part of the stream.
* `countP_committed_eq_iff`: When all queries of some kind commit.
* `exists_committed_eq`: Any part of a stream may be what commits.
* `runBatches_eq_execAll`: What a run leaves is what its committed queries do.
* `runDropping_exec`, `runDropping_sublist`: So it is when batches may fail.
* `runDropping_of_exec`: Batches that may commit do, where their queries execute.
-/

namespace Lib

variable {σ κ β α : Type*}

/-- Execute the queries in order; `none` when one of them fails. -/
def execAll (exec : κ → σ → Option σ) : List κ → σ → Option σ
  | [], s => some s
  | q :: qs, s => (exec q s).bind (execAll exec qs)

section Transaction

variable {exec : κ → σ → Option σ}

theorem execAll_cons_some {q : κ} {qs : List κ} {s t : σ} :
    execAll exec (q :: qs) s = some t ↔ ∃ u, exec q s = some u ∧ execAll exec qs u = some t := by
  simp only [execAll, Option.bind_eq_some_iff]

theorem execAll_append (ps qs : List κ) (s : σ) :
    execAll exec (ps ++ qs) s = (execAll exec ps s).bind (execAll exec qs) := by
  induction ps generalizing s with
  | nil => rfl
  | cons p ps ih =>
      simp only [List.cons_append, execAll]
      cases exec p s with
      | none => rfl
      | some t => exact ih t

theorem execAll_append_some {ps qs : List κ} {s t : σ} :
    execAll exec (ps ++ qs) s = some t ↔
      ∃ u, execAll exec ps s = some u ∧ execAll exec qs u = some t := by
  rw [execAll_append, Option.bind_eq_some_iff]

/-- An invariant kept by each query of a transaction is kept by the whole. -/
theorem execAll_induction {I : σ → Prop} (qs : List κ)
    (hstep : ∀ q ∈ qs, ∀ s t, I s → exec q s = some t → I t) (s t : σ)
    (hI : I s) (h : execAll exec qs s = some t) : I t := by
  induction qs generalizing s with
  | nil =>
      simp only [execAll, Option.some.injEq] at h
      exact h ▸ hI
  | cons q qs ih =>
      rcases execAll_cons_some.mp h with ⟨u, hu, hrest⟩
      exact ih (fun p hp => hstep p (List.mem_cons_of_mem q hp)) u
        (hstep q List.mem_cons_self s u hI hu) hrest

/-- If each query moves a view of the state by a function of the view alone, a
    transaction moves it by the fold of those functions. -/
theorem execAll_view (view : σ → β) (f : κ → β → β)
    (hview : ∀ q s t, exec q s = some t → view t = f q (view s)) (qs : List κ) (s t : σ)
    (h : execAll exec qs s = some t) : view t = qs.foldl (fun b q => f q b) (view s) := by
  induction qs generalizing s with
  | nil =>
      simp only [execAll, Option.some.injEq] at h
      rw [h, List.foldl_nil]
  | cons q qs ih =>
      rcases execAll_cons_some.mp h with ⟨u, hu, hrest⟩
      rw [List.foldl_cons, ← hview q s u hu]
      exact ih u hrest

end Transaction

/-- The grouping stage with a group already open. The timer's flag for an
    element says whether it fires right after that element; a timer that runs
    out of flags does not fire again. -/
def groupFrom (max : Nat) : List Bool → List α → List α → List (List α)
  | _, group, [] => if group.isEmpty then [] else [group]
  | fired, group, x :: xs =>
      -- The group goes when the timer fires or when `x` fills it.
      if fired.headD false ∨ max ≤ group.length + 1 then
        (group ++ [x]) :: groupFrom max fired.tail [] xs
      else groupFrom max fired.tail (group ++ [x]) xs

/-- Cut a stream into groups of at most `max` elements. -/
def groupedWithin (max : Nat) (fired : List Bool) (xs : List α) : List (List α) :=
  groupFrom max fired [] xs

section Grouping

theorem groupFrom_flatten (max : Nat) (fired : List Bool) (group xs : List α) :
    (groupFrom max fired group xs).flatten = group ++ xs := by
  induction xs generalizing fired group with
  | nil =>
      cases group with
      | nil => rfl
      | cons y ys => simp only [groupFrom, List.isEmpty_cons, Bool.false_eq_true, if_false,
          List.flatten_cons, List.flatten_nil]
  | cons x xs ih =>
      rw [groupFrom]
      split
      · rw [List.flatten_cons, ih, List.nil_append, List.append_assoc, List.singleton_append]
      · rw [ih, List.append_assoc, List.singleton_append]

theorem groupedWithin_flatten (max : Nat) (fired : List Bool) (xs : List α) :
    (groupedWithin max fired xs).flatten = xs :=
  groupFrom_flatten max fired [] xs

theorem groupFrom_length_le (max : Nat) (fired : List Bool) (group xs : List α)
    (hgroup : group.length < max) : ∀ g ∈ groupFrom max fired group xs, g.length ≤ max := by
  induction xs generalizing fired group with
  | nil =>
      intro g hg
      cases group with
      | nil => simp only [groupFrom, List.isEmpty_nil, if_true, List.not_mem_nil] at hg
      | cons y ys =>
          simp only [groupFrom, List.isEmpty_cons, Bool.false_eq_true, if_false,
            List.mem_singleton] at hg
          rw [hg]
          omega
  | cons x xs ih =>
      intro g hg
      rw [groupFrom] at hg
      split at hg
      · -- The group is let go with one element more than it had.
        rcases List.mem_cons.mp hg with rfl | hrest
        · simp only [List.length_append, List.length_singleton]
          omega
        · exact ih fired.tail [] (by simp only [List.length_nil]; omega) g hrest
      · rename_i hopen
        refine ih fired.tail (group ++ [x]) ?_ g hg
        simp only [List.length_append, List.length_singleton]
        omega

theorem groupedWithin_length_le (max : Nat) (hmax : 0 < max) (fired : List Bool) (xs : List α) :
    ∀ g ∈ groupedWithin max fired xs, g.length ≤ max :=
  groupFrom_length_le max fired [] xs hmax

/-- No group is empty: one is let go with an element, or closed where it has some. -/
theorem groupFrom_ne_nil (max : Nat) (fired : List Bool) (group xs : List α) :
    ∀ g ∈ groupFrom max fired group xs, g ≠ [] := by
  induction xs generalizing fired group with
  | nil =>
      intro g hg
      cases group with
      | nil => simp only [groupFrom, List.isEmpty_nil, if_true, List.not_mem_nil] at hg
      | cons y ys =>
          simp only [groupFrom, List.isEmpty_cons, Bool.false_eq_true, if_false,
            List.mem_singleton] at hg
          rw [hg]
          exact List.cons_ne_nil y ys
  | cons x xs ih =>
      intro g hg
      rw [groupFrom] at hg
      split at hg
      · rcases List.mem_cons.mp hg with rfl | hrest
        · exact List.append_ne_nil_of_right_ne_nil group (List.cons_ne_nil x [])
        · exact ih fired.tail [] g hrest
      · exact ih fired.tail (group ++ [x]) g hg

/-- Feeding a whole group to the open stage with a timer that fires at its end
    lets exactly that group go. -/
theorem groupFrom_close (max : Nat) (flags : List Bool) (group rest ys xs : List α) (y : α)
    (hys : ys = rest ++ [y]) (hlen : group.length + ys.length ≤ max) :
    groupFrom max (List.replicate rest.length false ++ true :: flags) group (ys ++ xs) =
      (group ++ ys) :: groupFrom max flags [] xs := by
  subst hys
  induction rest generalizing group with
  | nil =>
      simp only [List.nil_append, List.singleton_append, List.length_nil, List.replicate_zero,
        groupFrom, List.headD_cons, List.tail_cons, true_or, if_true]
  | cons z zs ih =>
      -- The group is not complete yet: the timer is quiet and there is room.
      simp only [List.length_cons, List.length_append, List.length_nil, Nat.zero_add] at hlen
      have hopen : ¬ (False ∨ max ≤ group.length + 1) := by
        rw [false_or]
        omega
      have hrest := ih (group ++ [z]) (by
        simp only [List.length_append, List.length_singleton]
        omega)
      simp only [List.cons_append, List.length_cons, List.replicate_succ, groupFrom,
        List.headD_cons, List.tail_cons, Bool.false_eq_true, if_neg hopen]
      rw [hrest, List.append_assoc, List.singleton_append]

/-- Every cut of a stream into non-empty groups within the bound comes out of
    the stage for some timer, so quantifying over timers misses no cut. -/
theorem groupedWithin_complete (max : Nat) (groups : List (List α))
    (hne : ∀ g ∈ groups, g ≠ []) (hmax : ∀ g ∈ groups, g.length ≤ max) :
    ∃ fired, groupedWithin max fired groups.flatten = groups := by
  induction groups with
  | nil => exact ⟨[], rfl⟩
  | cons g groups ih =>
      rcases ih (fun h hh => hne h (List.mem_cons_of_mem g hh))
        (fun h hh => hmax h (List.mem_cons_of_mem g hh)) with ⟨flags, hflags⟩
      rcases List.eq_nil_or_concat g with hnil | ⟨rest, y, hg⟩
      · exact absurd hnil (hne g List.mem_cons_self)
      · -- The timer fires at the end of the first group and not before.
        refine ⟨List.replicate rest.length false ++ true :: flags, ?_⟩
        have hlen := hmax g List.mem_cons_self
        rw [List.flatten_cons, groupedWithin, groupFrom_close max flags [] rest g _ y
          (by rw [hg, List.concat_eq_append]) (by simpa only [List.length_nil, Nat.zero_add])]
        rw [List.nil_append]
        exact congrArg (g :: ·) hflags

end Grouping

/-- Run batch after batch. A batch is one transaction with a flag for whether
    it commits; one that fails is dropped. The result is `none` when a batch
    marked as committing violates a constraint where it is reached. -/
def runBatches (exec : κ → σ → Option σ) : List (List κ × Bool) → σ → Option σ
  | [], s => some s
  | (qs, commits) :: rest, s =>
      if commits then (execAll exec qs s).bind (runBatches exec rest)
      else runBatches exec rest s

/-- The queries of the batches that commit, in order. -/
def committed (batches : List (List κ × Bool)) : List κ :=
  ((batches.filter (·.2)).map (·.1)).flatten

theorem mem_committed {batches : List (List κ × Bool)} {q : κ} :
    q ∈ committed batches ↔ ∃ qs, (qs, true) ∈ batches ∧ q ∈ qs := by
  simp only [committed, List.mem_flatten, List.mem_map, List.mem_filter]
  constructor
  · rintro ⟨qs, ⟨⟨_, commits⟩, ⟨hmem, rfl⟩, rfl⟩, hq⟩
    exact ⟨_, hmem, hq⟩
  · rintro ⟨qs, hmem, hq⟩
    exact ⟨qs, ⟨(qs, true), ⟨hmem, rfl⟩, rfl⟩, hq⟩

theorem committed_cons {qs : List κ} {commits : Bool} {rest : List (List κ × Bool)} :
    committed ((qs, commits) :: rest) = (if commits then qs else []) ++ committed rest := by
  cases commits <;> rfl

/-- What commits is part of the stream. -/
theorem committed_sublist (batches : List (List κ × Bool)) :
    (committed batches).Sublist (batches.map (·.1)).flatten := by
  induction batches with
  | nil => exact List.Sublist.refl _
  | cons batch rest ih =>
      rcases batch with ⟨qs, commits⟩
      rw [committed_cons, List.map_cons, List.flatten_cons]
      refine List.Sublist.append ?_ ih
      cases commits with
      | false => exact List.nil_sublist qs
      | true => exact List.Sublist.refl qs

/-- All queries of some kind commit when no batch that fails has one. -/
theorem countP_committed_eq_iff (p : κ → Bool) (batches : List (List κ × Bool)) :
    (committed batches).countP p = (batches.map (·.1)).flatten.countP p ↔
      ∀ batch ∈ batches, ∀ q ∈ batch.1, p q = true → batch.2 = true := by
  induction batches with
  | nil => exact iff_of_true rfl fun _ h => absurd h List.not_mem_nil
  | cons batch rest ih =>
      rcases batch with ⟨qs, commits⟩
      have hle := (committed_sublist rest).countP_le (p := p)
      rw [List.forall_mem_cons, ← ih, committed_cons, List.map_cons, List.flatten_cons,
        List.countP_append, List.countP_append]
      cases commits with
      | true => simp only [if_true, Nat.add_left_cancel_iff, implies_true, true_and]
      | false =>
          -- A batch that fails adds nothing on the left, so it may have none of
          -- the kind. The rest cannot make up for it.
          simp only [Bool.false_eq_true, if_false, List.countP_nil, Nat.zero_add, imp_false,
            ← List.countP_eq_zero]
          omega

/-- Give each batch its fate; those past the end of the list fail. -/
def withFates : List (List κ) → List Bool → List (List κ × Bool)
  | [], _ => []
  | qs :: rest, commits => (qs, commits.headD false) :: withFates rest commits.tail

theorem map_withFates (groups : List (List κ)) (commits : List Bool) :
    (withFates groups commits).map (·.1) = groups := by
  induction groups generalizing commits with
  | nil => rfl
  | cons qs rest ih => exact congrArg (qs :: ·) (ih commits.tail)

/-- With the timer firing after every query and a fate for each, any part of a
    stream may be what commits. -/
theorem exists_committed_eq {max : Nat} (hmax : 0 < max) {part qs : List κ}
    (hpart : part.Sublist qs) :
    ∃ fired commits, committed (withFates (groupedWithin max fired qs) commits) = part := by
  -- One query a batch.
  have hcut : ∃ fired, groupedWithin max fired qs = qs.map ([·]) := by
    have hflatten : (qs.map ([·])).flatten = qs := by
      rw [← List.flatMap_def]
      exact List.flatMap_singleton' qs
    have hgroups := groupedWithin_complete max (qs.map ([·])) ?_ ?_
    · rwa [hflatten] at hgroups
    · simp only [List.mem_map]
      rintro g ⟨q, _, rfl⟩
      exact List.cons_ne_nil q []
    · simp only [List.mem_map]
      rintro g ⟨q, _, rfl⟩
      exact hmax
  rcases hcut with ⟨fired, hfired⟩
  refine ⟨fired, ?_⟩
  rw [hfired]
  clear hfired
  -- A query of the part commits, any other fails.
  induction hpart with
  | slnil => exact ⟨[], rfl⟩
  | cons q _ ih =>
      rcases ih with ⟨commits, hcommits⟩
      exact ⟨false :: commits, hcommits⟩
  | cons_cons q _ ih =>
      rcases ih with ⟨commits, hcommits⟩
      exact ⟨true :: commits, congrArg (q :: ·) hcommits⟩

/-- What a run leaves behind is what its committed queries do by themselves,
    the failed batches having left no trace. -/
theorem runBatches_eq_execAll (exec : κ → σ → Option σ) (batches : List (List κ × Bool)) (s : σ) :
    runBatches exec batches s = execAll exec (committed batches) s := by
  induction batches generalizing s with
  | nil => rfl
  | cons batch rest ih =>
      rcases batch with ⟨qs, commits⟩
      cases commits with
      | false =>
          -- The batch is dropped on the left and not collected on the right.
          simp only [runBatches, committed, Bool.false_eq_true, if_false, not_false_eq_true,
            List.filter_cons_of_neg]
          exact ih s
      | true =>
          simp only [runBatches, committed, if_true, List.filter_cons_of_pos, List.map_cons,
            List.flatten_cons]
          rw [execAll_append]
          exact congrArg _ (funext ih)

/-- Run batch after batch, where one that violates a constraint fails and is
    dropped too. Returns the queries that took effect and the state they left. -/
def runDropping (exec : κ → σ → Option σ) : List (List κ × Bool) → σ → List κ × σ
  | [], s => ([], s)
  | (qs, commits) :: rest, s =>
      match if commits then execAll exec qs s else none with
      | some t => (qs ++ (runDropping exec rest t).1, (runDropping exec rest t).2)
      | none => runDropping exec rest s

section Dropping

variable {exec : κ → σ → Option σ}

/-- One batch, with or without effect. -/
theorem runDropping_cons (qs : List κ) (commits : Bool) (rest : List (List κ × Bool)) (s : σ) :
    (∃ t, execAll exec qs s = some t ∧ runDropping exec ((qs, commits) :: rest) s =
      (qs ++ (runDropping exec rest t).1, (runDropping exec rest t).2)) ∨
    runDropping exec ((qs, commits) :: rest) s = runDropping exec rest s := by
  rw [runDropping]
  cases commits with
  | false => exact Or.inr rfl
  | true =>
      cases h : execAll exec qs s with
      | none => exact Or.inr (by simp only [if_true])
      | some t => exact Or.inl ⟨t, rfl, by simp only [if_true]⟩

/-- What a run leaves is what the queries that took effect do. -/
theorem runDropping_exec (batches : List (List κ × Bool)) (s : σ) :
    execAll exec (runDropping exec batches s).1 s = some (runDropping exec batches s).2 := by
  induction batches generalizing s with
  | nil => rfl
  | cons batch rest ih =>
      rcases batch with ⟨qs, commits⟩
      rcases runDropping_cons qs commits rest s with ⟨t, ht, h⟩ | h
      · rw [h]
        exact execAll_append_some.mpr ⟨t, ht, ih t⟩
      · rw [h]
        exact ih s

/-- What takes effect is part of the stream. -/
theorem runDropping_sublist (batches : List (List κ × Bool)) (s : σ) :
    (runDropping exec batches s).1.Sublist (batches.map (·.1)).flatten := by
  induction batches generalizing s with
  | nil => exact List.Sublist.refl _
  | cons batch rest ih =>
      rcases batch with ⟨qs, commits⟩
      rw [List.map_cons, List.flatten_cons]
      rcases runDropping_cons qs commits rest s with ⟨t, _, h⟩ | h
      · rw [h]
        exact (List.Sublist.refl qs).append (ih t)
      · rw [h]
        exact (ih s).trans (List.sublist_append_right _ _)

/-- Where the whole stream executes, no batch has to be dropped. -/
theorem runDropping_of_exec {batches : List (List κ × Bool)} {s t : σ}
    (hcommits : ∀ batch ∈ batches, batch.2 = true)
    (h : execAll exec (batches.map (·.1)).flatten s = some t) :
    runDropping exec batches s = ((batches.map (·.1)).flatten, t) := by
  induction batches generalizing s with
  | nil =>
      cases h
      rfl
  | cons batch rest ih =>
      rcases batch with ⟨qs, commits⟩
      rw [List.forall_mem_cons] at hcommits
      rw [List.map_cons, List.flatten_cons] at h ⊢
      rcases execAll_append_some.mp h with ⟨u, hu, h⟩
      rw [runDropping, if_pos hcommits.1, hu]
      dsimp only
      rw [ih hcommits.2 h]

end Dropping

end Lib
