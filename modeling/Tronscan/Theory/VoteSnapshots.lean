import Tronscan.Vote.Snapshots

/-!
# Half a Snapshot

A snapshot is read whole or not at all as long as no one looks while it is
written and no insert fails. The rows go in one by one, outside of a transaction,
and the first of them makes the time of the snapshot the latest there is. From
then on, until the last row is in, a reader takes the rows there are for the
snapshot. If an insert fails, every reader does, and later readers too when they
look back that far.

The other places that insert several rows at once do it in a transaction.

## Main definitions

* `WholeRead`: A read finds nothing, or all of one snapshot.
* `ReadsWhole`: Every read does, at any moment of a run.
* `OneRowLeft`: A row is inserted only when it is the only one left.

## Theorems

* `recorded_step`, `single_step`: What every event keeps, and what those keep that
  insert no row but the only one.
* `readsWhole_iff`: When every read finds nothing or a whole snapshot.
* `not_readsWhole_two`: Two candidates.
-/

namespace Tronscan

section Reads

variable [Platform]

/-- A read finds nothing, or all the votes of one execution. -/
def WholeRead (s : SnapshotState) (hoursBack now : Int) : Prop :=
  findPreviousVotes hoursBack now s.table = [] ∨ ∃ snapshot ∈ s.executions,
    previousTimestamp hoursBack now s.table = some snapshot.timestamp ∧
      (findPreviousVotes hoursBack now s.table).Perm snapshot.witnesses

/-- Every read does, at any moment of a run and looking back any number of hours. -/
def ReadsWhole (events : List SnapshotEvent) : Prop :=
  ∀ before after s, events = before ++ after → Lib.runFrom snapshotStep {} before = some s →
    ∀ hoursBack now, 0 ≤ hoursBack → WholeRead s hoursBack now

end Reads

/-- A row is inserted only when it is the only one left. -/
def OneRowLeft (s : SnapshotState) (event : SnapshotEvent) : Prop :=
  match event with
  | .insert => s.remaining.length ≤ 1
  | _ => True

/-- The rows that are in the table and those that are left make up a snapshot. -/
structure Recorded (s : SnapshotState) : Prop where
  nodup : (s.executions.map (·.timestamp)).Nodup
  mem_table : ∀ row ∈ s.table, ∃ snapshot ∈ s.executions, snapshot.timestamp = row.timestamp
  running : s.remaining = [] ∨ ∃ snapshot ∈ s.executions,
    s.table.filter (fun row => decide (row.timestamp = snapshot.timestamp)) ++ s.remaining =
      snapshot.votes

/-- Every row in the table is the whole of a snapshot. -/
structure Single (s : SnapshotState) : Prop where
  nodup : (s.table.map (·.timestamp)).Nodup
  mem_table : ∀ row ∈ s.table, ∃ snapshot ∈ s.executions, snapshot.votes = [row]
  running : s.remaining = [] ∨ ∃ snapshot ∈ s.executions, s.remaining = snapshot.votes ∧
    snapshot.timestamp ∉ s.table.map (·.timestamp)

/-- What is left and what is there make up a snapshot behind an insert as well. -/
theorem recorded_insert {s : SnapshotState} (h : Recorded s) {row : VoteSnapshotModel}
    {rest : List VoteSnapshotModel} (hremaining : s.remaining = row :: rest) :
    ∃ snapshot ∈ s.executions, row.timestamp = snapshot.timestamp ∧
      (s.table ++ [row]).filter (fun r => decide (r.timestamp = snapshot.timestamp)) ++ rest =
        snapshot.votes := by
  rcases h.running with hidle | ⟨snapshot, hsnapshot, hvotes⟩
  · rw [hidle] at hremaining
    cases hremaining
  rw [hremaining] at hvotes
  have htime : row.timestamp = snapshot.timestamp := by
    refine timestamp_of_mem_votes ?_
    rw [← hvotes]
    exact List.mem_append_right _ List.mem_cons_self
  refine ⟨snapshot, hsnapshot, htime, ?_⟩
  rw [List.filter_append, List.filter_cons_of_pos (by simpa using htime), List.filter_nil,
    List.append_assoc, List.singleton_append]
  exact hvotes

theorem recorded_step (s : SnapshotState) (event : SnapshotEvent) (t : SnapshotState)
    (h : Recorded s) (hstep : snapshotStep s event = some t) : Recorded t := by
  cases event with
  | start snapshot =>
      rcases snapshotStep_start hstep with ⟨_, hnew, rfl⟩
      have hlast : snapshot ∈ s.executions ++ [snapshot] :=
        List.mem_append_right _ List.mem_cons_self
      refine ⟨?_, fun row hrow => ?_, Or.inr ⟨snapshot, hlast, ?_⟩⟩
      · rw [List.map_append, List.map_singleton]
        exact h.nodup.append (List.nodup_singleton _) (List.disjoint_singleton.mpr hnew)
      · rcases h.mem_table row hrow with ⟨other, hother, htime⟩
        exact ⟨other, List.mem_append_left _ hother, htime⟩
      · -- No row in the table is of a time there was no execution at.
        have hnone : s.table.filter (fun r => decide (r.timestamp = snapshot.timestamp)) = [] := by
          rw [List.filter_eq_nil_iff]
          intro row hrow htime
          rcases h.mem_table row hrow with ⟨other, hother, hsame⟩
          refine hnew (List.mem_map.mpr ⟨other, hother, ?_⟩)
          rw [hsame, of_decide_eq_true htime]
        rw [hnone, List.nil_append]
  | insert =>
      rcases snapshotStep_insert hstep with ⟨row, rest, hremaining, rfl⟩
      rcases recorded_insert h hremaining with ⟨snapshot, hsnapshot, htime, hvotes⟩
      refine ⟨h.nodup, fun r hr => ?_, Or.inr ⟨snapshot, hsnapshot, hvotes⟩⟩
      rcases List.mem_append.mp hr with hr | hr
      · exact h.mem_table r hr
      · rw [List.mem_singleton.mp hr]
        exact ⟨snapshot, hsnapshot, htime.symm⟩
  | fail =>
      rw [snapshotStep_fail hstep]
      exact ⟨h.nodup, h.mem_table, Or.inl rfl⟩

/-- The only row of a snapshot has its time. -/
theorem timestamp_of_votes_eq {snapshot : Snapshot} {row : VoteSnapshotModel}
    (h : snapshot.votes = [row]) : row.timestamp = snapshot.timestamp :=
  timestamp_of_mem_votes (h ▸ List.mem_cons_self)

theorem single_step (s : SnapshotState) (event : SnapshotEvent) (t : SnapshotState)
    (h : Single s) (hevent : OneRowLeft s event) (hstep : snapshotStep s event = some t) :
    Single t := by
  cases event with
  | start snapshot =>
      rcases snapshotStep_start hstep with ⟨_, hnew, rfl⟩
      have hlast : snapshot ∈ s.executions ++ [snapshot] :=
        List.mem_append_right _ List.mem_cons_self
      refine ⟨h.nodup, fun row hrow => ?_, Or.inr ⟨snapshot, hlast, rfl, fun htime => ?_⟩⟩
      · rcases h.mem_table row hrow with ⟨other, hother, hvotes⟩
        exact ⟨other, List.mem_append_left _ hother, hvotes⟩
      · rcases List.mem_map.mp htime with ⟨row, hrow, hsame⟩
        rcases h.mem_table row hrow with ⟨other, hother, hvotes⟩
        refine hnew (List.mem_map.mpr ⟨other, hother, ?_⟩)
        rw [← timestamp_of_votes_eq hvotes, hsame]
  | insert =>
      rcases snapshotStep_insert hstep with ⟨row, rest, hremaining, rfl⟩
      rcases h.running with hidle | ⟨snapshot, hsnapshot, hvotes, hnew⟩
      · rw [hidle] at hremaining
        cases hremaining
      -- The row is the only one, so it is all of the snapshot.
      have hrest : rest = [] := by
        simp only [OneRowLeft, hremaining, List.length_cons] at hevent
        exact List.eq_nil_of_length_eq_zero (by omega)
      rw [hremaining, hrest] at hvotes
      have htime := timestamp_of_votes_eq hvotes.symm
      refine ⟨?_, fun r hr => ?_, Or.inl hrest⟩
      · rw [List.map_append, List.map_singleton]
        refine h.nodup.append (List.nodup_singleton _) (List.disjoint_singleton.mpr ?_)
        rwa [htime]
      · rcases List.mem_append.mp hr with hr | hr
        · exact h.mem_table r hr
        · rw [List.mem_singleton.mp hr]
          exact ⟨snapshot, hsnapshot, hvotes.symm⟩
  | fail =>
      rw [snapshotStep_fail hstep]
      exact ⟨h.nodup, h.mem_table, Or.inl rfl⟩

section Reads

variable [Platform]

/-- Where each row is the whole of a snapshot, so is what a read finds. -/
theorem wholeRead_of_single {s : SnapshotState} (h : Single s) (hoursBack now : Int) :
    WholeRead s hoursBack now := by
  rcases hprev : previousTimestamp hoursBack now s.table with _ | timestamp
  · exact Or.inl (findPreviousVotes_of_none hprev)
  · rcases exists_of_previousTimestamp hprev with ⟨row, hrow, rfl⟩
    rcases h.mem_table row hrow with ⟨snapshot, hsnapshot, hvotes⟩
    have htime := timestamp_of_votes_eq hvotes
    have hrows : s.table.filter (fun r => decide (r.timestamp = snapshot.timestamp)) =
        snapshot.votes := by
      rw [hvotes, ← htime]
      exact Lib.filter_key_eq_singleton h.nodup hrow
    rw [htime] at hprev
    refine Or.inr ⟨snapshot, hsnapshot, hprev, ?_⟩
    have hperm := findPreviousVotes_perm hprev (List.Sublist.refl _) hrows
    rwa [map_votes] at hperm

/-- Behind an insert that leaves more to insert, a read finds part of a snapshot. -/
theorem not_wholeRead {s t : SnapshotState} (h : Recorded s) (hremaining : 1 < s.remaining.length)
    (hstep : snapshotStep s .insert = some t) : ∃ now, ¬ WholeRead t 0 now := by
  rcases snapshotStep_insert hstep with ⟨row, rest, hrest, rfl⟩
  rw [hrest, List.length_cons] at hremaining
  rcases recorded_insert h hrest with ⟨snapshot, hsnapshot, htime, hvotes⟩
  -- The row makes its time the latest for whoever reads right after that time.
  have hrow : row ∈ s.table ++ [row] := List.mem_append_right _ List.mem_cons_self
  have hprev := previousTimestamp_of_mem hrow
  rw [htime] at hprev
  have hperm := findPreviousVotes_perm hprev (hvotes ▸ List.sublist_append_left _ _) rfl
  have hlength := hperm.length_eq
  rw [List.length_map] at hlength
  have hpos : 0 < ((s.table ++ [row]).filter fun r =>
      decide (r.timestamp = snapshot.timestamp)).length :=
    List.length_pos_of_mem (List.mem_filter.mpr ⟨hrow, decide_eq_true htime⟩)
  refine ⟨snapshot.timestamp + 1, fun hwhole => ?_⟩
  rcases hwhole with hnone | ⟨other, hother, hsame, hall⟩
  · rw [hnone, List.length_nil] at hlength
    omega
  · -- No other execution has the time of this one.
    rw [hprev, Option.some.injEq] at hsame
    rw [← List.inj_on_of_nodup_map h.nodup hsnapshot hother hsame] at hall
    have hwitnesses := hlength.symm.trans hall.length_eq
    rw [← map_votes, List.length_map, ← hvotes, List.length_append] at hwitnesses
    omega

/-- Every read finds nothing or a whole snapshot exactly when no row is inserted
    but the only one left, that is, no snapshot of two or more candidates is begun. -/
theorem readsWhole_iff (events : List SnapshotEvent) :
    ReadsWhole events ↔ Lib.Along snapshotStep OneRowLeft {} events := by
  constructor
  · intro hreads
    refine (Lib.along_iff _ _).mpr fun before event after s hevents hrun => ?_
    -- The moment to read at is right behind an insert that leaves something.
    have hs : Recorded s := Lib.invariant_of_step recorded_step {} s before
      ⟨List.nodup_nil, List.forall_mem_nil _, Or.inl rfl⟩ hrun
    cases event with
    | start snapshot => trivial
    | fail => trivial
    | insert =>
        refine not_lt.mp fun hremaining => ?_
        rcases hstep : snapshotStep s .insert with _ | t
        · rw [snapshotStep_insert_eq_none hstep] at hremaining
          exact absurd hremaining (Nat.not_lt_zero 1)
        · rcases not_wholeRead hs hremaining hstep with ⟨now, hnot⟩
          refine hnot (hreads (before ++ [.insert]) after t ?_ ?_ 0 now le_rfl)
          · rw [hevents, List.append_assoc, List.singleton_append]
          · exact Lib.runFrom_concat.mpr ⟨s, hrun, hstep⟩
  · intro hone before after s hevents hrun hoursBack now _
    -- What holds along the run holds along the part of it that was reached.
    have hbefore : Lib.Along snapshotStep OneRowLeft {} before := by
      refine (Lib.along_iff _ _).mpr fun pre event post u hpre hrun' => ?_
      refine (Lib.along_iff _ _).mp hone pre event (post ++ after) u ?_ hrun'
      rw [hevents, hpre, List.append_assoc, List.cons_append]
    have hs : Single s := Lib.invariant_along single_step {} s before
      ⟨List.nodup_nil, List.forall_mem_nil _, Or.inl rfl⟩ hbefore hrun
    exact wholeRead_of_single hs hoursBack now

end Reads

/-- Two candidates with votes. -/
def twoVotes : Snapshot where
  timestamp := 0
  witnesses := [("a", 5), ("b", 3)]
  nodup := by decide

/-- Between the inserts of two candidates, a read finds one. -/
theorem not_readsWhole_two : ¬ @ReadsWhole examplePlatform [.start twoVotes, .insert] := by
  rw [@readsWhole_iff examplePlatform]
  intro h
  have hone : OneRowLeft { executions := [twoVotes], remaining := twoVotes.votes } .insert :=
    (h.2 _ rfl).1
  revert hone
  change ¬ (2 ≤ 1)
  decide

end Tronscan
