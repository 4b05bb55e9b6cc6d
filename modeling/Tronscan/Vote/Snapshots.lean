import Mathlib.Data.List.Dedup
import Tronscan.Api.Request
import Tronscan.Api.SuperRepresentative
import Tronscan.Core.Extract
import Tronscan.Lib.Ranking
import Tronscan.Lib.System
import Tronscan.Lib.Latest
import Tronscan.Lib.Traverse

/-!
# Votes Now and Then

`VoteScraper`, which takes a snapshot of the votes every so often, the table of
snapshots, and `VoteList`, which ranks the candidates and compares the ranks with
those of a snapshot.

A snapshot is a row for each candidate, all with one time. The rows are inserted
one after the other and not in a transaction, so a reader may come in between, and
an insert that fails leaves the rows before it. A reader takes the rows of the
latest time that lies so many hours back.

A rank is a position among the candidates in ascending order of their votes. The
current ranks are among all witnesses the node has, the earlier ones among those
in the snapshot, who are the candidates anyone has voted for.

## Main definitions

* `VoteSnapshotModel`, `findPreviousVotes`: The table, and what is read of it.
* `votesByAddress`, `Snapshot`: The votes of a moment, and their rows.
* `VoteScraper.execute`: The snapshot that is taken.
* `SnapshotState`, `SnapshotEvent`, `snapshotStep`: Snapshots as they are written.
* `VoteList.buildRank`, `VoteList.change`: Ranks, and how one has changed.
* `VoteList.execute`: The list of the candidates.

## Theorems

* `mem_votesByAddress`: What is in a snapshot.
* `mem_buildRank`: The rank of a candidate.
* `VoteList.execute_changes`: The changes in the list.
* `snapshotStep_insert`: What an insert does.
* `findPreviousVotes_perm`: What a reader takes of a snapshot that is there in part.
-/

namespace Tronscan

/-- A row of `vote_snapshot`, without its id. -/
structure VoteSnapshotModel where
  address : String
  timestamp : Int
  votes : Int
  deriving DecidableEq

/-- A witness as the node answers it. -/
structure Witness where
  address : Bytes
  url : String
  voteCount : Int

/-- Hours in milliseconds. -/
def hours (n : Int) : Int := n * 60 * 60 * 1000

/-- The time of the snapshot that a reader takes. -/
def previousTimestamp (hoursBack now : Int) (rows : List VoteSnapshotModel) : Option Int :=
  (Lib.highest (·.timestamp) (rows.filter fun row =>
    decide (row.timestamp < now - hours hoursBack))).map (·.timestamp)

section Snapshots

variable [Platform]

/-- The votes of the latest snapshot that lies so many hours back. -/
def findPreviousVotes (hoursBack now : Int) (rows : List VoteSnapshotModel) :
    List (String × Int) :=
  let found : List VoteSnapshotModel := match previousTimestamp hoursBack now rows with
    | some timestamp => rows.filter fun row => decide (row.timestamp = timestamp)
    | none => []
  Request.toMap (found.map fun row => (row.address, row.votes))

/-- All the votes recorded for a candidate. -/
def votesFor (rows : List VoteWitnessContractModel) (address : String) : Int :=
  ((rows.filter fun row => decide (row.candidateAddress = address)).map (·.votes)).sum

/-- Everybody a vote is recorded for. -/
def candidateAddresses (rows : List VoteWitnessContractModel) : List String :=
  (rows.map (·.candidateAddress)).dedup

/-- The votes recorded for each candidate. The database adds them up exactly, and a sum
    that is no `Long` cannot be read. -/
def votesByAddress (rows : List VoteWitnessContractModel) : Option (List (String × Int)) :=
  if ∀ address ∈ candidateAddresses rows,
      -2 ^ 63 ≤ votesFor rows address ∧ votesFor rows address < 2 ^ 63 then
    some (Request.toMap ((candidateAddresses rows).map fun address =>
      (address, votesFor rows address)))
  else none

end Snapshots

/-- One execution of the scraper: a time, and a map of votes. -/
structure Snapshot where
  timestamp : Int
  witnesses : List (String × Int)
  nodup : (witnesses.map (·.1)).Nodup

/-- The rows of a snapshot, in the order they are inserted. -/
def Snapshot.votes (snapshot : Snapshot) : List VoteSnapshotModel :=
  snapshot.witnesses.map fun (address, votes) =>
    { address := address, timestamp := snapshot.timestamp, votes := votes }

/-- The table, the executions so far, and the rows the running one has left. -/
structure SnapshotState where
  table : List VoteSnapshotModel := []
  executions : List Snapshot := []
  remaining : List VoteSnapshotModel := []

/-- What can happen: the scraper writes a snapshot, row by row. -/
inductive SnapshotEvent where
  | start (snapshot : Snapshot)
  | insert
  | fail

/-- One execution at a time, each at another time, and one insert after the other. -/
def snapshotStep (s : SnapshotState) : SnapshotEvent → Option SnapshotState
  -- The rows are written from the map that was read before the first insert.
  | .start snapshot =>
      if s.remaining = [] ∧ snapshot.timestamp ∉ s.executions.map (·.timestamp) then
        some { s with executions := s.executions ++ [snapshot], remaining := snapshot.votes }
      else none
  | .insert =>
      match s.remaining with
      | row :: rest => some { s with table := s.table ++ [row], remaining := rest }
      | [] => none
  -- A failed insert ends the sequence and takes nothing back.
  | .fail => if s.remaining = [] then none else some { s with remaining := [] }

namespace VoteList

/-- There is no change of a rank there was not. -/
def getChange (current : Int) (previous : Option Int) : Int :=
  match previous with
  | none => 0
  | some prev => current - prev

/-- A candidate in the list. -/
structure Candidate where
  address : String
  name : String
  url : String
  hasPage : Bool
  votes : Int
  changeCycle : Int
  changeDay : Int

variable [Platform]

/-- The votes of the latest snapshot from before a period. -/
def getTotals (period : String) (now : Int) (rows : List VoteSnapshotModel) :
    List (String × Int) :=
  match period with
  | "previous-hour" => findPreviousVotes 6 now rows
  | "previous-day" => findPreviousVotes 24 now rows
  | _ => findPreviousVotes 0 now rows

/-- The position of each candidate in ascending order of votes. -/
def buildRank (voteList : List (String × Int)) : List (String × Int) :=
  Request.toMap ((voteList.insertionSort fun x y => x.2 ≤ y.2).zipIdx.map
    fun ((address, _), rank) => (address, (rank : Int)))

/-- How the rank of a candidate has changed. -/
def change (current previous : List (String × Int)) (address : String) : Option Int := do
  let rank ← (buildRank current).lookup address
  return getChange rank ((buildRank previous).lookup address)

variable [Codec]

/-- The list of the candidates, with all their votes. The snapshots are read twice. -/
def execute (witnesses : List Witness) (accounts : List (String × String)) (now now' : Int)
    (rows rows' : List VoteSnapshotModel)
    (superRepresentatives : List SuperRepresentativeModel) : Option (Int × List Candidate) := do
  let previousHour := getTotals "previous-hour" now rows
  let previousDay := getTotals "previous-day" now' rows'
  let witnessAddresses := Request.toMap (witnesses.map fun x => (encodeAddress x.address, x.url))
  let witnessesCurrent :=
    Request.toMap (witnesses.map fun w => (encodeAddress w.address, w.voteCount))
  -- A sum of `Long`s, which wraps.
  let totalVotes := Int.bmod (witnesses.map (·.voteCount)).sum (2 ^ 64)
  let hasPages := Request.toMap (superRepresentatives.map fun x =>
    (x.address, decide ((x.githubLink.map TransactionSerializer.trim).getD "" ≠ "")))
  let candidates ← witnessesCurrent.mapM fun (address, votes) => do
    let name := match accounts.lookup address with
      | some accountName => if TransactionSerializer.trim accountName = "" then "" else accountName
      | none => ""
    return {
      address := address
      name := name
      url := ← witnessAddresses.lookup address
      hasPage := (hasPages.lookup address).getD false
      votes := votes
      changeCycle := ← change witnessesCurrent previousHour address
      changeDay := ← change witnessesCurrent previousDay address }
  return (totalVotes, candidates)

end VoteList

section Steps

variable {s t : SnapshotState}

theorem snapshotStep_start {snapshot : Snapshot} (h : snapshotStep s (.start snapshot) = some t) :
    s.remaining = [] ∧ snapshot.timestamp ∉ s.executions.map (·.timestamp) ∧
      t = { s with executions := s.executions ++ [snapshot], remaining := snapshot.votes } := by
  simp only [snapshotStep] at h
  split at h
  · rename_i hidle
    exact ⟨hidle.1, hidle.2, (Option.some.inj h).symm⟩
  · cases h

theorem snapshotStep_insert (h : snapshotStep s .insert = some t) :
    ∃ row rest, s.remaining = row :: rest ∧
      t = { s with table := s.table ++ [row], remaining := rest } := by
  simp only [snapshotStep] at h
  rcases hremaining : s.remaining with _ | ⟨row, rest⟩
  · rw [hremaining] at h
    cases h
  · rw [hremaining] at h
    exact ⟨row, rest, rfl, (Option.some.inj h).symm⟩

theorem snapshotStep_insert_eq_none (h : snapshotStep s .insert = none) : s.remaining = [] := by
  simp only [snapshotStep] at h
  rcases hremaining : s.remaining with _ | ⟨row, rest⟩
  · rfl
  · rw [hremaining] at h
    cases h

theorem snapshotStep_fail (h : snapshotStep s .fail = some t) : t = { s with remaining := [] } := by
  simp only [snapshotStep] at h
  split at h
  · cases h
  · exact (Option.some.inj h).symm

/-- The rows of a snapshot have its time, and its votes. -/
theorem timestamp_of_mem_votes {snapshot : Snapshot} {row : VoteSnapshotModel}
    (h : row ∈ snapshot.votes) : row.timestamp = snapshot.timestamp := by
  rcases List.mem_map.mp h with ⟨_, _, rfl⟩
  rfl

theorem map_votes (snapshot : Snapshot) :
    (snapshot.votes.map fun row => (row.address, row.votes)) = snapshot.witnesses := by
  unfold Snapshot.votes
  rw [List.map_map]
  exact List.map_id _

end Steps

section Ranks

variable [Platform]

theorem perm_toMap {α : Type} {bindings : List (String × α)} (h : (bindings.map (·.1)).Nodup) :
    (Request.toMap bindings).Perm bindings := by
  refine (Platform.order_perm _).trans ?_
  rw [Lib.foldl_upsert_fresh h fun _ _ _ h => absurd h List.not_mem_nil, List.nil_append]

theorem nodup_toMap {α : Type} (bindings : List (String × α)) :
    ((Request.toMap bindings).map (·.1)).Nodup :=
  ((Platform.order_perm _).map _).nodup_iff.mpr (Lib.nodup_foldl_upsert bindings)

section Scraper

variable {rows : List VoteWitnessContractModel} {witnesses : List (String × Int)}

/-- The scraper's map has the candidates anyone has voted for, with all their votes. -/
theorem mem_votesByAddress (h : votesByAddress rows = some witnesses) {address : String}
    {votes : Int} : (address, votes) ∈ witnesses ↔
      (∃ row ∈ rows, row.candidateAddress = address) ∧ votes = votesFor rows address := by
  unfold votesByAddress at h
  obtain ⟨-, hwitnesses⟩ := Option.ite_none_right_eq_some.mp h
  obtain rfl := Option.some.inj hwitnesses
  have hkeys : (((candidateAddresses rows).map fun address =>
      (address, votesFor rows address)).map (·.1)).Nodup := by
    rw [List.map_map]
    exact (List.map_id _).symm ▸ List.nodup_dedup _
  rw [Request.mem_toMap hkeys, List.mem_map]
  constructor
  · rintro ⟨candidate, hcandidate, h⟩
    cases h
    exact ⟨List.mem_map.mp (List.mem_dedup.mp hcandidate), rfl⟩
  · rintro ⟨hrow, rfl⟩
    exact ⟨address, List.mem_dedup.mpr (List.mem_map.mpr hrow), rfl⟩

theorem nodup_votesByAddress (h : votesByAddress rows = some witnesses) :
    (witnesses.map (·.1)).Nodup := by
  unfold votesByAddress at h
  obtain ⟨-, hwitnesses⟩ := Option.ite_none_right_eq_some.mp h
  exact Option.some.inj hwitnesses ▸ nodup_toMap _

/-- `VoteScraper.execute`, up to the insertion of the rows. -/
def VoteScraper.execute (timestamp : Int) (rows : List VoteWitnessContractModel) :
    Option Snapshot :=
  match h : votesByAddress rows with
  | some witnesses =>
      some { timestamp := timestamp, witnesses := witnesses, nodup := nodup_votesByAddress h }
  | none => none

end Scraper

section Reading

variable {hoursBack now : Int} {rows : List VoteSnapshotModel}

omit [Platform] in
/-- The time is that of a row. -/
theorem exists_of_previousTimestamp {timestamp : Int}
    (h : previousTimestamp hoursBack now rows = some timestamp) :
    ∃ row ∈ rows, row.timestamp = timestamp := by
  rcases Option.map_eq_some_iff.mp h with ⟨row, hrow, htime⟩
  exact ⟨row, List.mem_of_mem_filter (Lib.highest_spec hrow).1, htime⟩

omit [Platform] in
/-- Right after the time of a row, it is the latest there is. -/
theorem previousTimestamp_of_mem {row : VoteSnapshotModel} (h : row ∈ rows) :
    previousTimestamp 0 (row.timestamp + 1) rows = some row.timestamp := by
  have hfound : row ∈ rows.filter fun r => decide (r.timestamp < row.timestamp + 1 - hours 0) :=
    List.mem_filter.mpr ⟨h, decide_eq_true (by unfold hours; omega)⟩
  unfold previousTimestamp
  rcases hhighest : Lib.highest (·.timestamp) (rows.filter fun r =>
      decide (r.timestamp < row.timestamp + 1 - hours 0)) with _ | latest
  · rw [Lib.highest_eq_none] at hhighest
    rw [hhighest] at hfound
    cases hfound
  · -- The latest row is no earlier than this one, and the bound leaves none later.
    rcases Lib.highest_spec hhighest with ⟨hlatest, hmax⟩
    have hbefore := of_decide_eq_true (List.mem_filter.mp hlatest).2
    have hlast := hmax row hfound
    simp only [hours] at hbefore
    rw [hhighest, Option.map_some]
    exact congrArg some (by omega)

theorem findPreviousVotes_of_none (h : previousTimestamp hoursBack now rows = none) :
    findPreviousVotes hoursBack now rows = [] := by
  unfold findPreviousVotes
  rw [h]
  exact (Platform.order_perm []).eq_nil

/-- A reader takes the rows of the snapshot that are there. -/
theorem findPreviousVotes_perm {snapshot : Snapshot}
    (h : previousTimestamp hoursBack now rows = some snapshot.timestamp)
    {part : List VoteSnapshotModel} (hpart : part.Sublist snapshot.votes)
    (hrows : rows.filter (fun row => decide (row.timestamp = snapshot.timestamp)) = part) :
    (findPreviousVotes hoursBack now rows).Perm (part.map fun row => (row.address, row.votes)) := by
  unfold findPreviousVotes
  rw [h]
  simp only [hrows]
  refine perm_toMap (snapshot.nodup.sublist ?_)
  rw [← map_votes snapshot]
  exact (hpart.map _).map _

end Reading

namespace VoteList

variable {voteList : List (String × Int)}

/-- The rank of a candidate is how many have fewer votes, where no two have as many. -/
theorem mem_buildRank (hkeys : (voteList.map (·.1)).Nodup) (hvotes : (voteList.map (·.2)).Nodup)
    {address : String} {rank : Int} :
    (address, rank) ∈ buildRank voteList ↔ ∃ votes, (address, votes) ∈ voteList ∧
      rank = voteList.countP fun x => decide (x.2 < votes) := by
  have hperm := List.perm_insertionSort (fun x y : String × Int => x.2 ≤ y.2) voteList
  -- Sorting and numbering leave the addresses distinct, so the map has them all.
  have hnodup : (((voteList.insertionSort fun x y => x.2 ≤ y.2).zipIdx.map
      fun ((address, _), rank) => (address, (rank : Int))).map (·.1)).Nodup := by
    have hfirst : ((voteList.insertionSort fun x y => x.2 ≤ y.2).zipIdx.map
        fun ((address, _), rank) => (address, (rank : Int))).map (·.1) =
          ((voteList.insertionSort fun x y => x.2 ≤ y.2).zipIdx.map (·.1)).map (·.1) := by
      rw [List.map_map, List.map_map]
      rfl
    rw [hfirst, List.zipIdx_map_fst]
    exact (hperm.map _).nodup_iff.mpr hkeys
  unfold buildRank
  rw [Request.mem_toMap hnodup, List.mem_map]
  constructor
  · rintro ⟨⟨⟨address', votes⟩, i⟩, hmem, h⟩
    cases h
    -- A position in ascending order is the number of those with fewer votes.
    have hi := List.mem_zipIdx_iff_getElem?.mp hmem
    refine ⟨votes, hperm.mem_iff.mp (List.mem_of_getElem? hi), ?_⟩
    exact congrArg Nat.cast (Lib.countP_lt_of_getElem? hvotes hi).symm
  · rintro ⟨votes, hmem, rfl⟩
    rcases List.mem_iff_getElem?.mp (hperm.mem_iff.mpr hmem) with ⟨i, hi⟩
    refine ⟨((address, votes), i), List.mem_zipIdx_iff_getElem?.mpr hi, ?_⟩
    have hcount := Lib.countP_lt_of_getElem? hvotes hi
    rw [← hcount]

variable [Codec]

/-- Each candidate is listed with its changes. -/
theorem execute_changes {witnesses : List Witness} {accounts : List (String × String)}
    {now now' : Int} {rows rows' : List VoteSnapshotModel}
    {superRepresentatives : List SuperRepresentativeModel} {totalVotes : Int}
    {candidates : List Candidate}
    (h : execute witnesses accounts now now' rows rows' superRepresentatives =
      some (totalVotes, candidates)) :
    let witnessesCurrent :=
      Request.toMap (witnesses.map fun w => (encodeAddress w.address, w.voteCount))
    ∀ c ∈ candidates,
      change witnessesCurrent (findPreviousVotes 6 now rows) c.address = some c.changeCycle ∧
      change witnessesCurrent (findPreviousVotes 24 now' rows') c.address = some c.changeDay := by
  intro witnessesCurrent c hc
  unfold execute at h
  rcases Option.bind_eq_some_iff.mp h with ⟨candidates', hcandidates, h⟩
  cases h
  rcases Lib.forall₂_mem_right ((Lib.mapM_some_iff _ _ _).mp hcandidates) hc with ⟨⟨a, v⟩, _, hx⟩
  rcases Option.bind_eq_some_iff.mp hx with ⟨url, _, hx⟩
  rcases Option.bind_eq_some_iff.mp hx with ⟨cycle, hcycle, hx⟩
  rcases Option.bind_eq_some_iff.mp hx with ⟨day, hday, hx⟩
  cases hx
  exact ⟨hcycle, hday⟩

end VoteList

end Ranks

end Tronscan
