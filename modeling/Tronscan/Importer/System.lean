import Tronscan.Importer.Run
import Tronscan.Lib.System

/-!
# Full Node Runs over One Database

The full node importer as a system. A tick starts a run: it reads the state of
the nodes and of the database, reads its blocks, and hands its queries to the
side sink that writes them. The tick is over when the blocks have gone by, not
when the side sink is done, so the batches of a run can commit or fail at any
time after its start, other runs having started in the meantime.

A batch is the next part of a run's queries, of any size up to a thousand. That
is every way `groupedWithin` can cut them.

## Main definitions

* `FullNodeRun`: The queries of a run, and how many its batches have taken.
* `ImportState`, `ImportEvent`: The database and the runs; a tick, a commit, a
  failure.
* `importStep`: One event.
* `blockNumbers`: The block numbers a list of queries inserts.
* `cursor`: The number the next run starts after.
* `FullNode.Honest`: A node that answers what it was asked.

## Theorems

* `importStep_start`, `importStep_commit`, `importStep_fail`: What each event does.
* `exec_batch`: What a batch that commits adds to the table of blocks.
* `dbLatestBlock_toInt`: A run is told the cursor.
* `number_gt_of_honest`: An honest node answers above the cursor.
-/

namespace Tronscan

open BlockImporter ImportStreamFactory

/-- The queries of a run, and how many of them its batches have taken. -/
structure FullNodeRun where
  queries : List Query
  taken : Nat

/-- The queries no batch of the run has taken yet. -/
def FullNodeRun.pending (run : FullNodeRun) : List Query := run.queries.drop run.taken

/-- The next batch of a run. -/
def FullNodeRun.batch (run : FullNodeRun) (size : Nat) : List Query := run.pending.take size

/-- The run after a batch. -/
def FullNodeRun.take (run : FullNodeRun) (size : Nat) : FullNodeRun :=
  { run with taken := run.taken + size }

/-- The database and the runs, oldest first. -/
structure ImportState where
  db : Database
  runs : List FullNodeRun

/-- What can happen: a run starts, or a batch of one commits or fails. -/
inductive ImportEvent where
  /-- A tick: what the nodes report, what they answer while the run is set up,
      and what they answer while it reads its blocks. -/
  | start (heads : Heads) (status source : FullNode)
  /-- The next batch of a run commits. -/
  | commit (run size : Nat)
  /-- The next batch of a run fails and is dropped. -/
  | fail (run size : Nat)

variable [Codec]

/-- The queries of a run that starts now; none when it cannot be set up. -/
def startQueries (heads : Heads) (status source : FullNode) (db : Database) : List Query :=
  match buildImportActionFromImportStatus status db (nodeState heads db) with
  | none => []
  | some action =>
      fullNodeQueries action.confirmBlocks (fullNodeStream source (nodeState heads db))

/-- One event, `none` when it cannot happen. -/
def importStep (s : ImportState) : ImportEvent → Option ImportState
  | .start heads status source =>
      -- The cursor is read here. What the run will write is fixed from now on.
      some { s with runs := s.runs ++ [⟨startQueries heads status source s.db, 0⟩] }
  | .commit i size => do
      let run ← s.runs[i]?
      if 0 < size ∧ size ≤ 1000 then
        let db ← execQueries (run.batch size) s.db
        return ⟨db, s.runs.set i (run.take size)⟩
      else none
  | .fail i size => do
      let run ← s.runs[i]?
      -- The batch is dropped, and the stream goes on behind it.
      if 0 < size ∧ size ≤ 1000 then
        return { s with runs := s.runs.set i (run.take size) }
      else none

section Steps

variable {s t : ImportState} {heads : Heads} {status source : FullNode} {i size : Nat}

theorem importStep_start (h : importStep s (.start heads status source) = some t) :
    t = { s with runs := s.runs ++ [⟨startQueries heads status source s.db, 0⟩] } :=
  (Option.some.inj h).symm

theorem importStep_commit (h : importStep s (.commit i size) = some t) :
    ∃ run, s.runs[i]? = some run ∧ size ≤ 1000 ∧
      execQueries (run.batch size) s.db = some t.db ∧ t.runs = s.runs.set i (run.take size) := by
  rcases Option.bind_eq_some_iff.mp h with ⟨run, hrun, h⟩
  split at h
  · rename_i hsize
    rcases Option.bind_eq_some_iff.mp h with ⟨db, hdb, h⟩
    cases h
    exact ⟨run, hrun, hsize.2, hdb, rfl⟩
  · cases h

omit [Codec] in
/-- What is left after a batch. -/
theorem pending_take (run : FullNodeRun) (size : Nat) :
    (run.take size).pending = run.pending.drop size := by
  rw [FullNodeRun.pending, FullNodeRun.take, FullNodeRun.pending, List.drop_drop]

omit [Codec] in
theorem batch_append_pending (run : FullNodeRun) (size : Nat) :
    run.batch size ++ (run.take size).pending = run.pending := by
  rw [pending_take, FullNodeRun.batch, List.take_append_drop]

end Steps

/-- The block numbers a list of queries inserts. -/
def blockNumbers (qs : List Query) : List Int := (qs.filterMap Query.blockRow).map (·.number)

/-- The numbers of the blocks in the database. -/
def storedNumbers (db : Database) : Set Int := {n | HasBlock n db}

/-- The number the next run starts after. -/
def cursor (db : Database) : Int := ((findLatest db).map (·.number)).getD (-1)

/-- A node that answers what it was asked: the block with the number, and from a
    range, the end of which is where the next range starts, some of its blocks. -/
structure FullNode.Honest (node : FullNode) : Prop where
  byNum : ∀ n block, node.getBlockByNum n = some block → block.blockHeader.isSome = true →
    block.number = n
  byLimit : ∀ startNum endNum blocks, node.getBlockByLimitNext startNum endNum = some blocks →
    ∀ block ∈ blocks, block.blockHeader.isSome = true →
      startNum ≤ block.number ∧ block.number < endNum
  distinct : ∀ startNum endNum blocks, node.getBlockByLimitNext startNum endNum = some blocks →
    ((blocks.filter (·.blockHeader.isSome)).map Block.number).Nodup

section Numbers

omit [Codec] in
theorem blockNumbers_append (ps qs : List Query) :
    blockNumbers (ps ++ qs) = blockNumbers ps ++ blockNumbers qs := by
  rw [blockNumbers, List.filterMap_append, List.map_append]
  rfl

theorem isImport_startQueries {heads : Heads} {status source : FullNode} {db : Database} :
    ∀ q ∈ startQueries heads status source db, q.isImport = true := by
  intro q hq
  rw [startQueries] at hq
  split at hq
  · exact absurd hq List.not_mem_nil
  · exact isImport_fullNodeQueries q hq

omit [Codec] in
theorem mem_blockNumbers_iff {qs : List Query} {n : Int} :
    n ∈ blockNumbers qs ↔ ∃ row, .insertBlock row ∈ qs ∧ row.number = n := by
  rw [blockNumbers, List.mem_map]
  exact exists_congr fun row => and_congr_left fun _ => Query.mem_blockRow

theorem mem_blockNumbers {c : Bool} {blocks : List Block} {n : Int} :
    n ∈ blockNumbers (fullNodeQueries c blocks) ↔
      ∃ block ∈ blocks, block.Readable ∧ block.number = n := by
  rw [mem_blockNumbers_iff]
  constructor
  · rintro ⟨row, hrow, rfl⟩
    rcases insertBlock_mem_fullNodeQueries.mp hrow with ⟨block, hblock, hreadable, rfl⟩
    exact ⟨block, hblock, hreadable, rfl⟩
  · rintro ⟨block, hblock, hreadable, rfl⟩
    exact ⟨(BlockModel.fromProto block).confirm c,
      insertBlock_mem_fullNodeQueries.mpr ⟨block, hblock, hreadable, rfl⟩, rfl⟩

omit [Codec] in
/-- A batch that commits adds its block numbers, none of which was there. -/
theorem exec_batch {qs : List Query} {db db' : Database} (himport : ∀ q ∈ qs, q.isImport = true)
    (h : execQueries qs db = some db') :
    storedNumbers db' = storedNumbers db ∪ {n | n ∈ blockNumbers qs} ∧
      ∀ n ∈ blockNumbers qs, n ∉ storedNumbers db := by
  have hblocks := (execQueries_import himport h).1
  have hnodup := db'.wellFormed.blocks_pkey
  rw [hblocks, List.map_append, List.nodup_append] at hnodup
  constructor
  · ext n
    simp only [storedNumbers, HasBlock, hblocks, List.mem_append, or_and_right, exists_or, Set.mem_union,
      Set.mem_ofPred_eq, blockNumbers, List.mem_map]
  · rintro n hn ⟨row, hrow, rfl⟩
    exact hnodup.2.2 _ (List.mem_map_of_mem hrow) _ hn rfl

omit [Codec] in
/-- The cursor bounds every number in the database. -/
theorem le_cursor {db : Database} {n : Int} (hn : n ∈ storedNumbers db) : n ≤ cursor db := by
  rcases hn with ⟨row, hrow, rfl⟩
  cases hlatest : findLatest db with
  | none =>
      rw [findLatest, Lib.highest_eq_none] at hlatest
      rw [hlatest] at hrow
      exact absurd hrow List.not_mem_nil
  | some latest =>
      simp only [cursor, hlatest, Option.map_some, Option.getD_some]
      exact (findLatest_spec hlatest).2 row hrow

omit [Codec] in
/-- A run is told the cursor, which is a 64-bit integer in the table. -/
theorem dbLatestBlock_toInt {heads : Heads} {db : Database} (hlow : -2 ^ 63 ≤ cursor db)
    (hhigh : cursor db < 2 ^ 63) : (nodeState heads db).dbLatestBlock.toInt = cursor db := by
  rw [cursor] at hlow hhigh ⊢
  simp only [nodeState]
  cases hlatest : findLatest db with
  | none => rfl
  | some latest =>
      simp only [hlatest, Option.map_some, Option.getD_some] at hlow hhigh ⊢
      exact Int64.toInt_ofInt_of_le hlow hhigh

omit [Codec] in
/-- An honest node answers above the cursor, where there is room above it and the run does
    not wrap. -/
theorem number_gt_of_honest {source : FullNode} (hsource : source.Honest) {status : NodeState}
    (hroom : status.dbLatestBlock.toInt < 2 ^ 63 - 1) (hwraps : ¬ status.Wraps) {block : Block}
    (h : block ∈ fullNodeStream source status) :
    status.dbLatestBlock.toInt < block.number := by
  rcases mem_fullNodeStream.mp h with ⟨⟨_, hanswers⟩, hheader⟩
  have hfrom := toInt_add_one hroom
  by_cases hbatch : status.fullNodeBlocksToSync < 100
  · rw [if_pos hbatch] at hanswers
    rcases hanswers with ⟨_, n, hlow, _, hn⟩
    rw [hsource.byNum n block hn hheader]
    omega
  · rw [if_neg hbatch, calls_of_not_wraps hbatch hwraps] at hanswers
    rcases hanswers with ⟨range, hrange, blocks, hblocks, hmem⟩
    have hlow := ((mem_batches (by omega) _ _).1 range hrange).1
    have hnumber := (hsource.byLimit _ _ blocks hblocks block hmem hheader).1
    omega

omit [Codec] in
/-- And it answers no number that is not a 64-bit integer. -/
theorem number_lt_of_honest {source : FullNode} (hsource : source.Honest) {status : NodeState}
    {block : Block} (h : block ∈ fullNodeStream source status) : block.number < 2 ^ 63 := by
  rcases mem_fullNodeStream.mp h with ⟨⟨_, hanswers⟩, hheader⟩
  have hto := Int64.toInt_lt (status.fullNodeBlock - 2)
  by_cases hbatch : status.fullNodeBlocksToSync < 100
  · rw [if_pos hbatch] at hanswers
    rcases hanswers with ⟨_, n, _, hhigh, hn⟩
    rw [hsource.byNum n block hn hheader]
    omega
  · rw [if_neg hbatch] at hanswers
    rcases hanswers with ⟨range, hrange, blocks, hblocks, hmem⟩
    have hhigh := le_of_mem_calls hrange
    have hnumber := (hsource.byLimit _ _ blocks hblocks block hmem hheader).2
    omega

end Numbers

end Tronscan
