import Tronscan.Importer.Rows
import Tronscan.Importer.Sync

/-!
# What an Import Leaves

The full node importer as a whole: the queries of its blocks, flattened into
one stream, cut into batches of at most a thousand, each batch one transaction.

The cut is where a timer and the size limit put it. The fate of each batch is
given too, a transaction being able to fail for reasons the queries do not
show. A statement about every `fired` and every `commits` is one about every
way the stream can be cut and every set of batches that fails.

## Main definitions

* `importBatches`: A stream of queries, cut, each batch with its fate.
* `importRun`: The database an import leaves.

## Theorems

* `importBatches_flatten`, `mem_importBatches`: Cutting keeps every query.
* `importBatches_length_le`, `importBatches_ne_nil`: No batch is larger than the
  bound, and none is empty.
* `importRun_eq_some`: An import executes the queries that commit.
* `importRun_rows`: It appends their rows.
* `block_of_insertTransaction`, `block_of_insertTransfer`: The rows of an import
  refer to its blocks.
* `importRun_block`: Every block row it adds is that of one of its blocks.
* `exists_importRun`: Any part of the queries may be what commits.
-/

namespace Tronscan

open BlockImporter

/-- A stream of queries cut into batches of at most `max`, each with the fate of
    its transaction. Batches past the end of `commits` fail. -/
def importBatches (max : Nat) (fired commits : List Bool) (queries : List Query) :
    List (List Query × Bool) :=
  Lib.withFates (Lib.groupedWithin max fired queries) commits

variable [Codec]

/-- The full node importer on a list of blocks, `none` when a batch that is
    meant to commit violates a constraint. -/
def importRun (confirmBlocks : Bool) (blocks : List Block) (fired commits : List Bool)
    (db : Database) : Option Database :=
  Lib.runBatches Query.exec
    (importBatches 1000 fired commits (fullNodeQueries confirmBlocks blocks)) db

section Run

variable {c : Bool} {blocks : List Block} {fired commits : List Bool} {db db' : Database}

/-- The queries of an import that commit. -/
def importCommitted (c : Bool) (blocks : List Block) (fired commits : List Bool) : List Query :=
  Lib.committed (importBatches 1000 fired commits (fullNodeQueries c blocks))

theorem importRun_eq_some :
    importRun c blocks fired commits db = some db' ↔
      execQueries (importCommitted c blocks fired commits) db = some db' := by
  rw [importRun, Lib.runBatches_eq_execAll]
  rfl

omit [Codec] in
/-- Cutting a stream loses and reorders nothing. -/
theorem importBatches_flatten (max : Nat) (fired commits : List Bool) (queries : List Query) :
    ((importBatches max fired commits queries).map (·.1)).flatten = queries := by
  rw [importBatches, Lib.map_withFates, Lib.groupedWithin_flatten]

omit [Codec] in
/-- So each query is in some batch. -/
theorem mem_importBatches {max : Nat} {fired commits : List Bool} {queries : List Query}
    {q : Query} : (∃ batch ∈ importBatches max fired commits queries, q ∈ batch.1) ↔
      q ∈ queries := by
  have hflatten : q ∈ ((importBatches max fired commits queries).map (·.1)).flatten ↔
      q ∈ queries := by rw [importBatches_flatten]
  rw [← hflatten, List.mem_flatten]
  simp only [List.mem_map, exists_exists_and_eq_and]

omit [Codec] in
/-- No batch is larger than a transaction may be. -/
theorem importBatches_length_le {max : Nat} (hmax : 0 < max) {fired commits : List Bool}
    {queries : List Query} :
    ∀ batch ∈ importBatches max fired commits queries, batch.1.length ≤ max := by
  intro batch hbatch
  have hgroup : batch.1 ∈ (importBatches max fired commits queries).map (·.1) :=
    List.mem_map_of_mem hbatch
  rw [importBatches, Lib.map_withFates] at hgroup
  exact Lib.groupedWithin_length_le max hmax fired queries _ hgroup

omit [Codec] in
/-- None is empty. -/
theorem importBatches_ne_nil {max : Nat} {fired commits : List Bool} {queries : List Query} :
    ∀ batch ∈ importBatches max fired commits queries, batch.1 ≠ [] := by
  intro batch hbatch
  have hgroup : batch.1 ∈ (importBatches max fired commits queries).map (·.1) :=
    List.mem_map_of_mem hbatch
  rw [importBatches, Lib.map_withFates] at hgroup
  exact Lib.groupFrom_ne_nil max fired [] queries _ hgroup

theorem importCommitted_sublist :
    (importCommitted c blocks fired commits).Sublist (fullNodeQueries c blocks) := by
  have hsublist := Lib.committed_sublist
    (importBatches 1000 fired commits (fullNodeQueries c blocks))
  rwa [importBatches_flatten] at hsublist

theorem mem_importCommitted {q : Query} (h : q ∈ importCommitted c blocks fired commits) :
    q ∈ fullNodeQueries c blocks :=
  importCommitted_sublist.mem h

theorem importRun_rows (h : importRun c blocks fired commits db = some db') :
    db'.blocks = db.blocks ++ (importCommitted c blocks fired commits).filterMap Query.blockRow ∧
      db'.transactions = db.transactions ++
        (importCommitted c blocks fired commits).filterMap Query.transactionRow ∧
      db'.transfers = db.transfers ++
        (importCommitted c blocks fired commits).filterMap Query.transferRow ∧
      db'.participateAssetIssue = db.participateAssetIssue ++
        (importCommitted c blocks fired commits).filterMap Query.participateRow :=
  execQueries_import (fun q hq => isImport_fullNodeQueries q (mem_importCommitted hq))
    (importRun_eq_some.mp h)

/-- The block rows the full node importer has. -/
theorem insertBlock_mem_fullNodeQueries {row : BlockModel} :
    .insertBlock row ∈ fullNodeQueries c blocks ↔
      ∃ block ∈ blocks, block.Readable ∧ row = (BlockModel.fromProto block).confirm c := by
  rw [mem_fullNodeQueries]
  refine exists_congr fun block => and_congr_right fun _ => ?_
  have hrow (e : Extracted) : .insertBlock row ∈ e.fullNodeQueries c ↔ row = e.block.confirm c := by
    rw [← Query.mem_blockRow, (e.fullNodeQueries_rows c).1, List.mem_singleton]
  rw [← extract_ok_iff]
  constructor
  · rintro ⟨e, he, hq⟩
    exact ⟨⟨e, he⟩, (extract_sound he).block_eq ▸ (hrow e).mp hq⟩
  · rintro ⟨⟨e, he⟩, hq⟩
    exact ⟨e, he, (hrow e).mpr ((extract_sound he).block_eq ▸ hq)⟩

/-- A transaction the importer inserts refers to one of its blocks. -/
theorem block_of_insertTransaction {row : TransactionModel}
    (h : .insertTransaction row ∈ fullNodeQueries c blocks) :
    ∃ block ∈ blocks, block.Readable ∧ row.block = block.number := by
  rcases mem_fullNodeQueries.mp h with ⟨block, hblock, e, he, hq⟩
  rw [← Query.mem_transactionRow, (e.fullNodeQueries_rows c).2.1] at hq
  rcases List.mem_map.mp hq with ⟨r, hr, rfl⟩
  exact ⟨block, hblock, extract_ok_iff.mp ⟨e, he⟩, (extract_sound he).transactions_block r hr⟩

/-- So does a transfer. -/
theorem block_of_insertTransfer {row : TransferModel}
    (h : .insertTransfer row ∈ fullNodeQueries c blocks) :
    ∃ block ∈ blocks, block.Readable ∧ row.block = block.number := by
  rcases mem_fullNodeQueries.mp h with ⟨block, hblock, e, he, hq⟩
  rw [← Query.mem_transferRow, (e.fullNodeQueries_rows c).2.2.1] at hq
  rcases List.mem_map.mp hq with ⟨r, hr, rfl⟩
  exact ⟨block, hblock, extract_ok_iff.mp ⟨e, he⟩, (extract_sound he).transfers_block r hr⟩

/-- Every block row an import adds is that of a block it read. -/
theorem importRun_block (h : importRun c blocks fired commits db = some db') {row : BlockModel}
    (hrow : row ∈ db'.blocks) :
    row ∈ db.blocks ∨
      ∃ block ∈ blocks, block.Readable ∧ row = (BlockModel.fromProto block).confirm c := by
  rw [(importRun_rows h).1, List.mem_append] at hrow
  refine hrow.imp_right fun hrow => ?_
  exact insertBlock_mem_fullNodeQueries.mp (mem_importCommitted (Query.mem_blockRow.mp hrow))

/-- Any part of the queries may be what commits. -/
theorem exists_importRun {part : List Query} (hpart : part.Sublist (fullNodeQueries c blocks))
    (h : execQueries part db = some db') :
    ∃ fired commits, importRun c blocks fired commits db = some db' := by
  rcases @Lib.exists_committed_eq _ 1000 (by omega) _ _ hpart with ⟨fired, commits, hcommitted⟩
  refine ⟨fired, commits, importRun_eq_some.mpr ?_⟩
  rw [importCommitted, importBatches, hcommitted]
  exact h

end Run

end Tronscan
