import Tronscan.Importer.System
import Tronscan.Core.Wire

/-!
# Blocks Imported in Part

The queries of all blocks are one stream, and it is cut without regard to where
a block ends. Each batch is a transaction and the stream goes on past one that
fails, so a block whose queries fall into two batches can be left with its row
and without its transactions. It is then behind the cursor and never imported
again.

`SameFate` is when no block is left like that. It is about the batches alone: a
batch that commits a block's row is matched by every batch with a transaction
or a transfer of the block. For blocks that are new to the database, which is
what a run reads, the condition is exact.

Transfers are compared as bags, each having an id of its own. Transactions have
their hash for a key.

## Main definitions

* `ImportedWhole`: The rows generated for a block are all there.
* `SameFate`: The batches of a block's row and of its other rows agree.

## Theorems

* `transactions_present_iff`, `transfers_present_iff`: Which rows are there, by
  the batches.
* `importedWhole_iff`: Blocks are imported whole when the batches agree.
* `not_blockAtomic_cut`: A block cut after its row.
-/

namespace Tronscan

open BlockImporter

/-- The queries that insert a transfer of the block with the number. -/
def Query.isTransferOf (n : Int) (q : Query) : Bool :=
  (q.transferRow.map fun row => decide (row.block = n)).getD false

variable [Codec]

/-- Every transaction row and every transfer row the importer generated for the
    block with the number is in the database. -/
structure ImportedWhole (c : Bool) (blocks : List Block) (db : Database) (n : Int) : Prop where
  transactions : ∀ row, .insertTransaction row ∈ fullNodeQueries c blocks → row.block = n →
    row ∈ db.transactions
  transfers : (((fullNodeQueries c blocks).filterMap Query.transferRow).filter
    (·.block = n)).Subperm db.transfers

/-- Where a batch with the row of a block commits, every transaction of the block
    is in a batch that commits, and every batch with one of its transfers does. -/
def SameFate (c : Bool) (blocks : List Block) (fired commits : List Bool) : Prop :=
  ∀ batch ∈ importBatches 1000 fired commits (fullNodeQueries c blocks), batch.2 = true →
    ∀ row, .insertBlock row ∈ batch.1 →
      (∀ r, .insertTransaction r ∈ fullNodeQueries c blocks → r.block = row.number →
        ∃ batch' ∈ importBatches 1000 fired commits (fullNodeQueries c blocks),
          batch'.2 = true ∧ .insertTransaction r ∈ batch'.1) ∧
      ∀ batch' ∈ importBatches 1000 fired commits (fullNodeQueries c blocks),
        ∀ q ∈ batch'.1, q.isTransferOf row.number = true → batch'.2 = true

section Present

variable {c : Bool} {blocks : List Block} {fired commits : List Bool} {db db' : Database} {n : Int}

/-- A transaction of a new block is there when some batch with it commits. -/
theorem transactions_present_iff (hrun : importRun c blocks fired commits db = some db')
    (hnew : n ∉ storedNumbers db) {row : TransactionModel} (hblock : row.block = n) :
    row ∈ db'.transactions ↔
      ∃ batch ∈ importBatches 1000 fired commits (fullNodeQueries c blocks),
        batch.2 = true ∧ .insertTransaction row ∈ batch.1 := by
  -- Before the run it was not there, its block not being there.
  have hold : row ∉ db.transactions := by
    intro hrow
    rcases db.wellFormed.transactions_blocks_id_fk row hrow with ⟨b, hb, hnumber⟩
    exact hnew ⟨b, hb, hnumber.trans hblock⟩
  rw [(importRun_rows hrun).2.1, List.mem_append, or_iff_right hold, Query.mem_transactionRow,
    importCommitted, Lib.mem_committed]
  constructor
  · rintro ⟨qs, hqs, hq⟩
    exact ⟨(qs, true), hqs, rfl, hq⟩
  · rintro ⟨⟨qs, fate⟩, hbatch, hfate, hq⟩
    cases hfate
    exact ⟨qs, hbatch, hq⟩

omit [Codec] in
theorem length_transfersOf (qs : List Query) (n : Int) :
    ((qs.filterMap Query.transferRow).filter (·.block = n)).length =
      qs.countP (Query.isTransferOf n) := by
  rw [← List.countP_eq_length_filter, List.countP_filterMap]
  rfl

/-- The transfers of a new block are all there when every batch with one of
    them commits. -/
theorem transfers_present_iff (hrun : importRun c blocks fired commits db = some db')
    (hnew : n ∉ storedNumbers db) :
    (((fullNodeQueries c blocks).filterMap Query.transferRow).filter
      (·.block = n)).Subperm db'.transfers ↔
    ∀ batch ∈ importBatches 1000 fired commits (fullNodeQueries c blocks),
      ∀ q ∈ batch.1, q.isTransferOf n = true → batch.2 = true := by
  have hold : (db.transfers.filter (·.block = n)) = [] := by
    refine List.filter_eq_nil_iff.mpr fun row hrow hblock => ?_
    rcases db.wellFormed.transfers_blocks_id_fk row hrow with ⟨b, hb, hnumber⟩
    exact hnew ⟨b, hb, hnumber.trans (of_decide_eq_true hblock)⟩
  -- What is there of the block is what commits of it, a sublist of what was generated.
  have hnow : db'.transfers.filter (·.block = n) =
      ((importCommitted c blocks fired commits).filterMap Query.transferRow).filter
        (·.block = n) := by
    rw [(importRun_rows hrun).2.2.1, List.filter_append, hold, List.nil_append]
  have hsublist := ((@importCommitted_sublist _ c blocks fired commits).filterMap
    Query.transferRow).filter fun row => decide (row.block = n)
  -- A sublist has all of them when it has as many.
  have hcount : (((fullNodeQueries c blocks).filterMap Query.transferRow).filter
      (·.block = n)).Subperm db'.transfers ↔
      (importCommitted c blocks fired commits).countP (Query.isTransferOf n) =
        (fullNodeQueries c blocks).countP (Query.isTransferOf n) := by
    rw [← length_transfersOf, ← length_transfersOf]
    constructor
    · intro h
      have hfilter := h.filter fun row => decide (row.block = n)
      rw [List.filter_filter, hnow] at hfilter
      simp only [Bool.and_self] at hfilter
      exact le_antisymm hsublist.length_le hfilter.length_le
    · intro h
      rw [← hsublist.eq_of_length h, ← hnow]
      exact List.filter_sublist.subperm
  have hbatches := Lib.countP_committed_eq_iff (Query.isTransferOf n)
    (importBatches 1000 fired commits (fullNodeQueries c blocks))
  rw [importBatches_flatten] at hbatches
  exact hcount.trans hbatches

/-- A row the run adds is in a batch that commits. -/
theorem stored_iff (hrun : importRun c blocks fired commits db = some db') :
    n ∈ storedNumbers db' ↔ n ∈ storedNumbers db ∨
      ∃ batch ∈ importBatches 1000 fired commits (fullNodeQueries c blocks),
        batch.2 = true ∧ ∃ row, .insertBlock row ∈ batch.1 ∧ row.number = n := by
  rw [(exec_batch (fun q hq => isImport_fullNodeQueries q (mem_importCommitted hq))
    (importRun_eq_some.mp hrun)).1, Set.mem_union, Set.mem_ofPred_eq]
  refine or_congr_right ?_
  rw [mem_blockNumbers_iff, importCommitted]
  constructor
  · rintro ⟨row, hrow, rfl⟩
    rcases Lib.mem_committed.mp hrow with ⟨qs, hqs, hq⟩
    exact ⟨(qs, true), hqs, rfl, row, hq, rfl⟩
  · rintro ⟨⟨qs, fate⟩, hbatch, hfate, row, hq, rfl⟩
    cases hfate
    exact ⟨row, Lib.mem_committed.mpr ⟨qs, hbatch, hq⟩, rfl⟩

end Present

/-- For blocks that are new to the database: every block whose row is stored is
    stored whole exactly when the batches with its rows share their fate. -/
theorem importedWhole_iff {c : Bool} {blocks : List Block} {fired commits : List Bool}
    {db db' : Database} (hnew : ∀ block ∈ blocks, block.number ∉ storedNumbers db)
    (hrun : importRun c blocks fired commits db = some db') :
    (∀ n ∈ storedNumbers db', ImportedWhole c blocks db' n) ↔
      SameFate c blocks fired commits := by
  constructor
  · -- A batch that commits with a row puts it there, and then everything is there.
    intro hwhole batch hbatch hcommits row hrow
    rcases insertBlock_mem_fullNodeQueries.mp (mem_importBatches.mp ⟨batch, hbatch, hrow⟩) with
      ⟨block, hblock, _, rfl⟩
    have hstored := (stored_iff hrun).mpr
      (Or.inr ⟨batch, hbatch, hcommits, _, hrow, rfl⟩)
    rcases hwhole _ hstored with ⟨htransactions, htransfers⟩
    refine ⟨fun r hr hblockr => ?_, ?_⟩
    · exact (transactions_present_iff hrun (hnew block hblock) hblockr).mp
        (htransactions r hr hblockr)
    · exact (transfers_present_iff hrun (hnew block hblock)).mp htransfers
  · intro hfate n hn
    rcases (stored_iff hrun).mp hn with hold | ⟨batch, hbatch, hcommits, row, hrow, rfl⟩
    · -- Nothing was generated for a block that was there before.
      constructor
      · intro r hr hblockr
        rcases block_of_insertTransaction hr with ⟨block, hblock, _, hnumber⟩
        exact absurd (hblockr ▸ hold) (hnumber ▸ hnew block hblock)
      · have hnone : ((fullNodeQueries c blocks).filterMap Query.transferRow).filter
            (·.block = n) = [] := by
          refine List.filter_eq_nil_iff.mpr fun r hr hblockr => ?_
          rcases block_of_insertTransfer (Query.mem_transferRow.mp hr) with
            ⟨block, hblock, _, hnumber⟩
          exact hnew block hblock (hnumber ▸ of_decide_eq_true hblockr ▸ hold)
        rw [hnone]
        exact List.nil_subperm
    · -- The row was added, and the rows generated with it share its fate.
      rcases insertBlock_mem_fullNodeQueries.mp (mem_importBatches.mp ⟨batch, hbatch, hrow⟩) with
        ⟨block, hblock, _, rfl⟩
      rcases hfate batch hbatch hcommits _ hrow with ⟨htransactions, htransfers⟩
      constructor
      · intro r hr hblockr
        exact (transactions_present_iff hrun (hnew block hblock) hblockr).mpr
          (htransactions r hr hblockr)
      · exact (transfers_present_iff hrun (hnew block hblock)).mpr htransfers

/-- The property as one would like to have it, with no condition on the batches. -/
def BlockAtomic : Prop :=
  ∀ (c : Bool) (blocks : List Block) (fired commits : List Bool) (db db' : Database),
    (∀ block ∈ blocks, block.number ∉ storedNumbers db) →
    importRun c blocks fired commits db = some db' →
    ∀ n ∈ storedNumbers db', ImportedWhole c blocks db' n

/-- Batches that all commit share their fate. -/
theorem sameFate_of_commits {c : Bool} {blocks : List Block} {fired commits : List Bool}
    (h : ∀ batch ∈ importBatches 1000 fired commits (fullNodeQueries c blocks), batch.2 = true) :
    SameFate c blocks fired commits := by
  intro _ _ _ row _
  refine ⟨fun r hr _ => ?_, fun batch hbatch _ _ _ => h batch hbatch⟩
  rcases mem_importBatches.mpr hr with ⟨batch, hbatch, hq⟩
  exact ⟨batch, hbatch, h batch hbatch, hq⟩

omit [Codec]

/-- A block with one transfer, all in one batch. -/
theorem importedWhole_iff_uncut :
    ∃ db', @importRun exampleCodec false [transferBlock 1] [] [true] Database.empty = some db' ∧
      ∀ n ∈ storedNumbers db', @ImportedWhole exampleCodec false [transferBlock 1] db' n := by
  have hsome : (@importRun exampleCodec false [transferBlock 1] [] [true]
      Database.empty).isSome = true := by decide +kernel
  rcases Option.isSome_iff_exists.mp hsome with ⟨db', hrun⟩
  refine ⟨db', hrun, (@importedWhole_iff exampleCodec false [transferBlock 1] [] [true]
    Database.empty db' ?_ hrun).mpr (@sameFate_of_commits exampleCodec _ _ _ _ ?_)⟩
  · rintro block _ ⟨row, hrow, _⟩
    exact absurd hrow List.not_mem_nil
  · decide +kernel

/-- The same block with a cut after its row, and the second batch failing. The
    row is stored, and neither the transaction nor the transfer is. -/
theorem not_blockAtomic_cut : ¬ @BlockAtomic exampleCodec := by
  let _ := exampleCodec
  intro h
  have hleft : (importRun false [transferBlock 1] [true] [true, false] Database.empty).map
      (fun db => (db.blocks.map (·.number), db.transactions.map (·.hash))) = some ([1], []) := by
    decide +kernel
  rcases Option.map_eq_some_iff.mp hleft with ⟨db', hrun, hrows⟩
  rw [Prod.mk.injEq] at hrows
  have hstored : 1 ∈ storedNumbers db' := by
    have hmem : (1 : Int) ∈ db'.blocks.map (·.number) := hrows.1 ▸ List.mem_singleton_self 1
    exact List.mem_map.mp hmem
  have hwhole := h false [transferBlock 1] [true] [true, false] Database.empty db'
    (fun _ _ ⟨_, hrow, _⟩ => absurd hrow List.not_mem_nil) hrun 1 hstored
  -- The importer generated a transaction for the block.
  have hgenerated : ((fullNodeQueries false [transferBlock 1]).filterMap
      Query.transactionRow).map (·.block) = [1] := by decide +kernel
  have hmem : (1 : Int) ∈ ((fullNodeQueries false [transferBlock 1]).filterMap
      Query.transactionRow).map (·.block) := hgenerated ▸ List.mem_singleton_self 1
  rcases List.mem_map.mp hmem with ⟨row, hrow, hblock⟩
  have hthere := hwhole.transactions _ (Query.mem_transactionRow.mp hrow) hblock
  rw [List.map_eq_nil_iff.mp hrows.2] at hthere
  exact absurd hthere List.not_mem_nil

end Tronscan
