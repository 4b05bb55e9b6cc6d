import Tronscan.Importer.Extracted

/-!
# The Rows an Importer Sends

What the full node importer sends adds rows to the tables of a block and changes
none that are there. `isImport` singles such queries out. A list of them leaves
each table with the rows it had and the rows among the queries, in order, and
the rows among the queries for a block are the rows of the block.

## Main definitions

* `Query.isImport`: Queries that only add to the tables of a block.
* `Query.blockRow` and its kin: The row a query adds to a table.
* `Extracted.transfers`, `Extracted.participates`: The rows of the contracts.

## Theorems

* `mem_blockRow` and its kin: A row is among the queries that insert it.
* `row_of_exec`, `mem_blocks_of_exec`: Where the rows of the blocks come from.
* `transaction_of_exec`: Where the hashes of the transactions come from.
* `execQueries_import`: Importing appends the rows of its queries.
* `contractQueries_rows`, `fullNodeQueries_rows`: Which rows these are.
* `mem_fullNodeQueries`: The queries for a list of blocks.
-/

namespace Tronscan

open DatabaseImporter BlockImporter

namespace Query

/-- The queries that only add rows to the tables of a block. -/
def isImport : Query → Bool
  | insertBlock _ | insertTransaction _ | insertTransfer _ => true
  | insertVote _ | deleteVotes _ | upsertWitness _ => true
  | insertAssetIssue _ | updateAsset _ | insertParticipate _ => true
  | _ => false

/-- The block a query inserts. -/
def blockRow : Query → Option BlockModel
  | insertBlock row => some row
  | _ => none

/-- The transaction a query inserts. -/
def transactionRow : Query → Option TransactionModel
  | insertTransaction row => some row
  | _ => none

/-- The transfer a query inserts. -/
def transferRow : Query → Option TransferModel
  | insertTransfer row => some row
  | _ => none

/-- The participation a query inserts. -/
def participateRow : Query → Option ParticipateAssetIssueModel
  | insertParticipate row => some row
  | _ => none

variable {q : Query}

theorem blockRow_eq_some {row : BlockModel} : q.blockRow = some row ↔ q = insertBlock row := by
  refine ⟨fun h => ?_, fun h => h ▸ rfl⟩
  cases q <;> cases h
  rfl

theorem transactionRow_eq_some {row : TransactionModel} :
    q.transactionRow = some row ↔ q = insertTransaction row := by
  refine ⟨fun h => ?_, fun h => h ▸ rfl⟩
  cases q <;> cases h
  rfl

theorem transferRow_eq_some {row : TransferModel} :
    q.transferRow = some row ↔ q = insertTransfer row := by
  refine ⟨fun h => ?_, fun h => h ▸ rfl⟩
  cases q <;> cases h
  rfl

/-- The block rows among the queries are those they insert. -/
theorem mem_blockRow {qs : List Query} {row : BlockModel} :
    row ∈ qs.filterMap blockRow ↔ insertBlock row ∈ qs := by
  simp only [List.mem_filterMap, blockRow_eq_some, exists_eq_right]

theorem mem_transactionRow {qs : List Query} {row : TransactionModel} :
    row ∈ qs.filterMap transactionRow ↔ insertTransaction row ∈ qs := by
  simp only [List.mem_filterMap, transactionRow_eq_some, exists_eq_right]

theorem mem_transferRow {qs : List Query} {row : TransferModel} :
    row ∈ qs.filterMap transferRow ↔ insertTransfer row ∈ qs := by
  simp only [List.mem_filterMap, transferRow_eq_some, exists_eq_right]

end Query

/-- Folding appends over a list of queries appends what each has to add. -/
theorem foldl_rows {α : Type} {on : Query → List α → List α} {added : Query → Option α}
    {qs : List Query} (hon : ∀ q ∈ qs, ∀ rows, on q rows = rows ++ (added q).toList)
    (rows : List α) : qs.foldl (fun rows q => on q rows) rows = rows ++ qs.filterMap added := by
  induction qs generalizing rows with
  | nil => rw [List.foldl_nil, List.filterMap_nil, List.append_nil]
  | cons q qs ih =>
      rw [List.foldl_cons, hon q List.mem_cons_self,
        ih fun p hp => hon p (List.mem_cons_of_mem q hp), List.append_assoc]
      cases hq : added q with
      | none => rw [List.filterMap_cons_none hq]; rfl
      | some row => rw [List.filterMap_cons_some hq]; rfl

section Import

variable {q : Query}

theorem onBlocks_import (h : q.isImport = true) (rows : List BlockModel) :
    q.onBlocks rows = rows ++ q.blockRow.toList := by
  cases q with
  | insertBlock row => rfl
  | deleteBlock number => cases h
  | confirmBlock number => cases h
  | _ => exact (List.append_nil rows).symm

theorem onTransactions_import (h : q.isImport = true) (rows : List TransactionModel) :
    q.onTransactions rows = rows ++ q.transactionRow.toList := by
  cases q with
  | insertTransaction row => rfl
  | deleteBlock number => cases h
  | upsertTransaction row => cases h
  | confirmTransactions number => cases h
  | deleteTransactions number => cases h
  | _ => exact (List.append_nil rows).symm

theorem onTransfers_import (h : q.isImport = true) (rows : List TransferModel) :
    q.onTransfers rows = rows ++ q.transferRow.toList := by
  cases q with
  | insertTransfer row => rfl
  | deleteBlock number => cases h
  | confirmTransfers number => cases h
  | deleteTransfers number => cases h
  | _ => exact (List.append_nil rows).symm

theorem onParticipates_import (h : q.isImport = true) (rows : List ParticipateAssetIssueModel) :
    q.onParticipates rows = rows ++ q.participateRow.toList := by
  cases q with
  | insertParticipate row => rfl
  | deleteParticipates number => cases h
  | _ => exact (List.append_nil rows).symm

/-- Importing appends the rows of its queries and does nothing else to the
    tables of a block. -/
theorem execQueries_import {qs : List Query} {db db' : Database}
    (himport : ∀ q ∈ qs, q.isImport = true) (h : execQueries qs db = some db') :
    db'.blocks = db.blocks ++ qs.filterMap Query.blockRow ∧
      db'.transactions = db.transactions ++ qs.filterMap Query.transactionRow ∧
      db'.transfers = db.transfers ++ qs.filterMap Query.transferRow ∧
      db'.participateAssetIssue =
        db.participateAssetIssue ++ qs.filterMap Query.participateRow := by
  rw [execQueries_blocks h, execQueries_transactions h, execQueries_transfers h,
    execQueries_participates h]
  exact ⟨foldl_rows (fun q hq => onBlocks_import (himport q hq)) _,
    foldl_rows (fun q hq => onTransactions_import (himport q hq)) _,
    foldl_rows (fun q hq => onTransfers_import (himport q hq)) _,
    foldl_rows (fun q hq => onParticipates_import (himport q hq)) _⟩

end Import

/-- The row of a block is one it had before the query, or that with the flag set, or the
    one the query inserts. -/
theorem mem_onBlocks {q : Query} {rows : List BlockModel} {row : BlockModel}
    (h : row ∈ q.onBlocks rows) :
    row ∈ rows ∨ (∃ r ∈ rows, q = .confirmBlock r.number ∧ row = r.confirm true) ∨
      q = .insertBlock row := by
  cases q with
  | insertBlock r =>
      rcases List.mem_append.mp h with h | h
      · exact Or.inl h
      · exact Or.inr (Or.inr (by rw [List.mem_singleton.mp h]))
  | deleteBlock n => exact Or.inl (List.mem_filter.mp h).1
  | confirmBlock n =>
      rcases List.mem_map.mp h with ⟨r, hr, rfl⟩
      split
      · rename_i hat
        exact Or.inr (Or.inl ⟨r, hr, by rw [hat], rfl⟩)
      · exact Or.inl hr
  | _ => exact Or.inl h

/-- So for a list of queries. -/
theorem row_of_exec {qs : List Query} {db db' : Database} (h : execQueries qs db = some db')
    {row : BlockModel} (hrow : row ∈ db'.blocks) :
    ∃ r, (r ∈ db.blocks ∨ .insertBlock r ∈ qs) ∧
      (row = r ∨ .confirmBlock r.number ∈ qs ∧ row = r.confirm true) := by
  refine Lib.execAll_induction (I := fun d => ∀ row ∈ d.blocks,
    ∃ r, (r ∈ db.blocks ∨ .insertBlock r ∈ qs) ∧
      (row = r ∨ .confirmBlock r.number ∈ qs ∧ row = r.confirm true)) qs ?_ db db'
    (fun row hrow => ⟨row, Or.inl hrow, Or.inl rfl⟩) h row hrow
  intro q hq s t hI hexec row hrow
  rw [(Query.exec_eq_some.mp hexec).2] at hrow
  rcases mem_onBlocks hrow with hrow | ⟨r', hr', rfl, rfl⟩ | rfl
  · exact hI row hrow
  · -- Setting the flag twice is setting it once.
    rcases hI r' hr' with ⟨r, hr, rfl | ⟨_, rfl⟩⟩
    · exact ⟨_, hr, Or.inr ⟨hq, rfl⟩⟩
    · exact ⟨r, hr, Or.inr ⟨hq, rfl⟩⟩
  · exact ⟨row, Or.inr hq, Or.inl rfl⟩

theorem mem_blocks_of_exec {qs : List Query} {db db' : Database}
    (h : execQueries qs db = some db') {row : BlockModel} (hrow : row ∈ db'.blocks) :
    (∃ r ∈ db.blocks, r.confirm row.confirmed = row) ∨
      ∃ r, .insertBlock r ∈ qs ∧ r.confirm row.confirmed = row := by
  rcases row_of_exec h hrow with ⟨r, hr, hflag⟩
  have hsame : r.confirm row.confirmed = row := by
    rcases hflag with rfl | ⟨_, rfl⟩ <;> rfl
  exact hr.imp (fun hr => ⟨r, hr, hsame⟩) (fun hr => ⟨r, hr, hsame⟩)

/-- A transaction after a list of queries has the hash of one before it, or of one that the
    queries write. -/
theorem transaction_of_exec {qs : List Query} {db db' : Database}
    (h : execQueries qs db = some db') {row : TransactionModel} (hrow : row ∈ db'.transactions) :
    (∃ r ∈ db.transactions, r.hash = row.hash) ∨
      ∃ r, (.insertTransaction r ∈ qs ∨ .upsertTransaction r ∈ qs) ∧ r.hash = row.hash := by
  refine Lib.execAll_induction (I := fun d => ∀ row ∈ d.transactions,
    (∃ r ∈ db.transactions, r.hash = row.hash) ∨
      ∃ r, (.insertTransaction r ∈ qs ∨ .upsertTransaction r ∈ qs) ∧ r.hash = row.hash) qs ?_ db db'
    (fun row hrow => Or.inl ⟨row, hrow, rfl⟩) h row hrow
  intro q hq s t hI hexec row hrow
  rw [(Query.exec_eq_some.mp hexec).2] at hrow
  rcases Query.mem_onTransactions hrow with (rfl | rfl) | ⟨⟨r, hr, hhash, _⟩, _⟩
  · exact Or.inr ⟨row, Or.inl hq, rfl⟩
  · exact Or.inr ⟨row, Or.inr hq, rfl⟩
  · rw [← hhash]
    exact hI r hr

theorem isImport_queries (model : ContractModel) : ∀ q ∈ model.queries, q.isImport = true := by
  intro q hq
  cases model with
  | voteWitnessList votes =>
      rcases List.mem_cons.mp hq with rfl | hq
      · rfl
      · rcases List.mem_map.mp hq with ⟨_, _, rfl⟩
        rfl
  | _ => rw [List.mem_singleton.mp hq]; rfl

/-- The transfer a model is, if it is one. -/
def ContractModel.transfer? : ContractModel → Option TransferModel
  | .transfer row => some row
  | _ => none

/-- The participation a model is, if it is one. -/
def ContractModel.participate? : ContractModel → Option ParticipateAssetIssueModel
  | .participate row => some row
  | _ => none

/-- The queries of a vote are about the table of votes alone. -/
theorem filterMap_buildUpdateVotes {α : Type} {f : Query → Option α} {address : String}
    (hdelete : f (.deleteVotes address) = none) (hinsert : ∀ row, f (.insertVote row) = none)
    (votes : List VoteWitnessContractModel) : (buildUpdateVotes address votes).filterMap f = [] := by
  refine List.filterMap_eq_nil_iff.mpr fun q hq => ?_
  rcases List.mem_cons.mp hq with rfl | hq
  · exact hdelete
  · rcases List.mem_map.mp hq with ⟨row, _, rfl⟩
    exact hinsert row

theorem queries_rows (model : ContractModel) :
    model.queries.filterMap Query.blockRow = [] ∧
      model.queries.filterMap Query.transactionRow = [] ∧
      model.queries.filterMap Query.transferRow = model.transfer?.toList ∧
      model.queries.filterMap Query.participateRow = model.participate?.toList := by
  cases model with
  | voteWitnessList votes =>
      exact ⟨filterMap_buildUpdateVotes rfl (fun _ => rfl) _,
        filterMap_buildUpdateVotes rfl (fun _ => rfl) _,
        filterMap_buildUpdateVotes rfl (fun _ => rfl) _,
        filterMap_buildUpdateVotes rfl (fun _ => rfl) _⟩
  | _ => exact ⟨rfl, rfl, rfl, rfl⟩

theorem confirm_participate? (model : ContractModel) (c : Bool) :
    (model.confirm c).participate? = model.participate? := by
  cases model <;> rfl

theorem confirm_transfer? (model : ContractModel) (c : Bool) :
    (model.confirm c).transfer? = model.transfer?.map fun row => row.confirm c := by
  cases model <;> rfl

namespace Extracted

variable (e : Extracted) (c : Bool)

/-- The rows of a block's transfers. -/
def transfers : List TransferModel := e.models.filterMap ContractModel.transfer?

/-- The rows of a block's participations. -/
def participates : List ParticipateAssetIssueModel :=
  e.models.filterMap ContractModel.participate?

/-- The transfers of a block carry its number. -/
theorem Sound.transfers_block [Codec] {e : Extracted} {block : Block} (h : e.Sound block) :
    ∀ row ∈ e.transfers, row.block = block.number := by
  intro row hrow
  rcases List.mem_filterMap.mp hrow with ⟨model, hmodel, htransfer⟩
  have hblock := h.models_block model hmodel
  cases model with
  | transfer r =>
      cases htransfer
      exact hblock.1
  | _ => cases htransfer

/-- So do its participations. -/
theorem Sound.participates_block [Codec] {e : Extracted} {block : Block} (h : e.Sound block) :
    ∀ row ∈ e.participates, row.block = block.number := by
  intro row hrow
  rcases List.mem_filterMap.mp hrow with ⟨model, hmodel, hparticipate⟩
  have hblock := h.models_block model hmodel
  cases model with
  | participate r =>
      cases hparticipate
      exact hblock
  | _ => cases hparticipate

/-- Setting the flag changes neither. -/
theorem Sound.confirm_transactions_block [Codec] {e : Extracted} {block : Block}
    (h : e.Sound block) (c : Bool) :
    ∀ row ∈ e.transactions.map (TransactionModel.confirm c), row.block = block.number := by
  intro row hrow
  rcases List.mem_map.mp hrow with ⟨r, hr, rfl⟩
  exact h.transactions_block r hr

theorem Sound.confirm_transfers_block [Codec] {e : Extracted} {block : Block}
    (h : e.Sound block) (c : Bool) :
    ∀ row ∈ e.transfers.map (TransferModel.confirm c), row.block = block.number := by
  intro row hrow
  rcases List.mem_map.mp hrow with ⟨r, hr, rfl⟩
  exact h.transfers_block r hr

theorem isImport_contractQueries : ∀ q ∈ e.contractQueries c, q.isImport = true := by
  intro q hq
  rcases List.mem_flatMap.mp hq with ⟨model, _, hq⟩
  exact isImport_queries _ q hq

theorem isImport_fullNodeQueries : ∀ q ∈ e.fullNodeQueries c, q.isImport = true := by
  intro q hq
  rcases List.mem_cons.mp hq with rfl | hq
  · rfl
  · rcases List.mem_append.mp hq with hq | hq
    · rcases List.mem_map.mp hq with ⟨_, _, rfl⟩
      rfl
    · exact e.isImport_contractQueries _ q hq

/-- The rows of a block's contracts, table by table. -/
theorem contractQueries_rows :
    (e.contractQueries c).filterMap Query.blockRow = [] ∧
      (e.contractQueries c).filterMap Query.transactionRow = [] ∧
      (e.contractQueries c).filterMap Query.transferRow =
        e.transfers.map (TransferModel.confirm c) ∧
      (e.contractQueries c).filterMap Query.participateRow = e.participates := by
  have hnil : ∀ {α β : Type} (xs : List α), (xs.flatMap fun _ => ([] : List β)) = [] :=
    fun xs => List.flatMap_eq_nil_iff.mpr fun _ _ => rfl
  simp only [contractQueries, List.filterMap_flatMap]
  refine ⟨?_, ?_, ?_, ?_⟩
  · simp only [(queries_rows _).1, hnil]
  · simp only [(queries_rows _).2.1, hnil]
  · simp only [(queries_rows _).2.2.1, confirm_transfer?, ← List.filterMap_eq_flatMap_toList]
    rw [transfers, List.map_filterMap]
  · simp only [(queries_rows _).2.2.2, confirm_participate?, ← List.filterMap_eq_flatMap_toList]
    rfl

/-- The rows the full node importer has for a block, table by table. -/
theorem fullNodeQueries_rows :
    (e.fullNodeQueries c).filterMap Query.blockRow = [e.block.confirm c] ∧
      (e.fullNodeQueries c).filterMap Query.transactionRow =
        e.transactions.map (TransactionModel.confirm c) ∧
      (e.fullNodeQueries c).filterMap Query.transferRow =
        e.transfers.map (TransferModel.confirm (e.transferFlag c)) ∧
      (e.fullNodeQueries c).filterMap Query.participateRow = e.participates := by
  -- The inserts of the transactions are rows of no other table.
  have hrows : ∀ {α : Type} (f : Query → Option α), (∀ row, f (.insertTransaction row) = none) →
      (e.transactions.map fun row => Query.insertTransaction (row.confirm c)).filterMap f = [] := by
    intro α f hf
    rw [List.filterMap_map]
    exact List.filterMap_eq_nil_iff.mpr fun row _ => hf _
  rcases e.contractQueries_rows (e.transferFlag c) with ⟨hblocks, htrx, htransfers, hparticipates⟩
  rw [fullNodeQueries, ← List.singleton_append]
  simp only [List.filterMap_append, hblocks, htrx, htransfers, hparticipates, List.append_nil]
  refine ⟨?_, ?_, ?_, ?_⟩
  · exact congrArg ([e.block.confirm c] ++ ·) (hrows _ fun _ => rfl)
  · rw [List.filterMap_map]
    exact congrFun List.filterMap_eq_map _
  · rw [hrows _ fun _ => rfl]
    rfl
  · rw [hrows _ fun _ => rfl]
    rfl

end Extracted

variable [Codec] {blocks : List Block} {c : Bool}

/-- What the full node importer sends for a list of blocks is what it sends for
    those it can read. -/
theorem mem_fullNodeQueries {q : Query} :
    q ∈ fullNodeQueries c blocks ↔
      ∃ block ∈ blocks, ∃ e, extract block = .ok e ∧ q ∈ e.fullNodeQueries c := by
  rw [fullNodeQueries, List.mem_flatMap]
  refine exists_congr fun block => and_congr_right fun _ => ?_
  rw [fullNodeBlockQueries_eq]
  cases extract block with
  | error e => exact iff_of_false List.not_mem_nil (fun ⟨_, h, _⟩ => by cases h)
  | ok e => exact ⟨fun h => ⟨e, rfl, h⟩, fun ⟨_, he, h⟩ => by cases he; exact h⟩

theorem isImport_fullNodeQueries : ∀ q ∈ fullNodeQueries c blocks, q.isImport = true := by
  intro q hq
  rcases mem_fullNodeQueries.mp hq with ⟨_, _, e, _, hq⟩
  exact e.isImport_fullNodeQueries c q hq

end Tronscan
