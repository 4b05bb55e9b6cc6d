import Tronscan.Importer.Rows

/-!
# What the Solidity Importer Leaves

A confirmation updates the rows of a block in place and upserts its
transactions. A replacement deletes the block, its transactions and transfers
going with it, and inserts the solidity node's. Both are spelled out here table
by table, and shown to execute.

Most of the queries need nothing but the block their rows refer to.
`Query.NeedsBlock` collects them, so that a list of them executes wherever the
block is stored.

## Main definitions

* `Query.NeedsBlock`: Queries that execute wherever a block is stored.
* `confirmBlocksAt` and its kin: Setting the flag of the rows of one block.

## Theorems

* `execQueries_needsBlock`: A list of such queries executes.
* `exec_fullNodeQueries`: A block with distinct hashes imports into an empty
  database.
* `exec_confirmQueries`, `exec_replaceQueries`: The two paths execute.
* `confirmQueries_blockRow`, `replaceQueries_blockRow`: The blocks they insert.
* `confirmQueries_tables`, `replaceQueries_tables`: What they leave.
* `insertBlock_mem_solidityBlockQueries`, `solidityBlockQueries_transactionRow`: What a
  run inserts for a block.
-/

namespace Tronscan

open DatabaseImporter BlockImporter

/-- The queries that execute wherever the block is stored, and leave it there. -/
def Query.NeedsBlock (n : Int) : Query → Prop
  | .upsertTransaction row => row.block = n
  | .insertTransfer row => row.block = n
  | .insertBlock _ | .deleteBlock _ | .insertTransaction _ => False
  | _ => True

theorem exec_needsBlock {n : Int} {q : Query} {db : Database} (hq : q.NeedsBlock n)
    (hn : HasBlock n db) : ∃ db', q.exec db = some db' ∧ HasBlock n db' := by
  have hallowed : q.allowed db.toTables = true := by
    cases q with
    | upsertTransaction row => exact Lib.hasKey_iff.mpr (hq ▸ hn)
    | insertTransfer row => exact Lib.hasKey_iff.mpr (hq ▸ hn)
    | insertBlock row => exact absurd hq id
    | insertTransaction row => exact absurd hq id
    | _ => rfl
  refine ⟨⟨q.apply db.toTables, Query.apply_wellFormed db.wellFormed hallowed⟩,
    Query.exec_eq_some.mpr ⟨hallowed, rfl⟩, ?_⟩
  refine Query.onBlocks_number (fun number h => ?_) hn
  rw [h] at hq
  exact absurd hq id

/-- A list of them executes as a transaction. -/
theorem execQueries_needsBlock {n : Int} {qs : List Query} {db : Database}
    (hqs : ∀ q ∈ qs, q.NeedsBlock n) (hn : HasBlock n db) :
    ∃ db', execQueries qs db = some db' ∧ HasBlock n db' := by
  induction qs generalizing db with
  | nil => exact ⟨db, rfl, hn⟩
  | cons q qs ih =>
      rcases exec_needsBlock (hqs q List.mem_cons_self) hn with ⟨u, hu, hnu⟩
      rcases ih (fun p hp => hqs p (List.mem_cons_of_mem q hp)) hnu with ⟨db', hdb', hn'⟩
      exact ⟨db', Lib.execAll_cons_some.mpr ⟨u, hu, hdb'⟩, hn'⟩

/-- Transactions with free and distinct hashes insert. -/
theorem exec_insertTransactions {n : Int} {db : Database} {rows : List TransactionModel}
    (hn : HasBlock n db) (hblock : ∀ row ∈ rows, row.block = n)
    (hnodup : (rows.map (·.hash)).Nodup)
    (hfresh : ∀ row ∈ rows, ∀ r ∈ db.transactions, r.hash ≠ row.hash) :
    ∃ db', execQueries (rows.map .insertTransaction) db = some db' ∧ HasBlock n db' := by
  induction rows generalizing db with
  | nil => exact ⟨db, rfl, hn⟩
  | cons row rows ih =>
      rw [List.map_cons, List.nodup_cons] at hnodup
      have hallowed : (Query.insertTransaction row).allowed db.toTables = true := by
        rw [Query.allowed, Bool.and_eq_true, Bool.not_eq_true', Lib.hasKey_eq_false]
        exact ⟨hfresh row List.mem_cons_self,
          Lib.hasKey_iff.mpr ((hblock row List.mem_cons_self).symm ▸ hn)⟩
      let u : Database := ⟨_, Query.apply_wellFormed db.wellFormed hallowed⟩
      have hu : (Query.insertTransaction row).exec db = some u :=
        Query.exec_eq_some.mpr ⟨hallowed, rfl⟩
      -- The hashes being distinct, the row is not in the way of the rest.
      have hrest : ∀ r ∈ rows, ∀ q ∈ u.transactions, q.hash ≠ r.hash := by
        intro r hr q hq hhash
        rcases List.mem_append.mp hq with hq | hq
        · exact hfresh r (List.mem_cons_of_mem row hr) q hq hhash
        · rw [List.mem_singleton.mp hq] at hhash
          exact hnodup.1 (hhash ▸ List.mem_map_of_mem hr)
      rcases @ih u hn (fun r hr => hblock r (List.mem_cons_of_mem row hr)) hnodup.2 hrest
        with ⟨db', hdb', hn'⟩
      exact ⟨db', Lib.execAll_cons_some.mpr ⟨u, hu, hdb'⟩, hn'⟩

section Block

variable [Codec] {block : Block} {e : Extracted} {db db' : Database}

theorem needsBlock_contractQueries (he : e.Sound block) (c : Bool) :
    ∀ q ∈ e.contractQueries c, q.NeedsBlock block.number := by
  intro q hq
  rcases List.mem_flatMap.mp hq with ⟨model, hmodel, hq⟩
  have hblock := he.models_block model hmodel
  -- Only a transfer refers to its block by a foreign key.
  cases model with
  | transfer row =>
      rw [List.mem_singleton.mp hq]
      exact hblock.1
  | voteWitnessList votes =>
      rcases List.mem_cons.mp hq with rfl | hq
      · trivial
      · rcases List.mem_map.mp hq with ⟨_, _, rfl⟩
        trivial
  | _ =>
      rw [List.mem_singleton.mp hq]
      trivial

theorem needsBlock_upsertQueries (he : e.Sound block) :
    ∀ q ∈ e.upsertQueries, q.NeedsBlock block.number := by
  intro q hq
  rcases List.mem_map.mp hq with ⟨row, hrow, rfl⟩
  exact he.transactions_block row hrow

/-- A block whose transactions have distinct hashes imports into an empty
    database. -/
theorem exec_fullNodeQueries (he : e.Sound block)
    (hnodup : (block.transactions.map Transaction.hash).Nodup) (c : Bool) :
    ∃ db', execQueries (e.fullNodeQueries c) Database.empty = some db' := by
  -- The block first, which the other rows refer to.
  have hallowed : (Query.insertBlock (e.block.confirm c)).allowed Database.empty.toTables = true :=
    rfl
  let u : Database := ⟨_, Query.apply_wellFormed Database.empty.wellFormed hallowed⟩
  have hu : (Query.insertBlock (e.block.confirm c)).exec Database.empty = some u :=
    Query.exec_eq_some.mpr ⟨hallowed, rfl⟩
  have hn : HasBlock block.number u :=
    ⟨e.block.confirm c, List.mem_singleton_self _, congrArg BlockModel.number he.block_eq⟩
  -- Then its transactions, the hashes being distinct and the table empty.
  have hrows : (e.transactions.map (TransactionModel.confirm c)).map (·.hash) =
      block.transactions.map Transaction.hash := by
    rw [← he.transactions_hash, List.map_map]
    rfl
  rcases @exec_insertTransactions _ _ (e.transactions.map (TransactionModel.confirm c)) hn
    (he.confirm_transactions_block c) (hrows ▸ hnodup) (fun _ _ _ h => absurd h List.not_mem_nil)
    with ⟨v, hv, hnv⟩
  -- The contracts need the block and nothing else.
  rcases execQueries_needsBlock (needsBlock_contractQueries he (e.transferFlag c)) hnv
    with ⟨db', hdb', _⟩
  refine ⟨db', Lib.execAll_cons_some.mpr ⟨u, hu, Lib.execAll_append_some.mpr ⟨v, ?_, hdb'⟩⟩⟩
  rw [List.map_map] at hv
  exact hv

/-- The confirmation executes where the block is stored. -/
theorem exec_confirmQueries (he : e.Sound block) (hn : HasBlock block.number db) :
    ∃ db', execQueries (e.confirmQueries block.number) db = some db' := by
  have hqs : ∀ q ∈ e.confirmQueries block.number, q.NeedsBlock block.number := by
    intro q hq
    rcases List.mem_append.mp hq with hq | hq
    · simp only [buildConfirmBlock, List.mem_cons, List.not_mem_nil, or_false] at hq
      rcases hq with rfl | rfl | rfl <;> trivial
    · exact needsBlock_upsertQueries he q hq
  rcases execQueries_needsBlock hqs hn with ⟨db', hdb', _⟩
  exact ⟨db', hdb'⟩

/-- The replacement executes wherever. -/
theorem exec_replaceQueries (he : e.Sound block) (db : Database) :
    ∃ db', execQueries e.replaceQueries db = some db' := by
  have hnumber : e.block.number = block.number := congrArg BlockModel.number he.block_eq
  have hdelete : (Query.deleteBlock e.block.number).allowed db.toTables = true := rfl
  let u : Database := ⟨_, Query.apply_wellFormed db.wellFormed hdelete⟩
  have hu : (Query.deleteBlock e.block.number).exec db = some u :=
    Query.exec_eq_some.mpr ⟨hdelete, rfl⟩
  -- The number is free once the block is deleted.
  have hinsert : (Query.insertBlock (e.block.confirm true)).allowed u.toTables = true := by
    rw [Query.allowed, Bool.not_eq_true', Lib.hasKey_eq_false]
    exact fun r hr => of_decide_eq_true (List.mem_filter.mp hr).2
  let v : Database := ⟨_, Query.apply_wellFormed u.wellFormed hinsert⟩
  have hv : (Query.insertBlock (e.block.confirm true)).exec u = some v :=
    Query.exec_eq_some.mpr ⟨hinsert, rfl⟩
  -- From here on the block is there, which is all that the rest needs.
  have hn : HasBlock block.number v :=
    ⟨e.block.confirm true, List.mem_append_right _ (List.mem_singleton_self _), hnumber⟩
  have hrest : ∀ q ∈ [.deleteTransactions e.block.number, .deleteTransfers e.block.number,
      .deleteAssetIssues e.block.number, .deleteParticipates e.block.number] ++
      e.upsertQueries ++ e.contractQueries true, q.NeedsBlock block.number := by
    intro q hq
    rcases List.mem_append.mp hq with hq | hq
    · rcases List.mem_append.mp hq with hq | hq
      · simp only [List.mem_cons, List.not_mem_nil, or_false] at hq
        rcases hq with rfl | rfl | rfl | rfl <;> trivial
      · exact needsBlock_upsertQueries he q hq
    · exact needsBlock_contractQueries he true q hq
  rcases execQueries_needsBlock hrest hn with ⟨db', hdb', _⟩
  exact ⟨db', Lib.execAll_cons_some.mpr ⟨u, hu, Lib.execAll_cons_some.mpr ⟨v, hv, hdb'⟩⟩⟩

end Block

section Tables

variable {e : Extracted} {n : Int} {db db' : Database}

/-- Queries that leave a table alone leave it alone together. -/
theorem foldl_same {α : Type} {on : Query → List α → List α} {qs : List Query}
    (hon : ∀ q ∈ qs, ∀ rows, on q rows = rows) (rows : List α) :
    qs.foldl (fun rows q => on q rows) rows = rows := by
  induction qs with
  | nil => rfl
  | cons q qs ih =>
      rw [List.foldl_cons, hon q List.mem_cons_self]
      exact ih fun p hp => hon p (List.mem_cons_of_mem q hp)

theorem upsertQueries_blocks (rows : List BlockModel) :
    e.upsertQueries.foldl (fun rows q => q.onBlocks rows) rows = rows := by
  refine foldl_same (fun q hq rows => ?_) rows
  rcases List.mem_map.mp hq with ⟨_, _, rfl⟩
  rfl

theorem upsertQueries_transfers (rows : List TransferModel) :
    e.upsertQueries.foldl (fun rows q => q.onTransfers rows) rows = rows := by
  refine foldl_same (fun q hq rows => ?_) rows
  rcases List.mem_map.mp hq with ⟨_, _, rfl⟩
  rfl

theorem upsertQueries_participates (rows : List ParticipateAssetIssueModel) :
    e.upsertQueries.foldl (fun rows q => q.onParticipates rows) rows = rows := by
  refine foldl_same (fun q hq rows => ?_) rows
  rcases List.mem_map.mp hq with ⟨_, _, rfl⟩
  rfl

theorem upsertQueries_transactions (rows : List TransactionModel) :
    e.upsertQueries.foldl (fun rows q => q.onTransactions rows) rows =
      (e.transactions.map (TransactionModel.confirm true)).foldl
        (fun t row => Lib.upsert (·.hash) row t) rows := by
  rw [Extracted.upsertQueries, List.foldl_map, List.foldl_map]
  rfl

theorem upsertQueries_blockRow : e.upsertQueries.filterMap Query.blockRow = [] := by
  rw [Extracted.upsertQueries, List.filterMap_map]
  exact List.filterMap_eq_nil_iff.mpr fun _ _ => rfl

/-- A confirmation inserts no block. -/
theorem confirmQueries_blockRow : (e.confirmQueries n).filterMap Query.blockRow = [] := by
  rw [Extracted.confirmQueries, List.filterMap_append, upsertQueries_blockRow]
  rfl

/-- A replacement inserts its own. -/
theorem replaceQueries_blockRow :
    e.replaceQueries.filterMap Query.blockRow = [e.block.confirm true] := by
  simp only [Extracted.replaceQueries, List.filterMap_append, upsertQueries_blockRow,
    (e.contractQueries_rows true).1, List.append_nil]
  rfl

/-- Setting the flag of the rows of one block. -/
def confirmBlocksAt (n : Int) (rows : List BlockModel) : List BlockModel :=
  rows.map fun r => if r.number = n then r.confirm true else r

/-- The same for the transactions of a block. -/
def confirmTransactionsAt (n : Int) (rows : List TransactionModel) : List TransactionModel :=
  rows.map fun r => if r.block = n then r.confirm true else r

/-- The same for its transfers. -/
def confirmTransfersAt (n : Int) (rows : List TransferModel) : List TransferModel :=
  rows.map fun r => if r.block = n then r.confirm true else r

/-- What a confirmation leaves. -/
theorem confirmQueries_tables (h : execQueries (e.confirmQueries n) db = some db') :
    db'.blocks = confirmBlocksAt n db.blocks ∧
      db'.transactions = (e.transactions.map (TransactionModel.confirm true)).foldl
        (fun t row => Lib.upsert (·.hash) row t) (confirmTransactionsAt n db.transactions) ∧
      db'.transfers = confirmTransfersAt n db.transfers ∧
      db'.participateAssetIssue = db.participateAssetIssue := by
  rw [execQueries_blocks h, execQueries_transactions h, execQueries_transfers h,
    execQueries_participates h]
  simp only [Extracted.confirmQueries, List.foldl_append, upsertQueries_blocks,
    upsertQueries_transactions, upsertQueries_transfers, upsertQueries_participates]
  exact ⟨rfl, rfl, rfl, rfl⟩

/-- What a replacement leaves. -/
theorem replaceQueries_tables (h : execQueries e.replaceQueries db = some db') :
    db'.blocks = db.blocks.filter (·.number ≠ e.block.number) ++ [e.block.confirm true] ∧
      db'.transactions = (e.transactions.map (TransactionModel.confirm true)).foldl
        (fun t row => Lib.upsert (·.hash) row t)
        (db.transactions.filter (·.block ≠ e.block.number)) ∧
      db'.transfers = db.transfers.filter (·.block ≠ e.block.number) ++
        e.transfers.map (TransferModel.confirm true) ∧
      db'.participateAssetIssue =
        db.participateAssetIssue.filter (·.block ≠ e.block.number) ++ e.participates := by
  have himport := e.isImport_contractQueries true
  rcases e.contractQueries_rows true with ⟨hblocks, htransactions, htransfers, hparticipates⟩
  rw [execQueries_blocks h, execQueries_transactions h, execQueries_transfers h,
    execQueries_participates h]
  simp only [Extracted.replaceQueries, List.foldl_append, upsertQueries_blocks,
    upsertQueries_transactions, upsertQueries_transfers, upsertQueries_participates,
    foldl_rows (fun q hq => onBlocks_import (himport q hq)),
    foldl_rows (fun q hq => onTransactions_import (himport q hq)),
    foldl_rows (fun q hq => onTransfers_import (himport q hq)),
    foldl_rows (fun q hq => onParticipates_import (himport q hq)),
    hblocks, htransactions, htransfers, hparticipates, List.append_nil]
  -- The delete has cascaded already, so deleting by number again does nothing.
  have hagain {α : Type} (p : α → Bool) (rows : List α) :
      (rows.filter p).filter p = rows.filter p := by
    rw [List.filter_filter]
    simp only [Bool.and_self]
  refine ⟨rfl, ?_, ?_, rfl⟩
  · exact congrArg (fun rows => (e.transactions.map (TransactionModel.confirm true)).foldl
      (fun t row => Lib.upsert (·.hash) row t) rows) (hagain _ _)
  · exact congrArg (· ++ _) (hagain _ _)

end Tables

section Run

variable [Codec] {block : Block}

/-- The block rows that a solidity run inserts for a block: its own, in the place of the row
    that was found. -/
theorem insertBlock_mem_solidityBlockQueries {found : Option BlockModel} {row : BlockModel}
    (h : .insertBlock row ∈ solidityBlockQueries block found) :
    ∃ old, found = some old ∧ old.confirmed = false ∧ block.hash ≠ old.hash ∧ block.Readable ∧
      row = (BlockModel.fromProto block).confirm true := by
  cases found with
  | none => exact absurd h List.not_mem_nil
  | some old =>
      rw [solidityBlockQueries, buildSolidityBlockQueries_eq] at h
      split at h
      · rename_i hfilter
        rw [Bool.and_eq_true, Bool.not_eq_true'] at hfilter
        cases he : extract block with
        | error thrown =>
            rw [he] at h
            exact absurd h List.not_mem_nil
        | ok e =>
            simp only [he, Except.map, emitted] at h
            rw [← Query.mem_blockRow] at h
            split at h
            · rw [confirmQueries_blockRow] at h
              exact absurd h List.not_mem_nil
            · rename_i hhash
              rw [replaceQueries_blockRow, List.mem_singleton, (extract_sound he).block_eq] at h
              exact ⟨old, rfl, hfilter.2, hhash, extract_ok_iff.mp ⟨e, he⟩, h⟩
      · exact absurd h List.not_mem_nil

/-- A solidity run inserts no transaction. It upserts them. -/
theorem solidityBlockQueries_transactionRow (block : Block) (found : Option BlockModel) :
    (solidityBlockQueries block found).filterMap Query.transactionRow = [] := by
  have hupsert (e : Extracted) : e.upsertQueries.filterMap Query.transactionRow = [] := by
    rw [Extracted.upsertQueries, List.filterMap_map]
    exact List.filterMap_eq_nil_iff.mpr fun _ _ => rfl
  cases found with
  | none => rfl
  | some old =>
      rw [solidityBlockQueries, buildSolidityBlockQueries_eq]
      split
      · cases he : extract block with
        | error thrown => rfl
        | ok e =>
            simp only [Except.map, emitted]
            split
            · rw [Extracted.confirmQueries, List.filterMap_append, hupsert]
              rfl
            · simp only [Extracted.replaceQueries, List.filterMap_append, hupsert,
                (e.contractQueries_rows true).2.1, List.append_nil]
              rfl
      · rfl

end Run

end Tronscan
