import Tronscan.Importer.Solidity
import Tronscan.Core.Wire

/-!
# Confirming and Replacing Agree with Importing

The solidity importer has two ways to bring the rows of a block in line with the
solidity node's. It updates them in place, or it deletes them and inserts its
own. Either way the block ends up as a confirmed import would have left it, had
there been nothing there, and no other block is touched.

The rows of a block are compared as bags, table by table. A generated id is not
part of a row.

An upsert goes by the hash alone, so a transaction stored under another number
would be moved. And a hash is taken for the block, so two blocks of one hash
have to be equal. Both are hypotheses.

## Main definitions

* `SameAt`: Two databases agree on the rows of a block.
* `SameElsewhere`: They agree on the rows of every other.
* `ImportedAs`: The rows of a block are those an import creates.

## Theorems

* `fresh_rows`, `importedAs_iff`: The rows an import creates, table by table.
* `confirm_agrees`, `replace_agrees`: The two paths.
* `solidity_agrees`: Whichever is taken.
-/

namespace Tronscan

open BlockImporter

/-- The databases have the same rows for the block with the number. -/
structure SameAt (n : Int) (db db' : Database) : Prop where
  blocks : (db.blocks.filter (·.number = n)).Perm (db'.blocks.filter (·.number = n))
  transactions :
    (db.transactions.filter (·.block = n)).Perm (db'.transactions.filter (·.block = n))
  transfers : (db.transfers.filter (·.block = n)).Perm (db'.transfers.filter (·.block = n))
  participates : (db.participateAssetIssue.filter (·.block = n)).Perm
    (db'.participateAssetIssue.filter (·.block = n))

/-- The databases have the same rows for every other block. -/
structure SameElsewhere (n : Int) (db db' : Database) : Prop where
  blocks : db.blocks.filter (·.number ≠ n) = db'.blocks.filter (·.number ≠ n)
  transactions : db.transactions.filter (·.block ≠ n) = db'.transactions.filter (·.block ≠ n)
  transfers : db.transfers.filter (·.block ≠ n) = db'.transfers.filter (·.block ≠ n)
  participates : db.participateAssetIssue.filter (·.block ≠ n) =
    db'.participateAssetIssue.filter (·.block ≠ n)

variable [Codec]

/-- The rows of the block are those the full node importer creates for it. -/
def ImportedAs (confirmBlocks : Bool) (block : Block) (db : Database) : Prop :=
  ∃ qs fresh, fullNodeBlockQueries confirmBlocks block = .ok qs ∧
    execQueries qs Database.empty = some fresh ∧ SameAt block.number db fresh

section Agree

variable {c : Bool} {block : Block} {e : Extracted} {db db' : Database}

/-- A block imported into an empty database leaves its rows and no others. -/
theorem fresh_rows (hsound : e.Sound block) {fresh : Database}
    (hfresh : execQueries (e.fullNodeQueries c) Database.empty = some fresh) :
    fresh.blocks.filter (·.number = block.number) = [e.block.confirm c] ∧
      fresh.transactions.filter (·.block = block.number) =
        e.transactions.map (TransactionModel.confirm c) ∧
      fresh.transfers.filter (·.block = block.number) =
        e.transfers.map (TransferModel.confirm (e.transferFlag c)) ∧
      fresh.participateAssetIssue.filter (·.block = block.number) = e.participates := by
  rcases execQueries_import (e.isImport_fullNodeQueries c) hfresh with
    ⟨hblocks, htransactions, htransfers, hparticipates⟩
  rcases e.fullNodeQueries_rows c with ⟨hb, ht, htr, hp⟩
  rw [hblocks, htransactions, htransfers, hparticipates, hb, ht, htr, hp]
  -- The tables were empty, and each row that was added carries the number.
  refine ⟨?_, ?_, ?_, ?_⟩
  · refine List.filter_eq_self.mpr fun row hrow => decide_eq_true ?_
    rw [List.mem_singleton.mp hrow]
    exact congrArg BlockModel.number hsound.block_eq
  · exact List.filter_eq_self.mpr fun row hrow =>
      decide_eq_true (hsound.confirm_transactions_block c row hrow)
  · exact List.filter_eq_self.mpr fun row hrow =>
      decide_eq_true (hsound.confirm_transfers_block _ row hrow)
  · exact List.filter_eq_self.mpr fun row hrow =>
      decide_eq_true (hsound.participates_block row hrow)

/-- The rows an import creates, table by table. -/
theorem importedAs_iff (he : extract block = .ok e)
    (hnodup : (block.transactions.map Transaction.hash).Nodup) :
    ImportedAs c block db ↔
      db.blocks.filter (·.number = block.number) = [e.block.confirm c] ∧
      (db.transactions.filter (·.block = block.number)).Perm
        (e.transactions.map (TransactionModel.confirm c)) ∧
      (db.transfers.filter (·.block = block.number)).Perm
        (e.transfers.map (TransferModel.confirm (e.transferFlag c))) ∧
      (db.participateAssetIssue.filter (·.block = block.number)).Perm e.participates := by
  have hsound := extract_sound he
  rcases exec_fullNodeQueries hsound hnodup c with ⟨fresh, hfresh⟩
  have hqueries : fullNodeBlockQueries c block = .ok (e.fullNodeQueries c) := by
    rw [fullNodeBlockQueries_eq, he]
    rfl
  rcases fresh_rows hsound hfresh with ⟨hblocks, htransactions, htransfers, hparticipates⟩
  constructor
  · -- There is one fresh import to compare with.
    rintro ⟨qs, fresh', hqs, hfresh', hsame⟩
    rw [hqueries, Except.ok.injEq] at hqs
    subst hqs
    rw [hfresh, Option.some.injEq] at hfresh'
    subst hfresh'
    exact ⟨List.perm_singleton.mp (hblocks ▸ hsame.blocks),
      htransactions ▸ hsame.transactions, htransfers ▸ hsame.transfers,
      hparticipates ▸ hsame.participates⟩
  · rintro ⟨h1, h2, h3, h4⟩
    refine ⟨_, fresh, hqueries, hfresh, ?_, ?_, ?_, ?_⟩
    · rw [hblocks, h1]
    · rw [htransactions]
      exact h2
    · rw [htransfers]
      exact h3
    · rw [hparticipates]
      exact h4

/-- Confirming the rows of a block leaves those of a confirmed import. -/
theorem confirm_agrees (he : extract block = .ok e)
    (hnodup : (block.transactions.map Transaction.hash).Nodup) (hB : ImportedAs false block db)
    (h : execQueries (e.confirmQueries block.number) db = some db') :
    ImportedAs true block db' ∧ SameElsewhere block.number db db' := by
  rcases (importedAs_iff he hnodup).mp hB with ⟨hb, ht, htr, hp⟩
  rcases confirmQueries_tables h with ⟨hblocks, htransactions, htransfers, hparticipates⟩
  have hflag : e.transferFlag true = true := Bool.true_or _
  -- The transactions are all there by the time they are upserted.
  have hnow : ((confirmTransactionsAt block.number db.transactions).filter
      (·.block = block.number)).Perm (e.transactions.map (TransactionModel.confirm true)) := by
    rw [confirmTransactionsAt, Lib.filter_update_at TransactionModel.block (TransactionModel.confirm_block true)]
    have hmap := ht.map (TransactionModel.confirm true)
    rwa [List.map_map] at hmap
  -- Overwriting them with themselves changes nothing.
  have hkeys : ((confirmTransactionsAt block.number db.transactions).map (·.hash)).Nodup := by
    rw [confirmTransactionsAt, Lib.map_keys_update _ (fun r => by split <;> rfl)]
    exact db.wellFormed.transactions_hash_pk
  rw [Lib.foldl_upsert_of_mem hkeys fun row hrow =>
    (List.mem_filter.mp (hnow.mem_iff.mpr hrow)).1] at htransactions
  constructor
  · rw [importedAs_iff he hnodup, hblocks, htransactions, htransfers, hparticipates, hflag]
    refine ⟨?_, hnow, ?_, hp⟩
    · rw [confirmBlocksAt, Lib.filter_update_at BlockModel.number (BlockModel.confirm_number true), hb]
      rfl
    · rw [confirmTransfersAt, Lib.filter_update_at TransferModel.block (TransferModel.confirm_block true)]
      have hmap := htr.map (TransferModel.confirm true)
      rwa [List.map_map] at hmap
  · -- Rows of other blocks are not touched by an update of this one.
    constructor
    · rw [hblocks, confirmBlocksAt]
      exact (Lib.filter_update_off BlockModel.number (BlockModel.confirm_number true)).symm
    · rw [htransactions, confirmTransactionsAt]
      exact (Lib.filter_update_off TransactionModel.block (TransactionModel.confirm_block true)).symm
    · rw [htransfers, confirmTransfersAt]
      exact (Lib.filter_update_off TransferModel.block (TransferModel.confirm_block true)).symm
    · rw [hparticipates]

/-- Replacing the rows of a block leaves those of a confirmed import. -/
theorem replace_agrees (he : extract block = .ok e)
    (hnodup : (block.transactions.map Transaction.hash).Nodup)
    (hown : ∀ row ∈ db.transactions, row.hash ∈ block.transactions.map Transaction.hash →
      row.block = block.number)
    (h : execQueries e.replaceQueries db = some db') :
    ImportedAs true block db' ∧ SameElsewhere block.number db db' := by
  have hsound := extract_sound he
  have hnumber : e.block.number = block.number := congrArg BlockModel.number hsound.block_eq
  rcases replaceQueries_tables h with ⟨hblocks, htransactions, htransfers, hparticipates⟩
  rw [hnumber] at hblocks htransactions htransfers hparticipates
  have hflag : e.transferFlag true = true := Bool.true_or _
  have hhashes : (e.transactions.map (TransactionModel.confirm true)).map (·.hash) =
      block.transactions.map Transaction.hash := by
    rw [← hsound.transactions_hash, List.map_map]
    rfl
  -- No transaction of another block is in the way of an upsert.
  rw [Lib.foldl_upsert_fresh (hhashes ▸ hnodup) fun row hrow r hr hhash => by
    rcases List.mem_filter.mp hr with ⟨hr, hne⟩
    refine of_decide_eq_true hne (hown r hr ?_)
    rw [hhash, ← hhashes]
    exact List.mem_map_of_mem hrow] at htransactions
  have hb : ∀ row ∈ [e.block.confirm true], row.number = block.number := by
    intro row hrow
    rw [List.mem_singleton.mp hrow]
    exact hnumber
  have ht := hsound.confirm_transactions_block true
  have htr := hsound.confirm_transfers_block true
  have hp := hsound.participates_block
  constructor
  · rw [importedAs_iff he hnodup, hblocks, htransactions, htransfers, hparticipates, hflag]
    rw [Lib.filter_replace_at BlockModel.number hb,
      Lib.filter_replace_at TransactionModel.block ht,
      Lib.filter_replace_at TransferModel.block htr,
      Lib.filter_replace_at ParticipateAssetIssueModel.block hp]
    exact ⟨rfl, List.Perm.refl _, List.Perm.refl _, List.Perm.refl _⟩
  · constructor
    · rw [hblocks, Lib.filter_replace_off BlockModel.number hb]
    · rw [htransactions, Lib.filter_replace_off TransactionModel.block ht]
    · rw [htransfers, Lib.filter_replace_off TransferModel.block htr]
    · rw [hparticipates, Lib.filter_replace_off ParticipateAssetIssueModel.block hp]

/-- The row found for an imported block is its row. -/
theorem findByNumber_importedAs (hB : ImportedAs c block db) :
    ∃ row, findByNumber block.number db = some row ∧ row.number = block.number ∧
      row.hash = block.hash ∧ row.confirmed = c := by
  rcases hB with ⟨qs, fresh, hqs, hfresh, hsame⟩
  rw [fullNodeBlockQueries_eq] at hqs
  rcases hext : extract block with err | e
  · rw [hext] at hqs
    cases hqs
  · rw [hext] at hqs
    cases hqs
    have hsound := extract_sound hext
    have hblocks : db.blocks.filter (·.number = block.number) = [e.block.confirm c] :=
      List.perm_singleton.mp ((fresh_rows hsound hfresh).1 ▸ hsame.blocks)
    refine ⟨e.block.confirm c, ?_, congrArg BlockModel.number hsound.block_eq,
      congrArg BlockModel.hash hsound.block_eq, rfl⟩
    rw [findByNumber, ← List.head?_filter, hblocks]
    rfl

end Agree

/-- Where the rows of a block come from a complete unconfirmed import, what the
    solidity importer sends for the block `S` of its number executes, leaves the
    rows a confirmed import of `S` creates, and touches no other block. -/
theorem solidity_agrees {B S : Block} {db : Database} (hB : ImportedAs false B db)
    (hnumber : S.number = B.number) (hheader : S.blockHeader.isSome = true) (hS : S.Readable)
    (hnodup : (S.transactions.map Transaction.hash).Nodup)
    (hown : ∀ row ∈ db.transactions, row.hash ∈ S.transactions.map Transaction.hash →
      row.block = S.number)
    (hhash : S.hash = B.hash → S = B) :
    ∃ db', execQueries (solidityBlockQueries S (findByNumber S.number db)) db = some db' ∧
      ImportedAs true S db' ∧ SameElsewhere S.number db db' := by
  rcases extract_ok_iff.mpr hS with ⟨e, he⟩
  have hsound := extract_sound he
  -- The row that is found is the one the import of `B` left.
  rcases findByNumber_importedAs hB with ⟨row, hfound, hrow, hrowhash, hconfirmed⟩
  have hqueries : solidityBlockQueries S (findByNumber S.number db) =
      if S.hash = B.hash then e.confirmQueries S.number else e.replaceQueries := by
    rw [hnumber, hfound, solidityBlockQueries, hheader, hconfirmed,
      buildSolidityBlockQueries_eq, he, hrowhash, hrow]
    rfl
  rw [hqueries]
  by_cases hsame : S.hash = B.hash
  · -- Equal hashes: the block is confirmed in place.
    rw [if_pos hsame]
    have hSB := hhash hsame
    subst hSB
    have hstored : HasBlock S.number db :=
      ⟨row, (findByNumber_spec hfound).1, hrow⟩
    rcases exec_confirmQueries hsound hstored with ⟨db', hdb'⟩
    exact ⟨db', hdb', confirm_agrees he hnodup hB hdb'⟩
  · -- Different hashes: it is replaced.
    rw [if_neg hsame]
    rcases exec_replaceQueries hsound db with ⟨db', hdb'⟩
    exact ⟨db', hdb', replace_agrees he hnodup hown hdb'⟩

omit [Codec]

/-- Two blocks of one number with the same transaction, on different branches. -/
def orphanedBlock : Block := childBlock (emptyBlock 0) 0 [exampleTransaction]

/-- The block the solidity node has, with a transaction. -/
def solidityBlock : Block := childBlock (emptyBlock 0) 1 [exampleTransaction]

/-- The orphaned block is replaced. -/
theorem solidity_agrees_replaced : ∃ db db', @ImportedAs exampleCodec false orphanedBlock db ∧
    execQueries (@solidityBlockQueries exampleCodec solidityBlock
      (findByNumber solidityBlock.number db)) db = some db' ∧
    @ImportedAs exampleCodec true solidityBlock db' ∧
    SameElsewhere solidityBlock.number db db' := by
  let _ := exampleCodec
  have hrows : ((fullNodeBlockQueries false orphanedBlock).toOption.bind fun qs =>
      execQueries qs Database.empty).map (fun db => decide (∀ row ∈ db.transactions,
        row.block = 1)) = some true := by decide +kernel
  rcases Option.map_eq_some_iff.mp hrows with ⟨db, hdb, hown⟩
  have himported : ImportedAs false orphanedBlock db := by
    rcases Option.bind_eq_some_iff.mp hdb with ⟨qs, hqs, hexec⟩
    cases hqueries : fullNodeBlockQueries false orphanedBlock with
    | error e =>
        rw [hqueries] at hqs
        cases hqs
    | ok qs' =>
        rw [hqueries] at hqs
        cases hqs
        exact ⟨qs, db, hqueries, hexec, List.Perm.refl _, List.Perm.refl _, List.Perm.refl _,
          List.Perm.refl _⟩
  rcases @solidity_agrees exampleCodec orphanedBlock solidityBlock db himported rfl rfl
    (by decide +kernel) (by decide +kernel)
    (fun row hrow _ => of_decide_eq_true hown row hrow)
    (fun hhash => absurd hhash (by decide +kernel)) with ⟨db', hdb'⟩
  exact ⟨db, db', himported, hdb'⟩

end Tronscan
