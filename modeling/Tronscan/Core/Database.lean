import Tronscan.Core.Extract
import Tronscan.Lib.Batch
import Tronscan.Lib.Table

/-!
# The Explorer's Database

The tables the two importers write, and the queries they write them with.

Each query is described table by table: what it does to the blocks, to the
transactions, to the transfers and so on, each time as a function of that table
alone. Whether it may run at all is the separate question `allowed` answers.
Primary keys and foreign keys are checked there, and nothing else depends on
more than one table. So a sequence of queries that succeeds acts on each table
by a fold, and a statement about one table never has to look at the others.

A `Database` carries the constraints of the schema as a field. Keys are
distinct, and every transaction and transfer refers to a block that is there.
Deleting a block deletes both along with it, by the schema's cascade, which is
why the constraint survives the delete.

## Main definitions

* `Tables`: The rows of every table.
* `Tables.WellFormed`: The schema's primary and foreign keys.
* `Database`: Tables that satisfy them.
* `Query`: The write queries of the repositories.
* `Query.allowed`: Whether the constraints let a query run.
* `Query.apply`: What it does to each table.
* `Query.exec`: One query on the database, `none` on a violated constraint.
* `execQueries`: One transaction.
* `findLatest`, `findByNumber`: What the importers read.

## Theorems

* `Query.apply_wellFormed`: An allowed query keeps the constraints.
* `Query.exec_eq_some`: When a query succeeds, and what it leaves.
* `execQueries_blocks` and its kin: A transaction folds over each table.
* `findLatest_spec`: The latest block bounds the others.
* `findByNumber_spec`, `findByNumber_of_mem`: The block found is the one with
  the number.
-/

namespace Tronscan

/-- The tables the importers write. -/
structure Tables where
  blocks : List BlockModel := []
  transactions : List TransactionModel := []
  transfers : List TransferModel := []
  voteWitnessContract : List VoteWitnessContractModel := []
  witnessCreateContract : List WitnessModel := []
  assetIssueContract : List AssetIssueContractModel := []
  participateAssetIssue : List ParticipateAssetIssueModel := []

/-- The constraints of `schema.sql` on the rows the importers write. -/
structure Tables.WellFormed (t : Tables) : Prop where
  blocks_pkey : (t.blocks.map (·.number)).Nodup
  transactions_hash_pk : (t.transactions.map (·.hash)).Nodup
  transactions_blocks_id_fk : ∀ r ∈ t.transactions, ∃ b ∈ t.blocks, b.number = r.block
  transfers_blocks_id_fk : ∀ r ∈ t.transfers, ∃ b ∈ t.blocks, b.number = r.block
  witness_create_contract_pkey : (t.witnessCreateContract.map (·.address)).Nodup

/-- Tables that satisfy the schema. -/
structure Database extends Tables where
  wellFormed : toTables.WellFormed

theorem Database.ext {db db' : Database} (h : db.toTables = db'.toTables) : db = db' := by
  cases db
  cases db'
  simp only at h
  subst h
  rfl

/-- The database of a fresh installation. -/
def Database.empty : Database where
  toTables := {}
  wellFormed := ⟨List.nodup_nil, List.nodup_nil, fun _ h => absurd h List.not_mem_nil,
    fun _ h => absurd h List.not_mem_nil, List.nodup_nil⟩

/-- The write queries of the table repositories. -/
inductive Query where
  | insertBlock (row : BlockModel)
  | deleteBlock (number : Int)
  | confirmBlock (number : Int)
  | insertTransaction (row : TransactionModel)
  | upsertTransaction (row : TransactionModel)
  | confirmTransactions (number : Int)
  | deleteTransactions (number : Int)
  | insertTransfer (row : TransferModel)
  | confirmTransfers (number : Int)
  | deleteTransfers (number : Int)
  | insertVote (row : VoteWitnessContractModel)
  | deleteVotes (voterAddress : String)
  | upsertWitness (row : WitnessModel)
  | insertAssetIssue (row : AssetIssueContractModel)
  | updateAsset (columns : UpdateAssetModel)
  | deleteAssetIssues (number : Int)
  | insertParticipate (row : ParticipateAssetIssueModel)
  | deleteParticipates (number : Int)

namespace Query

/-- What a query does to `blocks`. -/
def onBlocks : Query → List BlockModel → List BlockModel
  | insertBlock row, rows => rows ++ [row]
  | deleteBlock number, rows => rows.filter fun r => r.number ≠ number
  | confirmBlock number, rows =>
      rows.map fun r => if r.number = number then { r with confirmed := true } else r
  | _, rows => rows

/-- Deleting a block cascades to its transactions. -/
def onTransactions : Query → List TransactionModel → List TransactionModel
  | insertTransaction row, rows => rows ++ [row]
  | upsertTransaction row, rows => Lib.upsert (·.hash) row rows
  | confirmTransactions number, rows =>
      rows.map fun r => if r.block = number then { r with confirmed := true } else r
  | deleteTransactions number, rows => rows.filter fun r => r.block ≠ number
  | deleteBlock number, rows => rows.filter fun r => r.block ≠ number
  | _, rows => rows

/-- Deleting a block cascades to its transfers. -/
def onTransfers : Query → List TransferModel → List TransferModel
  | insertTransfer row, rows => rows ++ [row]
  | confirmTransfers number, rows =>
      rows.map fun r => if r.block = number then { r with confirmed := true } else r
  | deleteTransfers number, rows => rows.filter fun r => r.block ≠ number
  | deleteBlock number, rows => rows.filter fun r => r.block ≠ number
  | _, rows => rows

/-- What a query does to `vote_witness_contract`. -/
def onVotes : Query → List VoteWitnessContractModel → List VoteWitnessContractModel
  | insertVote row, rows => rows ++ [row]
  | deleteVotes voterAddress, rows => rows.filter fun r => r.voterAddress ≠ voterAddress
  | _, rows => rows

/-- What a query does to `witness_create_contract`. -/
def onWitnesses : Query → List WitnessModel → List WitnessModel
  | upsertWitness row, rows => Lib.upsert (·.address) row rows
  | _, rows => rows

/-- What a query does to `asset_issue_contract`. -/
def onAssetIssues : Query → List AssetIssueContractModel → List AssetIssueContractModel
  | insertAssetIssue row, rows => rows ++ [row]
  | updateAsset columns, rows => rows.map fun r =>
      if r.ownerAddress = columns.ownerAddress then
        { r with description := columns.description, url := columns.url }
      else r
  | deleteAssetIssues number, rows => rows.filter fun r => r.block ≠ number
  | _, rows => rows

/-- What a query does to `participate_asset_issue`. -/
def onParticipates : Query → List ParticipateAssetIssueModel → List ParticipateAssetIssueModel
  | insertParticipate row, rows => rows ++ [row]
  | deleteParticipates number, rows => rows.filter fun r => r.block ≠ number
  | _, rows => rows

/-- What a query does, table by table. -/
def apply (q : Query) (t : Tables) : Tables where
  blocks := q.onBlocks t.blocks
  transactions := q.onTransactions t.transactions
  transfers := q.onTransfers t.transfers
  voteWitnessContract := q.onVotes t.voteWitnessContract
  witnessCreateContract := q.onWitnesses t.witnessCreateContract
  assetIssueContract := q.onAssetIssues t.assetIssueContract
  participateAssetIssue := q.onParticipates t.participateAssetIssue

/-- The constraint checks. An insert needs a free key, and a row that refers to
    a block needs the block. -/
def allowed : Query → Tables → Bool
  | insertBlock row, t => !Lib.hasKey (·.number) row.number t.blocks
  | insertTransaction row, t =>
      !Lib.hasKey (·.hash) row.hash t.transactions && Lib.hasKey (·.number) row.block t.blocks
  | upsertTransaction row, t => Lib.hasKey (·.number) row.block t.blocks
  | insertTransfer row, t => Lib.hasKey (·.number) row.block t.blocks
  | _, _ => true

variable {q : Query} {t : Tables}

theorem onBlocks_keys (ht : t.WellFormed) (hq : q.allowed t = true) :
    ((q.onBlocks t.blocks).map (·.number)).Nodup := by
  cases q with
  | insertBlock row =>
      simp only [allowed, Bool.not_eq_true'] at hq
      exact Lib.nodup_keys_append ht.blocks_pkey (Lib.hasKey_eq_false.mp hq)
  | deleteBlock number => exact Lib.nodup_keys_filter _ ht.blocks_pkey
  | confirmBlock number =>
      rw [onBlocks, Lib.map_keys_update _ (fun r => by split <;> rfl)]
      exact ht.blocks_pkey
  | _ => exact ht.blocks_pkey

theorem onTransactions_keys (ht : t.WellFormed) (hq : q.allowed t = true) :
    ((q.onTransactions t.transactions).map (·.hash)).Nodup := by
  cases q with
  | insertTransaction row =>
      simp only [allowed, Bool.and_eq_true, Bool.not_eq_true'] at hq
      exact Lib.nodup_keys_append ht.transactions_hash_pk (Lib.hasKey_eq_false.mp hq.1)
  | upsertTransaction row => exact Lib.nodup_keys_upsert ht.transactions_hash_pk
  | confirmTransactions number =>
      rw [onTransactions, Lib.map_keys_update _ (fun r => by split <;> rfl)]
      exact ht.transactions_hash_pk
  | deleteTransactions number => exact Lib.nodup_keys_filter _ ht.transactions_hash_pk
  | deleteBlock number => exact Lib.nodup_keys_filter _ ht.transactions_hash_pk
  | _ => exact ht.transactions_hash_pk

/-- No query but a delete takes a block's number away. -/
theorem onBlocks_number {n : Int} (hq : ∀ number, q = deleteBlock number → number ≠ n)
    (h : ∃ b ∈ t.blocks, b.number = n) : ∃ b ∈ q.onBlocks t.blocks, b.number = n := by
  rcases h with ⟨b, hb, rfl⟩
  cases q with
  | insertBlock row => exact ⟨b, List.mem_append_left _ hb, rfl⟩
  | deleteBlock number =>
      exact ⟨b, List.mem_filter.mpr ⟨hb, decide_eq_true (hq number rfl).symm⟩, rfl⟩
  | confirmBlock number =>
      exact ⟨_, List.mem_map_of_mem hb, by split <;> rfl⟩
  | _ => exact ⟨b, hb, rfl⟩

/-- The transactions after a query are those before it, whatever their flag,
    the row it adds, and none of a block it deletes. -/
theorem mem_onTransactions {r : TransactionModel} (hr : r ∈ q.onTransactions t.transactions) :
    (q = insertTransaction r ∨ q = upsertTransaction r) ∨
      ((∃ s ∈ t.transactions, s.hash = r.hash ∧ s.block = r.block) ∧
        ∀ number, q = deleteBlock number → number ≠ r.block) := by
  cases q with
  | insertTransaction row =>
      rcases List.mem_append.mp hr with h | h
      · exact Or.inr ⟨⟨r, h, rfl, rfl⟩, fun _ h => by cases h⟩
      · exact Or.inl (Or.inl (by rw [List.mem_singleton.mp h]))
  | upsertTransaction row =>
      rcases Lib.mem_upsert.mp hr with h | h
      · exact Or.inl (Or.inr (by rw [h]))
      · exact Or.inr ⟨⟨r, h.1, rfl, rfl⟩, fun _ h => by cases h⟩
  | confirmTransactions number =>
      -- Only the flag changes.
      rcases List.mem_map.mp hr with ⟨s, hs, rfl⟩
      refine Or.inr ⟨⟨s, hs, ?_, ?_⟩, fun _ h => by cases h⟩
      · split <;> rfl
      · split <;> rfl
  | deleteTransactions number =>
      exact Or.inr ⟨⟨r, (List.mem_filter.mp hr).1, rfl, rfl⟩, fun _ h => by cases h⟩
  | deleteBlock number =>
      rcases List.mem_filter.mp hr with ⟨h, hne⟩
      refine Or.inr ⟨⟨r, h, rfl, rfl⟩, fun n hn => ?_⟩
      cases hn
      exact (of_decide_eq_true hne).symm
  | _ => exact Or.inr ⟨⟨r, hr, rfl, rfl⟩, fun _ h => by cases h⟩

/-- The same for the transfers. -/
theorem mem_onTransfers {r : TransferModel} (hr : r ∈ q.onTransfers t.transfers) :
    q = insertTransfer r ∨
      ((∃ s ∈ t.transfers, s.block = r.block) ∧
        ∀ number, q = deleteBlock number → number ≠ r.block) := by
  cases q with
  | insertTransfer row =>
      rcases List.mem_append.mp hr with h | h
      · exact Or.inr ⟨⟨r, h, rfl⟩, fun _ h => by cases h⟩
      · exact Or.inl (by rw [List.mem_singleton.mp h])
  | confirmTransfers number =>
      rcases List.mem_map.mp hr with ⟨s, hs, rfl⟩
      refine Or.inr ⟨⟨s, hs, ?_⟩, fun _ h => by cases h⟩
      split <;> rfl
  | deleteTransfers number =>
      exact Or.inr ⟨⟨r, (List.mem_filter.mp hr).1, rfl⟩, fun _ h => by cases h⟩
  | deleteBlock number =>
      rcases List.mem_filter.mp hr with ⟨h, hne⟩
      refine Or.inr ⟨⟨r, h, rfl⟩, fun n hn => ?_⟩
      cases hn
      exact (of_decide_eq_true hne).symm
  | _ => exact Or.inr ⟨⟨r, hr, rfl⟩, fun _ h => by cases h⟩

/-- An allowed query keeps the schema's constraints. -/
theorem apply_wellFormed (ht : t.WellFormed) (hq : q.allowed t = true) :
    (q.apply t).WellFormed where
  blocks_pkey := onBlocks_keys ht hq
  transactions_hash_pk := onTransactions_keys ht hq
  transactions_blocks_id_fk := by
    intro r hr
    rcases mem_onTransactions hr with (rfl | rfl) | ⟨⟨s, hs, _, hblock⟩, hdelete⟩
    · -- A row that is added refers to a block, or it would not be allowed.
      simp only [allowed, Bool.and_eq_true] at hq
      exact onBlocks_number (q := insertTransaction r) nofun (Lib.hasKey_iff.mp hq.2)
    · exact onBlocks_number (q := upsertTransaction r) nofun (Lib.hasKey_iff.mp hq)
    · -- One that is still there refers to a block that was not deleted.
      exact onBlocks_number hdelete (hblock ▸ ht.transactions_blocks_id_fk s hs)
  transfers_blocks_id_fk := by
    intro r hr
    rcases mem_onTransfers hr with rfl | ⟨⟨s, hs, hblock⟩, hdelete⟩
    · exact onBlocks_number (q := insertTransfer r) nofun (Lib.hasKey_iff.mp hq)
    · exact onBlocks_number hdelete (hblock ▸ ht.transfers_blocks_id_fk s hs)
  witness_create_contract_pkey := by
    cases q with
    | upsertWitness row => exact Lib.nodup_keys_upsert ht.witness_create_contract_pkey
    | _ => exact ht.witness_create_contract_pkey

/-- One query on the database, `none` when it violates a constraint. -/
def exec (q : Query) (db : Database) : Option Database :=
  if hq : q.allowed db.toTables = true then
    some ⟨q.apply db.toTables, apply_wellFormed db.wellFormed hq⟩
  else none

theorem exec_eq_some {db db' : Database} :
    q.exec db = some db' ↔
      q.allowed db.toTables = true ∧ db'.toTables = q.apply db.toTables := by
  rw [exec]
  by_cases hq : q.allowed db.toTables = true
  · rw [dif_pos hq, Option.some.injEq]
    exact ⟨fun h => ⟨hq, by rw [← h]⟩, fun h => Database.ext h.2.symm⟩
  · rw [dif_neg hq]
    exact iff_of_false (by simp only [reduceCtorEq, not_false_eq_true]) (fun h => hq h.1)

end Query

/-- Execute the queries of one transaction. -/
def execQueries : List Query → Database → Option Database :=
  Lib.execAll Query.exec

section Views

variable {qs : List Query} {db db' : Database}

theorem execQueries_blocks (h : execQueries qs db = some db') :
    db'.blocks = qs.foldl (fun rows q => q.onBlocks rows) db.blocks := by
  refine Lib.execAll_view (fun d => d.blocks) Query.onBlocks (fun q s t hq => ?_) qs db db' h
  rw [(Query.exec_eq_some.mp hq).2, Query.apply]

theorem execQueries_transactions (h : execQueries qs db = some db') :
    db'.transactions = qs.foldl (fun rows q => q.onTransactions rows) db.transactions := by
  refine Lib.execAll_view (fun d => d.transactions) Query.onTransactions (fun q s t hq => ?_)
    qs db db' h
  rw [(Query.exec_eq_some.mp hq).2, Query.apply]

theorem execQueries_transfers (h : execQueries qs db = some db') :
    db'.transfers = qs.foldl (fun rows q => q.onTransfers rows) db.transfers := by
  refine Lib.execAll_view (fun d => d.transfers) Query.onTransfers (fun q s t hq => ?_) qs db db' h
  rw [(Query.exec_eq_some.mp hq).2, Query.apply]

theorem execQueries_votes (h : execQueries qs db = some db') :
    db'.voteWitnessContract = qs.foldl (fun rows q => q.onVotes rows) db.voteWitnessContract := by
  refine Lib.execAll_view (fun d => d.voteWitnessContract) Query.onVotes (fun q s t hq => ?_)
    qs db db' h
  rw [(Query.exec_eq_some.mp hq).2, Query.apply]

theorem execQueries_witnesses (h : execQueries qs db = some db') :
    db'.witnessCreateContract =
      qs.foldl (fun rows q => q.onWitnesses rows) db.witnessCreateContract := by
  refine Lib.execAll_view (fun d => d.witnessCreateContract) Query.onWitnesses
    (fun q s t hq => ?_) qs db db' h
  rw [(Query.exec_eq_some.mp hq).2, Query.apply]

theorem execQueries_assetIssues (h : execQueries qs db = some db') :
    db'.assetIssueContract =
      qs.foldl (fun rows q => q.onAssetIssues rows) db.assetIssueContract := by
  refine Lib.execAll_view (fun d => d.assetIssueContract) Query.onAssetIssues
    (fun q s t hq => ?_) qs db db' h
  rw [(Query.exec_eq_some.mp hq).2, Query.apply]

theorem execQueries_participates (h : execQueries qs db = some db') :
    db'.participateAssetIssue =
      qs.foldl (fun rows q => q.onParticipates rows) db.participateAssetIssue := by
  refine Lib.execAll_view (fun d => d.participateAssetIssue) Query.onParticipates
    (fun q s t hq => ?_) qs db db' h
  rw [(Query.exec_eq_some.mp hq).2, Query.apply]

end Views

/-- The database has a block with the number. -/
def HasBlock (n : Int) (db : Database) : Prop := ∃ row ∈ db.blocks, row.number = n

/-- `findLatest`: the block with the highest number. -/
def findLatest (db : Database) : Option BlockModel :=
  Lib.highest (·.number) db.blocks

/-- `findLatestUnconfirmed`: the unconfirmed block with the lowest number. -/
def findLatestUnconfirmed (db : Database) : Option BlockModel :=
  Lib.lowest (·.number) (db.blocks.filter fun r => !r.confirmed)

/-- `BlockModelRepository.findByNumber`. -/
def findByNumber (number : Int) (db : Database) : Option BlockModel :=
  db.blocks.find? fun r => r.number = number

theorem findLatest_spec {db : Database} {row : BlockModel} (h : findLatest db = some row) :
    row ∈ db.blocks ∧ ∀ r ∈ db.blocks, r.number ≤ row.number :=
  Lib.highest_spec h

theorem findByNumber_spec {db : Database} {number : Int} {row : BlockModel}
    (h : findByNumber number db = some row) : row ∈ db.blocks ∧ row.number = number := by
  have hnumber := List.find?_some h
  exact ⟨List.mem_of_find?_eq_some h, of_decide_eq_true hnumber⟩

theorem findByNumber_of_mem {db : Database} {row : BlockModel} (h : row ∈ db.blocks) :
    findByNumber row.number db = some row := by
  cases hfound : findByNumber row.number db with
  | none => exact absurd (decide_eq_true rfl) (List.find?_eq_none.mp hfound row h)
  | some r =>
      rcases findByNumber_spec hfound with ⟨hr, hnumber⟩
      rw [List.inj_on_of_nodup_map db.wellFormed.blocks_pkey hr h hnumber]

end Tronscan
