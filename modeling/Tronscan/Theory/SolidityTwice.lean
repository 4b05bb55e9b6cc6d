import Tronscan.Theory.VoteHistory
import Tronscan.Lib.Replay
import Tronscan.Lib.Surrogate

/-!
# Settling a Block Twice

Two solidity runs can look up the row of a block before either of them commits.
Both then have the queries that settle the block, and both execute them.

The second time changes nothing. A confirmation sets flags that are set, and
overwrites transactions by themselves. A replacement deletes the rows of the
block, by its number, before it inserts them; the tables it deletes nothing from
are the witnesses, which are upserted, and the votes, of which each voter has
those that were written last. Tokens that other blocks issued are updated by
their owner, and the last update is the same.

Neither does it violate a constraint, since the number of the block is free once
the block is deleted, and the rest needs nothing but the block. Four of the
tables have rows with generated keys, which the two runs may even share: each row
that is inserted is one that an earlier query of the same list deletes.

## Main definitions

* `SameRows`: Tables with the same rows, in whatever order.
* `KeysFree`: Generated keys are free both times.

## Theorems

* `confirmQueries_twice`, `replaceQueries_twice`: The two paths.
* `keysFree_confirmQueries`, `keysFree_replaceQueries`: Their generated keys.
* `solidityBlockQueries_twice`: Settling a block twice.
-/

namespace Tronscan

open DatabaseImporter BlockImporter

/-- Every table has the same rows. -/
structure SameRows (t t' : Tables) : Prop where
  blocks : t.blocks.Perm t'.blocks
  transactions : t.transactions.Perm t'.transactions
  transfers : t.transfers.Perm t'.transfers
  voteWitnessContract : t.voteWitnessContract.Perm t'.voteWitnessContract
  witnessCreateContract : t.witnessCreateContract.Perm t'.witnessCreateContract
  assetIssueContract : t.assetIssueContract.Perm t'.assetIssueContract
  participateAssetIssue : t.participateAssetIssue.Perm t'.participateAssetIssue

namespace Query

/-- The row a query upserts into the table of witnesses. -/
def witnessRow : Query → Option WitnessModel
  | upsertWitness row => some row
  | _ => none

/-- The block of the row that a query inserts into a table with generated keys, if
    the rows of the table have one that is looked at. -/
def insertedAt : Query → Option Int
  | insertTransfer row => some row.block
  | insertAssetIssue row => some row.block
  | insertParticipate row => some row.block
  | _ => none

/-- The columns a query sets in the table of tokens. -/
def assetColumns : Query → Option UpdateAssetModel
  | updateAsset columns => some columns
  | _ => none

end Query

/-- Setting the description and the url of a token. -/
def setColumns (columns : UpdateAssetModel) (r : AssetIssueContractModel) :
    AssetIssueContractModel :=
  { r with description := columns.description, url := columns.url }

/-- What the queries do to a token that is in the table before them. -/
def rewriteAsset (qs : List Query) (r : AssetIssueContractModel) : AssetIssueContractModel :=
  (qs.filterMap Query.assetColumns).foldl (fun r columns =>
    if r.ownerAddress = columns.ownerAddress then setColumns columns r else r) r

section Tables

variable {qs : List Query}

theorem foldl_onWitnesses (qs : List Query) (rows : List WitnessModel) :
    qs.foldl (fun rows q => q.onWitnesses rows) rows =
      (qs.filterMap Query.witnessRow).foldl (fun t row => Lib.upsert (·.address) row t) rows := by
  induction qs generalizing rows with
  | nil => rfl
  | cons q qs ih =>
      rw [List.foldl_cons, ih]
      cases q with
      | upsertWitness row => rfl
      | _ => rfl

/-- What is in the table of tokens is rewritten, and what is added does not depend
    on it. -/
theorem foldl_onAssetIssues (himport : ∀ q ∈ qs, q.isImport = true)
    (rows added : List AssetIssueContractModel) :
    qs.foldl (fun rows q => q.onAssetIssues rows) (rows ++ added) =
      rows.map (rewriteAsset qs) ++ qs.foldl (fun rows q => q.onAssetIssues rows) added := by
  induction qs generalizing rows added with
  | nil => exact congrArg (· ++ added) (List.map_id' rows).symm
  | cons q qs ih =>
      have hrest := ih fun p hp => himport p (List.mem_cons_of_mem q hp)
      rw [List.foldl_cons, List.foldl_cons]
      cases q with
      | insertAssetIssue row =>
          change qs.foldl _ (rows ++ added ++ [row]) = _
          rw [List.append_assoc, hrest]
          rfl
      | updateAsset columns =>
          change qs.foldl _ ((rows ++ added).map _) = _
          rw [List.map_append, hrest, List.map_map]
          rfl
      | deleteAssetIssues number => cases himport _ List.mem_cons_self
      | _ => exact hrest rows added

theorem rewriteAsset_eq (qs : List Query) (r : AssetIssueContractModel) :
    rewriteAsset qs r = (Lib.latest (·.ownerAddress) r.ownerAddress
      (qs.filterMap Query.assetColumns)).elim r fun columns => setColumns columns r :=
  Lib.foldl_overwrite _ setColumns (fun _ _ => rfl) (fun _ _ _ => rfl) _ r

/-- Neither the owner nor the block is rewritten. -/
theorem rewriteAsset_same (qs : List Query) (r : AssetIssueContractModel) :
    (rewriteAsset qs r).ownerAddress = r.ownerAddress ∧ (rewriteAsset qs r).block = r.block := by
  rw [rewriteAsset_eq]
  cases Lib.latest (·.ownerAddress) r.ownerAddress (qs.filterMap Query.assetColumns) with
  | none => exact ⟨rfl, rfl⟩
  | some columns => exact ⟨rfl, rfl⟩

theorem rewriteAsset_twice (qs : List Query) (r : AssetIssueContractModel) :
    rewriteAsset qs (rewriteAsset qs r) = rewriteAsset qs r := by
  -- The owner being the same, so are the columns that were set last.
  rw [rewriteAsset_eq, (rewriteAsset_same qs r).1, rewriteAsset_eq]
  cases Lib.latest (·.ownerAddress) r.ownerAddress (qs.filterMap Query.assetColumns) with
  | none => rfl
  | some columns => rfl

/-- The tokens that are added are those of the queries, with their blocks. -/
theorem onAssetIssues_block {n : Int} (hqs : ∀ row, .insertAssetIssue row ∈ qs → row.block = n) :
    ∀ r ∈ qs.foldl (fun rows q => q.onAssetIssues rows) [], r.block = n := by
  induction qs using List.reverseRecOn with
  | nil => exact fun r hr => absurd hr List.not_mem_nil
  | append_singleton qs q ih =>
      intro r hr
      have hearlier := ih fun row hrow => hqs row (List.mem_append_left _ hrow)
      rw [List.foldl_concat] at hr
      cases q with
      | insertAssetIssue row =>
          rcases List.mem_append.mp hr with hr | hr
          · exact hearlier r hr
          · rw [List.mem_singleton.mp hr]
            exact hqs row (List.mem_append_right _ List.mem_cons_self)
      | updateAsset columns =>
          rcases List.mem_map.mp hr with ⟨s, hs, rfl⟩
          split <;> exact hearlier s hs
      | deleteAssetIssues number => exact hearlier r (List.mem_filter.mp hr).1
      | _ => exact hearlier r hr

end Tables

namespace Extracted

variable {e : Extracted} {n : Int}

theorem upsertQueries_witnesses (rows : List WitnessModel) :
    e.upsertQueries.foldl (fun rows q => q.onWitnesses rows) rows = rows := by
  refine foldl_same (fun q hq rows => ?_) rows
  rcases List.mem_map.mp hq with ⟨_, _, rfl⟩
  rfl

theorem upsertQueries_assetIssues (rows : List AssetIssueContractModel) :
    e.upsertQueries.foldl (fun rows q => q.onAssetIssues rows) rows = rows := by
  refine foldl_same (fun q hq rows => ?_) rows
  rcases List.mem_map.mp hq with ⟨_, _, rfl⟩
  rfl

theorem replaceQueries_witnesses (rows : List WitnessModel) :
    e.replaceQueries.foldl (fun rows q => q.onWitnesses rows) rows =
      ((e.contractQueries true).filterMap Query.witnessRow).foldl
        (fun t row => Lib.upsert (·.address) row t) rows := by
  rw [replaceQueries, List.foldl_append, List.foldl_append]
  refine Eq.trans (congrArg (fun rows => (e.contractQueries true).foldl _ rows)
    (upsertQueries_witnesses rows)) ?_
  exact foldl_onWitnesses _ rows

theorem replaceQueries_assetIssues (rows : List AssetIssueContractModel) :
    e.replaceQueries.foldl (fun rows q => q.onAssetIssues rows) rows =
      (rows.filter (·.block ≠ e.block.number)).map (rewriteAsset (e.contractQueries true)) ++
        (e.contractQueries true).foldl (fun rows q => q.onAssetIssues rows) [] := by
  rw [replaceQueries, List.foldl_append, List.foldl_append]
  refine Eq.trans (congrArg (fun rows => (e.contractQueries true).foldl _ rows)
    (upsertQueries_assetIssues (rows.filter (·.block ≠ e.block.number)))) ?_
  have h := foldl_onAssetIssues (e.isImport_contractQueries true)
    (rows.filter (·.block ≠ e.block.number)) []
  rwa [List.append_nil] at h

/-- A confirmation does nothing to the other tables. -/
theorem confirmQueries_others {db db' : Database}
    (h : execQueries (e.confirmQueries n) db = some db') :
    db'.voteWitnessContract = db.voteWitnessContract ∧
      db'.witnessCreateContract = db.witnessCreateContract ∧
      db'.assetIssueContract = db.assetIssueContract := by
  rw [execQueries_votes h, execQueries_witnesses h, execQueries_assetIssues h]
  simp only [Extracted.confirmQueries, List.foldl_append, upsertQueries_votes,
    upsertQueries_witnesses, upsertQueries_assetIssues]
  exact ⟨rfl, rfl, rfl⟩

/-- Once a confirmation has upserted its transactions, all those of the block are
    confirmed. -/
theorem confirmTransactionsAt_upsert (n : Int) (upserts rows : List TransactionModel) :
    confirmTransactionsAt n ((upserts.map (TransactionModel.confirm true)).foldl
        (fun t row => Lib.upsert (·.hash) row t) (confirmTransactionsAt n rows)) =
      (upserts.map (TransactionModel.confirm true)).foldl
        (fun t row => Lib.upsert (·.hash) row t) (confirmTransactionsAt n rows) := by
  refine (List.map_congr_left fun r hr => ?_).trans (List.map_id' _)
  by_cases hat : r.block = n
  · have hyes : r.confirmed = true := by
      rw [Lib.mem_foldl_upsert_into] at hr
      rcases hr with hlatest | ⟨-, hr⟩
      -- It is one of those upserted, or was in the table when they were.
      · rcases List.mem_map.mp (Lib.latest_mem hlatest).1 with ⟨s, -, rfl⟩
        rfl
      · rcases List.mem_map.mp hr with ⟨s, -, rfl⟩
        by_cases hs : s.block = n
        · rw [if_pos hs]
          rfl
        · rw [if_neg hs] at hat
          exact absurd hat hs
    rw [if_pos hat, ← hyes]
    rfl
  · rw [if_neg hat]

/-- The second confirmation changes nothing. -/
theorem confirmQueries_twice {db u v : Database}
    (hu : execQueries (e.confirmQueries n) db = some u)
    (hv : execQueries (e.confirmQueries n) u = some v) : SameRows v.toTables u.toTables := by
  rcases confirmQueries_tables hu with ⟨hublocks, hutransactions, hutransfers, -⟩
  rcases confirmQueries_tables hv with ⟨hblocks, htransactions, htransfers, hparticipates⟩
  rcases confirmQueries_others hv with ⟨hvotes, hwitnesses, hassets⟩
  refine ⟨?_, ?_, ?_, .of_eq hvotes, .of_eq hwitnesses, .of_eq hassets, .of_eq hparticipates⟩
  · rw [hblocks, hublocks]
    exact .of_eq (Lib.update_twice (fun r : BlockModel => r.number = n)
      (BlockModel.confirm true) (fun _ => Iff.rfl) (fun _ => rfl) _)
  -- Of the two steps on transactions, the first has nothing left to confirm, and
  -- the second upserts the same rows again.
  · have hconfirmed : confirmTransactionsAt n u.transactions = u.transactions := by
      rw [hutransactions]
      exact confirmTransactionsAt_upsert n _ _
    have hnodup : ((confirmTransactionsAt n db.transactions).map (·.hash)).Nodup := by
      unfold confirmTransactionsAt
      rw [Lib.map_keys_update _ (fun r => by split <;> rfl)]
      exact db.wellFormed.transactions_hash_pk
    have htwice := Lib.foldl_upsert_twice (fun _ => true)
      (e.transactions.map (TransactionModel.confirm true)) hnodup (fun _ _ => rfl)
    rw [List.filter_true, ← hutransactions] at htwice
    rw [htransactions, hconfirmed]
    exact htwice
  · rw [htransfers, hutransfers]
    exact .of_eq (Lib.update_twice (fun r : TransferModel => r.block = n)
      (TransferModel.confirm true) (fun _ => Iff.rfl) (fun _ => rfl) _)

variable [Codec] {block : Block}

/-- What the contracts insert there are rows of the block. -/
theorem insertedAt_contractQueries (he : e.Sound block) :
    ∀ q ∈ e.contractQueries true, ∀ n ∈ q.insertedAt, n = block.number := by
  intro q hq n hn
  rcases List.mem_flatMap.mp hq with ⟨model, hmodel, hq⟩
  have hblock := he.models_block model hmodel
  cases model with
  | transfer row => cases List.mem_singleton.mp hq; cases hn; exact hblock.1
  | assetIssue row => cases List.mem_singleton.mp hq; cases hn; exact hblock
  | participate row => cases List.mem_singleton.mp hq; cases hn; exact hblock
  | voteWitnessList votes =>
      rcases List.mem_cons.mp hq with rfl | hq
      · cases hn
      · rcases List.mem_map.mp hq with ⟨_, _, rfl⟩
        cases hn
  | _ => cases List.mem_singleton.mp hq; cases hn

/-- So does the second replacement. -/
theorem replaceQueries_twice {db u v : Database} (he : extract block = .ok e)
    (hu : execQueries e.replaceQueries db = some u)
    (hv : execQueries e.replaceQueries u = some v) : SameRows v.toTables u.toTables := by
  have hsound := extract_sound he
  have hnumber : e.block.number = block.number := congrArg BlockModel.number hsound.block_eq
  rcases replaceQueries_tables hu with ⟨hublocks, hutransactions, hutransfers, huparticipates⟩
  rcases replaceQueries_tables hv with ⟨hblocks, htransactions, htransfers, hparticipates⟩
  refine ⟨?_, ?_, ?_, ?_, ?_, ?_, ?_⟩
  · rw [hblocks, hublocks]
    exact .of_eq (Lib.replace_twice (by simp) _)
  -- Transactions are deleted and upserted.
  · rw [htransactions, hutransactions]
    refine Lib.foldl_upsert_twice _ _ ?_ fun r hr => (List.mem_filter.mp hr).2
    exact Lib.nodup_keys_filter _ db.wellFormed.transactions_hash_pk
  · rw [htransfers, hutransfers]
    refine .of_eq (Lib.replace_twice (fun r hr => ?_) _)
    rw [hsound.confirm_transfers_block true r hr, hnumber]
    simp
  -- Votes are deleted by their voter, and not by the block.
  · have hkeyed := wellKeyed_voteWrites [block]
    rw [List.flatMap_singleton, Block.voteWrites, he] at hkeyed
    rw [execQueries_votes hv, execQueries_votes hu, replaceQueries_votes, replaceQueries_votes]
    exact Lib.applyWrites_twice hkeyed _
  -- Witnesses are only upserted.
  · rw [execQueries_witnesses hv, execQueries_witnesses hu, replaceQueries_witnesses,
      replaceQueries_witnesses]
    have htwice := Lib.foldl_upsert_twice (fun _ => true)
      ((e.contractQueries true).filterMap Query.witnessRow)
      db.wellFormed.witness_create_contract_pkey (fun _ _ => rfl)
    rwa [List.filter_true] at htwice
  -- Tokens of the block are replaced, and those of other blocks updated.
  · rw [execQueries_assetIssues hv, execQueries_assetIssues hu, replaceQueries_assetIssues,
      replaceQueries_assetIssues]
    refine .of_eq (Lib.refill_twice (rewriteAsset_twice _) (fun r => ?_) (fun r hr => ?_) _)
    · rw [(rewriteAsset_same _ r).2]
    · have hblock := onAssetIssues_block
        (fun row hrow => insertedAt_contractQueries hsound _ hrow row.block rfl) r hr
      rw [hblock, hnumber]
      simp
  · rw [hparticipates, huparticipates]
    refine .of_eq (Lib.replace_twice (fun r hr => ?_) _)
    rw [hsound.participates_block r hr, hnumber]
    simp

end Extracted

/-! ## The generated keys -/

namespace Query

/-- What a query does to the table of transfers, as an operation on rows. -/
def transferOp : Query → Lib.RowOp TransferModel
  | insertTransfer row => .insert row
  | confirmTransfers number =>
      .update fun r => if r.block = number then { r with confirmed := true } else r
  | deleteTransfers number | deleteBlock number => .delete fun r => r.block ≠ number
  | _ => .update id

/-- A query as an operation on the votes. -/
def voteOp : Query → Lib.RowOp VoteWitnessContractModel
  | insertVote row => .insert row
  | deleteVotes voterAddress => .delete fun r => r.voterAddress ≠ voterAddress
  | _ => .update id

/-- A query as an operation on the issued assets. -/
def assetIssueOp : Query → Lib.RowOp AssetIssueContractModel
  | insertAssetIssue row => .insert row
  | updateAsset columns => .update fun r =>
      if r.ownerAddress = columns.ownerAddress then
        { r with description := columns.description, url := columns.url }
      else r
  | deleteAssetIssues number => .delete fun r => r.block ≠ number
  | _ => .update id

/-- A query as an operation on the participations. -/
def participateOp : Query → Lib.RowOp ParticipateAssetIssueModel
  | insertParticipate row => .insert row
  | deleteParticipates number => .delete fun r => r.block ≠ number
  | _ => .update id

variable (q : Query)

theorem onTransfers_eq (rows : List TransferModel) :
    q.onTransfers rows = q.transferOp.apply rows := by
  cases q with
  | insertTransfer _ | confirmTransfers _ | deleteTransfers _ | deleteBlock _ => rfl
  | _ => exact (List.map_id rows).symm

theorem onVotes_eq (rows : List VoteWitnessContractModel) :
    q.onVotes rows = q.voteOp.apply rows := by
  cases q with
  | insertVote _ | deleteVotes _ => rfl
  | _ => exact (List.map_id rows).symm

theorem onAssetIssues_eq (rows : List AssetIssueContractModel) :
    q.onAssetIssues rows = q.assetIssueOp.apply rows := by
  cases q with
  | insertAssetIssue _ | updateAsset _ | deleteAssetIssues _ => rfl
  | _ => exact (List.map_id rows).symm

theorem onParticipates_eq (rows : List ParticipateAssetIssueModel) :
    q.onParticipates rows = q.participateOp.apply rows := by
  cases q with
  | insertParticipate _ | deleteParticipates _ => rfl
  | _ => exact (List.map_id rows).symm

end Query

/-- Where each query has a key for the row it may insert into a table, and the keys
    are new to the table, executing the queries twice never finds a key taken. The
    rows are the same as without the keys. -/
def KeyFree {α : Type} (on : Query → List α → List α) (op : Query → Lib.RowOp α)
    (qs : List Query) (rows : List α) : Prop :=
  ∀ (ι : Type) [DecidableEq ι] (keyed : List (ι × Lib.RowOp α)) (table : List (ι × α)),
    keyed.map (·.2) = qs.map op → (keyed.map (·.1)).Nodup →
    table.map (·.2) = rows → (∀ x ∈ keyed, x.1 ∉ table.map (·.1)) →
    ∃ first second, Lib.execAll Lib.RowOp.exec keyed table = some first ∧
      Lib.execAll Lib.RowOp.exec keyed first = some second ∧
      first.map (·.2) = qs.foldl (fun rows q => on q rows) rows ∧
      second.map (·.2) = qs.foldl (fun rows q => on q rows) (first.map (·.2))

/-- The tables whose rows have generated keys. -/
structure KeysFree (qs : List Query) (t : Tables) : Prop where
  transfers_pkey : KeyFree Query.onTransfers Query.transferOp qs t.transfers
  vote_witness_contract_id_pk : KeyFree Query.onVotes Query.voteOp qs t.voteWitnessContract
  asset_issue_contract_id_pk :
    KeyFree Query.onAssetIssues Query.assetIssueOp qs t.assetIssueContract
  participate_asset_issue_id_pk :
    KeyFree Query.onParticipates Query.participateOp qs t.participateAssetIssue

theorem keyFree_of_covered {α : Type} {on : Query → List α → List α} {op : Query → Lib.RowOp α}
    (hon : ∀ q rows, on q rows = (op q).apply rows) {qs : List Query} {rows : List α}
    (hcovered : Lib.Covered (qs.map op)) (hstable : Lib.Stable (qs.map op)) :
    KeyFree on op qs rows := by
  intro ι _ keyed table hops hids hrows hnew
  have hsame {t t' : List (ι × α)} (h : Lib.execAll Lib.RowOp.exec keyed t = some t') :
      t'.map (·.2) = qs.foldl (fun rows q => on q rows) (t.map (·.2)) := by
    rw [Lib.execAll_apply h, hops, List.foldl_map]
    simp only [hon]
  rw [← hops] at hcovered hstable
  -- No row of the table has the key of an insert.
  have htable : Lib.Remnants keyed table := fun id row hinsert r hr =>
    absurd (List.mem_map_of_mem hr) (hnew _ hinsert)
  -- After that, a row that has one is what has become of the row inserted.
  rcases Lib.exec_of_covered hids hcovered hstable htable with ⟨first, hfirst, hremnants⟩
  rcases Lib.exec_of_covered hids hcovered hstable hremnants with ⟨second, hsecond, -⟩
  exact ⟨first, second, hfirst, hsecond, hrows ▸ hsame hfirst, hsame hsecond⟩

section Stable

variable (qs : List Query)

/-- Deletes look at a column that updates leave alone. -/
theorem stable_map {α κ : Type} [DecidableEq κ] {op : Query → Lib.RowOp α} (column : α → κ)
    (hdelete : ∀ q keep, op q = .delete keep → ∃ k, keep = fun r => decide (column r ≠ k))
    (hupdate : ∀ q set, op q = .update set → ∀ r, column (set r) = column r) :
    Lib.Stable (qs.map op) := by
  intro keep set hkeep hset r
  rcases List.mem_map.mp hkeep with ⟨q, -, hq⟩
  rcases List.mem_map.mp hset with ⟨q', -, hq'⟩
  rcases hdelete q keep hq with ⟨k, rfl⟩
  exact congrArg (fun k' => decide (k' ≠ k)) (hupdate q' set hq' r)

theorem stable_transferOp : Lib.Stable (qs.map Query.transferOp) := by
  refine stable_map qs (·.block) (fun q keep h => ?_) (fun q set h r => ?_)
  · cases q with
    | deleteTransfers _ | deleteBlock _ => cases h; exact ⟨_, rfl⟩
    | _ => cases h
  · cases q with
    | insertTransfer _ | deleteTransfers _ | deleteBlock _ => cases h
    | confirmTransfers number => cases h; dsimp only; split <;> rfl
    | _ => cases h; rfl

theorem stable_voteOp : Lib.Stable (qs.map Query.voteOp) := by
  refine stable_map qs (·.voterAddress) (fun q keep h => ?_) (fun q set h r => ?_)
  · cases q with
    | deleteVotes _ => cases h; exact ⟨_, rfl⟩
    | _ => cases h
  · cases q with
    | insertVote _ | deleteVotes _ => cases h
    | _ => cases h; rfl

theorem stable_assetIssueOp : Lib.Stable (qs.map Query.assetIssueOp) := by
  refine stable_map qs (·.block) (fun q keep h => ?_) (fun q set h r => ?_)
  · cases q with
    | deleteAssetIssues _ => cases h; exact ⟨_, rfl⟩
    | _ => cases h
  · cases q with
    | insertAssetIssue _ | deleteAssetIssues _ => cases h
    | updateAsset columns => cases h; dsimp only; split <;> rfl
    | _ => cases h; rfl

theorem stable_participateOp : Lib.Stable (qs.map Query.participateOp) := by
  refine stable_map qs (·.block) (fun q keep h => ?_) (fun q set h r => ?_)
  · cases q with
    | deleteParticipates _ => cases h; exact ⟨_, rfl⟩
    | _ => cases h
  · cases q with
    | insertParticipate _ | deleteParticipates _ => cases h
    | _ => cases h; rfl

end Stable

/-- The queries of a replacement before those of the contracts. -/
def Extracted.headQueries (e : Extracted) : List Query :=
  buildReplaceBlock e.block ++
    [.deleteTransactions e.block.number, .deleteTransfers e.block.number,
      .deleteAssetIssues e.block.number, .deleteParticipates e.block.number] ++
    e.upsertQueries

section Covered

variable {e : Extracted} {n : Int} {α : Type} {op : Query → Lib.RowOp α}

/-- A confirmation inserts nothing. -/
theorem covered_confirmQueries (h : ∀ q ∈ e.confirmQueries n, ∀ row, op q ≠ .insert row) :
    Lib.Covered ((e.confirmQueries n).map op) := by
  refine Lib.covered_of_not_insert fun row hrow => ?_
  rcases List.mem_map.mp hrow with ⟨q, hq, hinsert⟩
  exact h q hq row hinsert

theorem mem_confirmQueries {q : Query} (h : q ∈ e.confirmQueries n) :
    q = .confirmBlock n ∨ q = .confirmTransactions n ∨ q = .confirmTransfers n ∨
      ∃ row, q = .upsertTransaction row := by
  rcases List.mem_append.mp h with h | h
  · simp only [buildConfirmBlock, List.mem_cons, List.not_mem_nil, or_false] at h
    rcases h with h | h | h
    · exact .inl h
    · exact .inr (.inl h)
    · exact .inr (.inr (.inl h))
  · rcases List.mem_map.mp h with ⟨row, -, rfl⟩
    exact .inr (.inr (.inr ⟨_, rfl⟩))

theorem keysFree_confirmQueries (t : Tables) : KeysFree (e.confirmQueries n) t := by
  refine ⟨keyFree_of_covered Query.onTransfers_eq (covered_confirmQueries fun q hq row => ?_)
      (stable_transferOp _),
    keyFree_of_covered Query.onVotes_eq (covered_confirmQueries fun q hq row => ?_)
      (stable_voteOp _),
    keyFree_of_covered Query.onAssetIssues_eq (covered_confirmQueries fun q hq row => ?_)
      (stable_assetIssueOp _),
    keyFree_of_covered Query.onParticipates_eq (covered_confirmQueries fun q hq row => ?_)
      (stable_participateOp _)⟩
  all_goals
    rcases mem_confirmQueries hq with rfl | rfl | rfl | ⟨_, rfl⟩ <;> intro h <;> cases h

variable [Codec] {block : Block}

omit [Codec] in
theorem mem_headQueries {q : Query} (h : q ∈ e.headQueries) :
    q = .deleteBlock e.block.number ∨ q = .insertBlock (e.block.confirm true) ∨
      q = .deleteTransactions e.block.number ∨ q = .deleteTransfers e.block.number ∨
      q = .deleteAssetIssues e.block.number ∨ q = .deleteParticipates e.block.number ∨
      ∃ row, q = .upsertTransaction row := by
  rcases List.mem_append.mp h with h | h
  · have hblock : ({ e.block with confirmed := true } : BlockModel) = e.block.confirm true := rfl
    simp only [buildReplaceBlock, hblock, List.cons_append, List.nil_append, List.mem_cons,
      List.not_mem_nil, or_false] at h
    rcases h with rfl | rfl | rfl | rfl | rfl | rfl <;> simp
  · rcases List.mem_map.mp h with ⟨row, -, rfl⟩
    simp

/-- A delete by the number of the block covers what the contracts insert. -/
theorem covered_replaceQueries (he : e.Sound block) {keep : α → Bool} {q : Query}
    (hq : q ∈ e.headQueries) (hop : op q = .delete keep)
    (hinsert : ∀ p row, op p = .insert row →
      ∃ n ∈ p.insertedAt, n = e.block.number → keep row = false) :
    Lib.Covered (e.replaceQueries.map op) := by
  have hhead : ∀ p ∈ e.headQueries, ∀ row, op p ≠ .insert row := by
    intro p hp row hrow
    rcases hinsert p row hrow with ⟨n, hn, -⟩
    rcases mem_headQueries hp with rfl | rfl | rfl | rfl | rfl | rfl | ⟨_, rfl⟩ <;> cases hn
  rcases List.append_of_mem hq with ⟨before, after, hsplit⟩
  have hqueries : e.replaceQueries = before ++ q :: (after ++ e.contractQueries true) := by
    change e.headQueries ++ e.contractQueries true = _
    rw [hsplit]
    simp
  rw [hqueries, List.map_append, List.map_cons, hop]
  -- Nothing is inserted before the delete, and what is inserted after it comes from
  -- the contracts.
  refine Lib.covered_append (Lib.covered_of_not_insert fun row hrow => ?_)
    (Lib.covered_of_delete fun row hrow => ?_)
  · rcases List.mem_map.mp hrow with ⟨p, hp, hrow⟩
    exact hhead p (hsplit ▸ List.mem_append_left _ hp) row hrow
  · rcases List.mem_map.mp hrow with ⟨p, hp, hrow⟩
    rcases List.mem_append.mp hp with hp | hp
    · exact absurd hrow (hhead p (hsplit ▸ by simp [hp]) row)
    · have hnumber : e.block.number = block.number := congrArg BlockModel.number he.block_eq
      rcases hinsert p row hrow with ⟨n, hn, hkeep⟩
      exact hkeep ((Extracted.insertedAt_contractQueries he p hp n hn).trans hnumber.symm)

/-- The votes of each voter are deleted before they are inserted. -/
theorem covered_voteOp (he : e.Sound block) : Lib.Covered (e.replaceQueries.map Query.voteOp) := by
  change Lib.Covered ((e.headQueries ++ e.contractQueries true).map _)
  rw [List.map_append]
  refine Lib.covered_append (Lib.covered_of_not_insert fun row hrow => ?_) ?_
  · rcases List.mem_map.mp hrow with ⟨p, hp, hrow⟩
    rcases mem_headQueries hp with rfl | rfl | rfl | rfl | rfl | rfl | ⟨_, rfl⟩ <;> cases hrow
  · unfold Extracted.contractQueries
    rw [List.map_flatMap]
    refine Lib.covered_flatMap fun model hmodel => ?_
    have hblock := he.models_block model hmodel
    cases model with
    | voteWitnessList votes =>
        -- All votes of a contract are by the voter whose votes it deletes.
        refine Lib.covered_of_delete fun row hrow => ?_
        rcases List.mem_map.mp hrow with ⟨p, hp, hrow⟩
        rcases List.mem_map.mp hp with ⟨vote, hvote, rfl⟩
        cases hrow
        simpa using (hblock row hvote).2
    | _ =>
        refine Lib.covered_of_not_insert fun row hrow => ?_
        cases List.mem_singleton.mp hrow

theorem keysFree_replaceQueries (he : e.Sound block) (t : Tables) :
    KeysFree e.replaceQueries t := by
  refine ⟨keyFree_of_covered Query.onTransfers_eq ?_ (stable_transferOp _),
    keyFree_of_covered Query.onVotes_eq (covered_voteOp he) (stable_voteOp _),
    keyFree_of_covered Query.onAssetIssues_eq ?_ (stable_assetIssueOp _),
    keyFree_of_covered Query.onParticipates_eq ?_ (stable_participateOp _)⟩
  · refine covered_replaceQueries (q := .deleteTransfers e.block.number) he
      (by simp [Extracted.headQueries]) rfl fun p row hrow => ?_
    cases p <;> cases hrow
    exact ⟨_, rfl, fun h => by simp [h]⟩
  · refine covered_replaceQueries (q := .deleteAssetIssues e.block.number) he
      (by simp [Extracted.headQueries]) rfl fun p row hrow => ?_
    cases p <;> cases hrow
    exact ⟨_, rfl, fun h => by simp [h]⟩
  · refine covered_replaceQueries (q := .deleteParticipates e.block.number) he
      (by simp [Extracted.headQueries]) rfl fun p row hrow => ?_
    cases p <;> cases hrow
    exact ⟨_, rfl, fun h => by simp [h]⟩

end Covered

theorem keysFree_nil (t : Tables) : KeysFree [] t := by
  have hcovered {α : Type} : Lib.Covered ([] : List (Lib.RowOp α)) :=
    Lib.covered_of_not_insert fun row => List.not_mem_nil
  exact ⟨keyFree_of_covered Query.onTransfers_eq hcovered (stable_transferOp []),
    keyFree_of_covered Query.onVotes_eq hcovered (stable_voteOp []),
    keyFree_of_covered Query.onAssetIssues_eq hcovered (stable_assetIssueOp []),
    keyFree_of_covered Query.onParticipates_eq hcovered (stable_participateOp [])⟩

theorem sameRows_refl (t : Tables) : SameRows t t :=
  ⟨.refl _, .refl _, .refl _, .refl _, .refl _, .refl _, .refl _⟩

variable [Codec]

/-- What the solidity run sends for a block confirms it, replaces it, or is nothing. -/
theorem solidityBlockQueries_cases (block : Block) (found : Option BlockModel) :
    (∃ row e, found = some row ∧ extract block = .ok e ∧ solidityBlockQueries block found =
      if block.hash = row.hash then e.confirmQueries row.number else e.replaceQueries) ∨
    solidityBlockQueries block found = [] := by
  cases found with
  | none => exact .inr rfl
  | some row =>
      unfold solidityBlockQueries
      simp only [buildSolidityBlockQueries_eq]
      split
      · cases he : extract block with
        | error thrown => exact .inr rfl
        | ok e => exact .inl ⟨row, e, rfl, rfl, rfl⟩
      · exact .inr rfl

/-- What settles a block executes twice, the second time changes nothing, and the
    keys that were generated for its rows are free both times. -/
theorem solidityBlockQueries_twice (block : Block) (db : Database) : ∃ first second,
    execQueries (solidityBlockQueries block (findByNumber block.number db)) db = some first ∧
    execQueries (solidityBlockQueries block (findByNumber block.number db)) first = some second ∧
    SameRows second.toTables first.toTables ∧
    KeysFree (solidityBlockQueries block (findByNumber block.number db)) db.toTables := by
  rcases solidityBlockQueries_cases block (findByNumber block.number db) with
    ⟨row, e, hfound, he, hqs⟩ | hqs
  · rw [hqs]
    have hsound := extract_sound he
    by_cases hhash : block.hash = row.hash
    · simp only [if_pos hhash]
      rcases findByNumber_spec hfound with ⟨hrow, hnumber⟩
      rw [hnumber]
      rcases exec_confirmQueries hsound ⟨row, hrow, hnumber⟩ with ⟨first, hfirst⟩
      -- The block is still there.
      have hstored : HasBlock block.number first := by
        refine ⟨row.confirm true, ?_, hnumber⟩
        rw [(confirmQueries_tables hfirst).1]
        exact List.mem_map.mpr ⟨row, hrow, if_pos hnumber⟩
      rcases exec_confirmQueries hsound hstored with ⟨second, hsecond⟩
      exact ⟨first, second, hfirst, hsecond, Extracted.confirmQueries_twice hfirst hsecond,
        keysFree_confirmQueries _⟩
    · simp only [if_neg hhash]
      rcases exec_replaceQueries hsound db with ⟨first, hfirst⟩
      rcases exec_replaceQueries hsound first with ⟨second, hsecond⟩
      exact ⟨first, second, hfirst, hsecond, Extracted.replaceQueries_twice he hfirst hsecond,
        keysFree_replaceQueries hsound _⟩
  · rw [hqs]
    exact ⟨db, db, rfl, rfl, sameRows_refl _, keysFree_nil _⟩

end Tronscan
