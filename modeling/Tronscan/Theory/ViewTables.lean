import Mathlib.Data.List.Range
import Tronscan.Importer.Mirror
import Tronscan.Theory.BatchedRead
import Tronscan.Theory.FreshImport

/-!
# The Tables of a View

Importing the first blocks of a chain into an empty database never fails: the numbers
and hashes are free when their turn comes, and what refers to a block comes after it. So
there is a database for every height, and a view of that height holds its rows with some
of the flags set.

A run does not import from the start. It imports into a database that has flags already,
and confirms or not. Flags are no matter of a constraint, so an import of flagged rows
into flagged tables does what the import of the rows does, flagged.

## Main definitions

* `Query.flagged`: The query of a flagged row.
* `Blockchain.Imported`: What one import of the chain leaves.
* `View.row`: The row a view has of a block.

## Theorems

* `exec_flagged`: An import of flagged rows.
* `fullNodeQueries_flagged`: The queries of a run that confirms.
* `exists_imported`: One import of any part of the chain goes through.
* `Mirrors.blocks_eq`, `Mirrors.storedNumbers_eq`: The blocks of a view.
* `Mirrors.dbLatestBlock_eq`, `Mirrors.dbUnconfirmedBlock_eq`: A run that starts from a
  database starts from the view.
-/

namespace Tronscan

open BlockImporter BlockChainStreamBuilder ImportStreamFactory

/-! ## Flags -/

/-- The same query with its row flagged. -/
def Query.flagged (confirmed : Int → Bool) : Query → Query
  | .insertBlock row => .insertBlock (row.confirm (confirmed row.number))
  | .insertTransaction row => .insertTransaction (row.confirm (confirmed row.block))
  | .insertTransfer row => .insertTransfer (row.confirm (confirmed row.block || row.block == 0))
  | q => q

section Flags

variable {confirmed confirmed' : Int → Bool} {t : Tables} {q : Query} {n : Int}

theorem hasKey_flagged : Lib.hasKey (·.number) n (t.flagged confirmed).blocks =
    Lib.hasKey (·.number) n t.blocks :=
  Lib.hasKey_map (f := fun r : BlockModel => r.confirm (confirmed r.number)) fun _ => rfl

theorem allowed_flagged :
    (q.flagged confirmed).allowed (t.flagged confirmed) = q.allowed t := by
  have hhash (h : String) : Lib.hasKey (·.hash) h (t.flagged confirmed).transactions =
      Lib.hasKey (·.hash) h t.transactions :=
    Lib.hasKey_map (f := fun r : TransactionModel => r.confirm (confirmed r.block)) fun _ => rfl
  cases q with
  | insertBlock row => exact congrArg (! ·) hasKey_flagged
  | insertTransaction row => exact congrArg₂ (!· && ·) (hhash _) hasKey_flagged
  | upsertTransaction row => exact hasKey_flagged
  | insertTransfer row => exact hasKey_flagged
  | _ => rfl

/-- An insert of a flagged row is the insert of the row, flagged. -/
theorem apply_flagged (hq : q.isImport = true) :
    (q.flagged confirmed).apply (t.flagged confirmed) = (q.apply t).flagged confirmed := by
  cases q with
  | insertBlock row | insertTransaction row | insertTransfer row =>
      simp [Query.apply, Query.flagged, Tables.flagged, Query.onBlocks, Query.onTransactions,
        Query.onTransfers, Query.onVotes, Query.onWitnesses, Query.onAssetIssues,
        Query.onParticipates]
  | insertVote | deleteVotes | upsertWitness | insertAssetIssue | updateAsset |
      insertParticipate => rfl
  | _ => cases hq

theorem exec_flagged {qs : List Query} {db u dbf : Database} (hqs : ∀ q ∈ qs, q.isImport = true)
    (h : execQueries qs db = some u) (hdbf : dbf.toTables = db.toTables.flagged confirmed) :
    ∃ uf, execQueries (qs.map (Query.flagged confirmed)) dbf = some uf ∧
      uf.toTables = u.toTables.flagged confirmed := by
  induction qs generalizing db dbf with
  | nil =>
      cases h
      exact ⟨dbf, rfl, hdbf⟩
  | cons q qs ih =>
      rw [List.forall_mem_cons] at hqs
      rcases Lib.execAll_cons_some.mp h with ⟨v, hv, h⟩
      obtain ⟨hallowed, hv⟩ := Query.exec_eq_some.mp hv
      have hallowedf : (q.flagged confirmed).allowed dbf.toTables = true := by
        rw [hdbf, allowed_flagged, hallowed]
      obtain ⟨vf, hvf⟩ : ∃ vf, (q.flagged confirmed).exec dbf = some vf :=
        ⟨_, dif_pos hallowedf⟩
      have hvfv : vf.toTables = v.toTables.flagged confirmed := by
        rw [(Query.exec_eq_some.mp hvf).2, hdbf, apply_flagged hqs.1, hv]
      obtain ⟨uf, hrest, huf⟩ := ih hqs.2 h hvfv
      exact ⟨uf, Lib.execAll_cons_some.mpr ⟨vf, hvf, hrest⟩, huf⟩

/-- The flags of the blocks that are there are all that matters. -/
theorem flagged_congr {db : Database}
    (h : ∀ row ∈ db.blocks, confirmed row.number = confirmed' row.number) :
    db.toTables.flagged confirmed = db.toTables.flagged confirmed' := by
  have hblock {n : Int} (hn : ∃ b ∈ db.blocks, b.number = n) : confirmed n = confirmed' n := by
    obtain ⟨b, hb, rfl⟩ := hn
    exact h b hb
  unfold Tables.flagged
  congr 1
  · exact List.map_congr_left fun r hr => by rw [h r hr]
  · refine List.map_congr_left fun r hr => ?_
    rw [hblock (db.wellFormed.transactions_blocks_id_fk r hr)]
  · refine List.map_congr_left fun r hr => ?_
    rw [hblock (db.wellFormed.transfers_blocks_id_fk r hr)]

end Flags

/-! ## One import of the chain -/

section Import

variable [Codec] {block : Block} {e : Extracted} {db : Database} {c : Bool}

theorem fullNodeQueries_cons (block : Block) (blocks : List Block) (he : extract block = .ok e) :
    fullNodeQueries c (block :: blocks) = e.fullNodeQueries c ++ fullNodeQueries c blocks := by
  rw [fullNodeQueries, List.flatMap_cons, fullNodeBlockQueries_eq, he]
  rfl

theorem fullNodeQueries_append (blocks blocks' : List Block) :
    fullNodeQueries c (blocks ++ blocks') = fullNodeQueries c blocks ++ fullNodeQueries c blocks' :=
  List.flatMap_append

/-- The queries of a run that confirms or does not are those of one that does not, with
    the flag set. -/
theorem fullNodeQueries_flagged {confirmed : Int → Bool} {blocks : List Block}
    (h : ∀ block ∈ blocks, confirmed block.number = c) :
    fullNodeQueries c blocks = (fullNodeQueries false blocks).map (Query.flagged confirmed) := by
  induction blocks with
  | nil => rfl
  | cons block blocks ih =>
      rw [List.forall_mem_cons] at h
      have hcons (c : Bool) : fullNodeQueries c (block :: blocks) =
          emitted (fullNodeBlockQueries c block) ++ fullNodeQueries c blocks := List.flatMap_cons
      rw [hcons, hcons, List.map_append, ih h.2, fullNodeBlockQueries_eq, fullNodeBlockQueries_eq]
      refine congrArg (· ++ _) ?_
      cases he : extract block with
      | error => rfl
      | ok e =>
          have hsound := extract_sound he
          have hblock : e.block.number = block.number := congrArg BlockModel.number hsound.block_eq
          show e.fullNodeQueries c = (e.fullNodeQueries false).map _
          rw [Extracted.fullNodeQueries, Extracted.fullNodeQueries, List.map_cons, List.map_append,
            List.map_map]
          refine congrArg₂ (· :: ·) ?_ (congrArg₂ (· ++ ·) ?_ ?_)
          · rw [← h.1, ← hblock]
            rfl
          · refine List.map_congr_left fun row hrow => ?_
            rw [← h.1, ← hsound.transactions_block row hrow]
            rfl
          · rw [Extracted.contractQueries, Extracted.contractQueries, List.map_flatMap]
            refine List.flatMap_congr fun model hmodel => ?_
            have hof := hsound.models_block model hmodel
            rw [Extracted.transferFlag, Extracted.transferFlag, hblock, ← h.1]
            cases model with
            | transfer row =>
                obtain ⟨hrow, -⟩ := hof
                rw [← hrow]
                rfl
            | voteWitnessList votes =>
                simp [ContractModel.confirm, ContractModel.queries, DatabaseImporter.buildUpdateVotes,
                  Query.flagged, Function.comp_def]
            | _ => rfl

/-- A block whose number and hashes are free imports. -/
theorem exec_fullNodeQueries_fresh (he : e.Sound block) (hnumber : ¬HasBlock block.number db)
    (hnodup : (block.transactions.map Transaction.hash).Nodup)
    (hfresh : ∀ trx ∈ block.transactions, ∀ r ∈ db.transactions, r.hash ≠ trx.hash) (c : Bool) :
    ∃ db', execQueries (e.fullNodeQueries c) db = some db' := by
  have hblock : (e.block.confirm c).number = block.number :=
    congrArg BlockModel.number he.block_eq
  have hallowed : (Query.insertBlock (e.block.confirm c)).allowed db.toTables = true := by
    rw [Query.allowed, Bool.not_eq_true', Lib.hasKey_eq_false, hblock]
    exact fun r hr hn => hnumber ⟨r, hr, hn⟩
  obtain ⟨u, hu⟩ : ∃ u, (Query.insertBlock (e.block.confirm c)).exec db = some u :=
    ⟨_, dif_pos hallowed⟩
  have hrows := (Query.exec_eq_some.mp hu).2
  have hn : HasBlock block.number u := by
    refine ⟨e.block.confirm c, ?_, hblock⟩
    rw [hrows]
    exact List.mem_append_right _ (List.mem_singleton_self _)
  have hhash : (e.transactions.map (TransactionModel.confirm c)).map (·.hash) =
      block.transactions.map Transaction.hash := by
    rw [← he.transactions_hash, List.map_map]
    rfl
  have hfree : ∀ row ∈ e.transactions.map (TransactionModel.confirm c),
      ∀ r ∈ u.transactions, r.hash ≠ row.hash := by
    intro row hrow r hr
    rw [hrows] at hr
    obtain ⟨trx, htrx, hsame⟩ := List.mem_map.mp (hhash ▸ List.mem_map_of_mem hrow)
    rw [← hsame]
    exact hfresh trx htrx r hr
  obtain ⟨v, hv, hnv⟩ := exec_insertTransactions hn (he.confirm_transactions_block c)
    (hhash ▸ hnodup) hfree
  obtain ⟨db', hdb', -⟩ := execQueries_needsBlock
    (needsBlock_contractQueries he (e.transferFlag c)) hnv
  refine ⟨db', Lib.execAll_cons_some.mpr ⟨u, hu, Lib.execAll_append_some.mpr ⟨v, ?_, hdb'⟩⟩⟩
  rw [List.map_map] at hv
  exact hv

end Import

namespace Blockchain

variable [Codec] (chain : Blockchain)

theorem exists_extract (n : ℕ) : ∃ e, extract (chain.block n) = .ok e :=
  extract_ok_iff.mpr (chain.readable n)

theorem take_succ (k : ℕ) : chain.take (k + 1) = chain.take k ++ [chain.block k] := by
  rw [take, take, List.range_succ, List.map_append]
  rfl

/-- The rows of one import: those of the blocks, and no others. -/
structure Imported (k : ℕ) (plain : Database) : Prop where
  exec : execQueries (fullNodeQueries false (chain.take k)) Database.empty = some plain
  blocks : plain.blocks = (chain.take k).map fun block => (BlockModel.fromProto block).confirm false
  hashes : plain.transactions.map (·.hash) =
    ((List.range k).flatMap fun n => (chain.block n).transactions).map Transaction.hash
  transactions : ∀ n < k, ∀ e, extract (chain.block n) = .ok e → ∀ row ∈ e.transactions,
    row.confirm false ∈ plain.transactions

theorem Imported.hasBlock_iff {k : ℕ} {plain : Database} (h : chain.Imported k plain) {n : Int} :
    HasBlock n plain ↔ 0 ≤ n ∧ n < k := by
  rw [HasBlock, h.blocks]
  constructor
  · rintro ⟨row, hrow, rfl⟩
    obtain ⟨block, hblock, rfl⟩ := List.mem_map.mp hrow
    obtain ⟨i, hi, rfl⟩ := List.mem_map.mp hblock
    have hnumber : ((BlockModel.fromProto (chain.block i)).confirm false).number = i :=
      chain.number_eq i
    rw [List.mem_range] at hi
    omega
  · rintro ⟨hlow, hhigh⟩
    refine ⟨_, List.mem_map_of_mem (List.mem_map_of_mem (List.mem_range.mpr
      (show n.toNat < k by omega))), ?_⟩
    exact (chain.number_eq n.toNat).trans (Int.toNat_of_nonneg hlow)

/-- One import of any part of the chain goes through. -/
theorem exists_imported (k : ℕ) : ∃ plain, chain.Imported k plain := by
  induction k with
  | zero => exact ⟨Database.empty, rfl, rfl, rfl, fun n hn => absurd hn (Nat.not_lt_zero n)⟩
  | succ k ih =>
      obtain ⟨plain, hplain⟩ := ih
      obtain ⟨e, he⟩ := chain.exists_extract k
      have hsound := extract_sound he
      have hhashes := chain.hashes_nodup (k + 1)
      rw [List.range_succ, List.flatMap_append, List.map_append, List.flatMap_singleton,
        List.nodup_append'] at hhashes
      have hnumber : ¬HasBlock (chain.block k).number plain := by
        rw [hplain.hasBlock_iff, chain.number_eq]
        omega
      have hfresh : ∀ trx ∈ (chain.block k).transactions, ∀ r ∈ plain.transactions,
          r.hash ≠ trx.hash := by
        intro trx htrx r hr hsame
        refine hhashes.2.2 (hplain.hashes ▸ List.mem_map_of_mem hr) ?_
        exact hsame ▸ List.mem_map_of_mem htrx
      obtain ⟨db', hdb'⟩ := exec_fullNodeQueries_fresh hsound hnumber hhashes.2.1 hfresh false
      obtain ⟨hblocks, htransactions, -, -⟩ :=
        execQueries_import (e.isImport_fullNodeQueries false) hdb'
      obtain ⟨hblockRow, htransactionRow, -, -⟩ := e.fullNodeQueries_rows false
      rw [hblockRow] at hblocks
      rw [htransactionRow] at htransactions
      refine ⟨db', ?_, ?_, ?_, ?_⟩
      · rw [take_succ, fullNodeQueries_append, fullNodeQueries_cons _ _ he]
        refine Lib.execAll_append_some.mpr ⟨plain, hplain.exec, ?_⟩
        rwa [show fullNodeQueries false [] = [] from rfl, List.append_nil]
      · rw [hblocks, hplain.blocks, take_succ, List.map_append, hsound.block_eq]
        rfl
      · rw [htransactions, List.map_append, hplain.hashes, List.range_succ, List.flatMap_append,
          List.map_append, List.flatMap_singleton, ← hsound.transactions_hash, List.map_map]
        rfl
      · intro n hn e' he' row hrow
        rw [htransactions]
        rcases Nat.lt_succ_iff_lt_or_eq.mp hn with hn | rfl
        · exact List.mem_append_left _ (hplain.transactions n hn e' he' row hrow)
        · rw [he] at he'
          cases he'
          exact List.mem_append_right _ (List.mem_map_of_mem hrow)

end Blockchain

/-! ## The tables of a view -/

section Tables

variable [Codec] {chain : Blockchain} {v : View} {db : Database}

theorem mirrors_iff : Mirrors chain v db ↔ ∃ plain, chain.Imported v.height plain ∧
    db.toTables = plain.toTables.flagged v.confirmed := by
  constructor
  · rintro ⟨plain, hexec, hdb⟩
    obtain ⟨plain', hplain'⟩ := chain.exists_imported v.height
    cases hexec.symm.trans hplain'.exec
    exact ⟨plain, hplain', hdb⟩
  · rintro ⟨plain, hplain, hdb⟩
    exact ⟨plain, hplain.exec, hdb⟩

theorem mirrors_empty : Mirrors chain View.empty Database.empty := ⟨Database.empty, rfl, rfl⟩

/-- Views that agree on the blocks they have are mirrored together. -/
theorem Mirrors.congr (h : Mirrors chain v db) {confirmed : Int → Bool}
    (hagree : ∀ n : ℕ, n < v.height → v.confirmed n = confirmed n) :
    Mirrors chain { v with confirmed := confirmed } db := by
  obtain ⟨plain, hplain, hdb⟩ := mirrors_iff.mp h
  refine ⟨plain, hplain.exec, hdb.trans (flagged_congr fun row hrow => ?_)⟩
  obtain ⟨hlow, hhigh⟩ := hplain.hasBlock_iff.mp ⟨row, hrow, rfl⟩
  obtain ⟨n, hn⟩ := Int.eq_ofNat_of_zero_le hlow
  rw [hn]
  exact hagree n (by omega)

/-- The row of a block. -/
def View.row (v : View) (chain : Blockchain) (n : ℕ) : BlockModel :=
  (BlockModel.fromProto (chain.block n)).confirm (v.confirmed n)

theorem View.row_number (v : View) (chain : Blockchain) (n : ℕ) : (v.row chain n).number = n :=
  chain.number_eq n

theorem Mirrors.blocks_eq (h : Mirrors chain v db) :
    db.blocks = (List.range v.height).map (v.row chain) := by
  obtain ⟨plain, hplain, hdb⟩ := mirrors_iff.mp h
  rw [hdb]
  show plain.blocks.map _ = _
  rw [hplain.blocks, Blockchain.take, List.map_map, List.map_map]
  refine List.map_congr_left fun n _ => ?_
  show (BlockModel.fromProto (chain.block n)).confirm (v.confirmed (chain.block n).number) = _
  rw [chain.number_eq]
  rfl

theorem Mirrors.mem_blocks (h : Mirrors chain v db) {n : ℕ} (hn : n < v.height) :
    v.row chain n ∈ db.blocks := by
  rw [h.blocks_eq]
  exact List.mem_map_of_mem (List.mem_range.mpr hn)

theorem Mirrors.findByNumber_eq (h : Mirrors chain v db) {n : ℕ} (hn : n < v.height) :
    findByNumber n db = some (v.row chain n) := by
  rw [← v.row_number chain n]
  exact findByNumber_of_mem (h.mem_blocks hn)

theorem Mirrors.storedNumbers_eq (h : Mirrors chain v db) :
    storedNumbers db = Set.Icc 0 v.latest := by
  ext n
  rw [storedNumbers, Set.mem_ofPred_eq, HasBlock, h.blocks_eq, Set.mem_Icc, View.latest]
  constructor
  · rintro ⟨row, hrow, rfl⟩
    obtain ⟨i, hi, rfl⟩ := List.mem_map.mp hrow
    rw [List.mem_range] at hi
    rw [View.row_number]
    omega
  · rintro ⟨hlow, hhigh⟩
    refine ⟨v.row chain n.toNat, List.mem_map_of_mem (List.mem_range.mpr (by omega)), ?_⟩
    rw [View.row_number, Int.toNat_of_nonneg hlow]

theorem Mirrors.dbLatestBlock_eq (h : Mirrors chain v db) (hfits : v.Fits) (heads : Heads) :
    (nodeState heads db).dbLatestBlock.toInt = v.latest := by
  rw [View.Fits] at hfits
  refine dbLatestBlock_of_stored h.storedNumbers_eq ?_ ?_ <;>
  · rw [View.latest]
    omega

omit [Codec] in
/-- The first unconfirmed block, or none. -/
theorem View.unconfirmed_spec (v : View) :
    (v.unconfirmed = -1 ∧ ∀ n : ℕ, n < v.height → v.confirmed n = true) ∨
    ∃ u : ℕ, v.unconfirmed = u ∧ u < v.height ∧ v.confirmed u = false ∧
      ∀ n : ℕ, n < u → v.confirmed n = true := by
  unfold View.unconfirmed
  cases hfind : (List.range v.height).find? fun n : ℕ => !v.confirmed n with
  | none =>
      refine .inl ⟨rfl, fun n hn => ?_⟩
      simpa using List.find?_eq_none.mp hfind n (List.mem_range.mpr hn)
  | some u =>
      obtain ⟨hu, hlow⟩ := List.find?_range_eq_some.mp hfind
      exact .inr ⟨u, rfl, List.mem_range.mp hlow.1, by simpa using hu,
        fun n hn => by simpa using hlow.2 n hn⟩

omit [Codec] in
theorem View.height_le_step (v : View) (o : Observed) : v.height ≤ (v.step o).height := by
  cases o with
  | nothing => exact le_rfl
  | full => exact le_max_left _ _
  | solidity =>
      rw [View.step]
      split <;> exact le_rfl

theorem Mirrors.dbUnconfirmedBlock_eq (h : Mirrors chain v db) (hfits : v.Fits) (heads : Heads) :
    (nodeState heads db).dbUnconfirmedBlock.toInt = v.unconfirmed := by
  rw [View.Fits] at hfits
  have hmem {n : ℕ} (hn : n < v.height) : v.row chain n ∈ db.blocks.filter (fun r => !r.confirmed) ↔
      v.confirmed n = false := by
    rw [List.mem_filter, and_iff_right (h.mem_blocks hn), Bool.not_eq_true']
    rfl
  have hrow {r : BlockModel} (hr : r ∈ db.blocks) : ∃ n, n < v.height ∧ v.row chain n = r := by
    rw [h.blocks_eq] at hr
    obtain ⟨n, hn, hr⟩ := List.mem_map.mp hr
    exact ⟨n, List.mem_range.mp hn, hr⟩
  show (((findLatestUnconfirmed db).map fun row => Int64.ofInt row.number).getD (-1)).toInt = _
  rcases v.unconfirmed_spec with ⟨hu, hall⟩ | ⟨u, hu, hlt, hconfirmed, hbelow⟩
  · have hnone : findLatestUnconfirmed db = none := by
      refine List.argmin_eq_none.mpr (List.filter_eq_nil_iff.mpr fun r hr => ?_)
      obtain ⟨n, hn, rfl⟩ := hrow hr
      rw [Bool.not_eq_true', Bool.not_eq_false]
      exact hall n hn
    rw [hnone, hu]
    rfl
  · cases hlowest : findLatestUnconfirmed db with
    | none =>
        have hnil := List.argmin_eq_none.mp hlowest
        have := (hmem hlt).mpr hconfirmed
        rw [hnil] at this
        exact absurd this List.not_mem_nil
    | some r =>
        have hr := List.argmin_mem hlowest
        have hle : r.number ≤ (v.row chain u).number :=
          List.le_of_mem_argmin ((hmem hlt).mpr hconfirmed) hlowest
        obtain ⟨n, hn, rfl⟩ := hrow (List.mem_of_mem_filter hr)
        rw [View.row_number, View.row_number] at hle
        rw [hu, Option.map_some, Option.getD_some, View.row_number,
          Int64.toInt_ofInt_of_le (by omega) (by omega)]
        have hnot : ¬n < u := fun hnu => by
          rw [hmem hn, hbelow n hnu] at hr
          cases hr
        omega

end Tables

end Tronscan
