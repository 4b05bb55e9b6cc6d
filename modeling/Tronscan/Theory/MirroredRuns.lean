import Tronscan.Lib.Simulation
import Tronscan.Theory.ViewTables

/-!
# The Explorer Mirrors the Chain

Full node runs and solidity runs, one after the other, on nodes that have the chain up to
the heads they report. A full node run reads on from the latest block and takes the view
up the chain. A solidity run reads on from the first unconfirmed block and confirms. Its
queries are found before the first of them is executed, so what the later ones find is
what was there before, and still is.

Heads are at most `Long.MaxValue - 99`, since a full node run that is told of a higher one
comes back to where it began. A solidity run that has more blocks to read than can be
counted does not read any, and then the view stays as it is.

## Main definitions

* `ImportRun.Reads`: A run on nodes that have the chain.
* `ImportRun.Follows`: One whose batches commit.
* `View.asked`: The numbers a solidity run asks for.

## Theorems

* `take_append_stream`: What a full node run reads.
* `Mirrors.exec_full`: It takes the view up the chain.
* `exec_confirm`: Confirming a block sets its flags and nothing else.
* `Mirrors.exec_solidity`: What a solidity run confirms.
* `Mirrors.exec_run`, `mirrors_step`: The step lemma, for the queries and for the run.
* `history_mirrors`: The database after any runs is a view of the chain, and the heads
  decide which.
-/

namespace Tronscan

open BlockImporter BlockChainStreamBuilder ImportStreamFactory

section Runs

variable [Codec] {chain : Blockchain} {v : View} {db : Database} {run : ImportRun}

/-- The run starts from what the nodes report and the database holds, and the node it
    reads from has the chain up to the head that was reported. -/
structure ImportRun.Reads (run : ImportRun) (chain : Blockchain) (db : Database) : Prop where
  status : ∃ heads, run.status = nodeState heads db
  low : -1 ≤ run.status.fullNodeBlock.toInt
  high : run.status.fullNodeBlock.toInt < 2 ^ 63 - 99
  served : match run.source with
    | .fullNode node => (chain.upTo run.status.fullNodeBlock.toInt).ServedBy node
    | .solidity node => ∀ n block,
        (chain.upTo run.status.solidityBlock.toInt).read n = some block →
          node.getBlockByNum n = some block

/-- It does, and its batches commit. -/
structure ImportRun.Follows (run : ImportRun) (chain : Blockchain) (db : Database) : Prop
    extends run.Reads chain db where
  commits : ∀ batch ∈ run.batches db, batch.2 = true

/-- A run whose queries execute leaves what they do. -/
theorem db_of_exec {s t : History} {u : Database} (hcommits : ∀ batch ∈ run.batches s.db, batch.2 = true)
    (hexec : execQueries (run.queries s.db) s.db = some u) (hstep : historyStep s run = some t) :
    t.db = u := by
  cases hstep
  rw [← run.batches_flatten s.db] at hexec
  show (Lib.runDropping Query.exec (run.batches s.db) s.db).2 = u
  rw [Lib.runDropping_of_exec hcommits hexec]

/-- The part of the chain from a height on, as a node reads it out. -/
theorem Blockchain.take_append (chain : Blockchain) (k : ℕ) {b head : Int} (hb : b ≤ head + 1) :
    chain.take (max k b.toNat) =
      chain.take k ++ (Int.range k b).filterMap (chain.upTo head).read := by
  have hread : ∀ i ∈ List.range (b - k).toNat,
      (chain.upTo head).read (k + i) = some (chain.block (k + i)) := by
    intro i hi
    rw [List.mem_range] at hi
    exact if_pos (by omega)
  have hlength : max k b.toNat = k + (b - k).toNat := by omega
  rw [Int.range, List.filterMap_map, hlength, Blockchain.take, List.range_add, List.map_append,
    List.map_map]
  refine congrArg (chain.take k ++ ·) ?_
  rw [← List.filterMap_eq_map]
  exact List.filterMap_congr fun i hi => (hread i hi).symm

/-- The heads are in range, and the view is what the run was told. -/
structure NodeState.Sees (status : NodeState) (v : View) : Prop where
  fits : v.Fits
  latest : status.dbLatestBlock.toInt = v.latest
  low : -1 ≤ status.fullNodeBlock.toInt
  high : status.fullNodeBlock.toInt < 2 ^ 63 - 99

section Sums

variable {status : NodeState}

omit [Codec]

/-- Within the range nothing wraps. -/
theorem NodeState.Sees.from_eq (h : status.Sees v) :
    (status.dbLatestBlock + 1).toInt = v.height := by
  have hfits := h.fits
  have hlatest := h.latest
  rw [View.Fits] at hfits
  rw [View.latest] at hlatest
  rw [toInt_add_one (by omega)]
  omega

theorem NodeState.Sees.to_eq (h : status.Sees v) :
    (status.fullNodeBlock - 2).toInt = status.fullNodeBlock.toInt - 2 := by
  have htwo : (2 : Int64).toInt = 2 := rfl
  have hlow := h.low
  have hhigh := h.high
  exact toInt_sub_of_range (by omega) (by omega)

theorem NodeState.Sees.toSync_eq (h : status.Sees v) :
    status.fullNodeBlocksToSync.toInt = status.fullNodeBlock.toInt - v.latest := by
  have hfits := h.fits
  have hlatest := h.latest
  have hlow := h.low
  have hhigh := h.high
  rw [View.Fits] at hfits
  rw [View.latest] at hlatest ⊢
  rw [NodeState.fullNodeBlocksToSync, toInt_sub_of_range (by omega) (by omega), hlatest]

end Sums

/-- A full node run reads the part of the chain up to where it gets. -/
theorem take_append_stream {node : FullNode} {status : NodeState} (hsees : status.Sees v)
    (hserved : (chain.upTo status.fullNodeBlock.toInt).ServedBy node) :
    chain.take (max v.height (v.target status.fullNodeBlock.toInt)) =
      chain.take v.height ++ fullNodeStream node status := by
  have hhigh := hsees.high
  have hread : ∀ n : Int, (v.height : Int) ≤ n → n ≤ status.fullNodeBlock.toInt - 2 →
      ((chain.upTo status.fullNodeBlock.toInt).read n).isSome = true := by
    intro n hlow hhigh
    have hsome : (chain.upTo status.fullNodeBlock.toInt).read n = some (chain.block n.toNat) :=
      if_pos (by omega)
    rw [hsome]
    rfl
  have hsync : fullNodePreSynchronisationChecker status = true ↔
      0 < status.fullNodeBlock.toInt - v.latest := by
    rw [← hsees.toSync_eq, fullNodePreSynchronisationChecker, decide_eq_true_eq, gt_iff_lt,
      Int64.lt_iff_toInt_lt, Int64.toInt_zero]
  have hsingle : status.fullNodeBlocksToSync < 100 ↔
      status.fullNodeBlock.toInt - v.latest < 100 := by
    rw [← hsees.toSync_eq]
    exact Int64.lt_iff_toInt_lt
  rw [fullNodeStream, View.target]
  by_cases hbehind : 0 < status.fullNodeBlock.toInt - v.latest
  · rw [if_pos (hsync.mpr hbehind)]
    by_cases hnear : status.fullNodeBlock.toInt - v.latest < 100
    · have hcount : isCountable (status.dbLatestBlock + 1) (status.fullNodeBlock - 2) = true := by
        have hlatest : v.latest = v.height - 1 := rfl
        rw [isCountable, hsees.from_eq, hsees.to_eq, decide_eq_true_eq]
        omega
      rw [if_pos hnear, buildBlockSource, if_pos (hsingle.mpr hnear), if_pos hcount,
        hsees.from_eq, hsees.to_eq, readFullNodeBlocks_of_served hserved hread]
      rw [show status.fullNodeBlock.toInt - 2 + 1 = status.fullNodeBlock.toInt - 1 by omega]
      exact chain.take_append v.height (by omega)
    · have hlow := hsees.low
      have hwraps : ¬ status.Wraps := not_wraps_of_head (by omega) (by omega)
      rw [if_neg hnear, buildBlockSource_of_not_wraps (fun h => hnear (hsingle.mp h)) hwraps,
        hsees.from_eq, hsees.to_eq, readFullNodeBlocksBatched_of_served hserved (by omega)]
      exact chain.take_append v.height (by omega)
  · rw [if_neg fun h => hbehind (hsync.mp h), List.append_nil, if_pos (by omega), max_eq_left]
    rw [View.latest] at hbehind
    omega

/-- What it reads is above what was there. -/
theorem number_of_mem_stream {node : FullNode} {status : NodeState}
    (hsees : status.Sees v) (hserved : (chain.upTo status.fullNodeBlock.toInt).ServedBy node) :
    ∀ block ∈ fullNodeStream node status, (v.height : Int) ≤ block.number := by
  intro block hblock
  have hlength : (chain.take v.height).length = v.height := by
    rw [Blockchain.take, List.length_map, List.length_range]
  have hmem : block ∈
      (chain.take (max v.height (v.target status.fullNodeBlock.toInt))).drop v.height := by
    rw [take_append_stream hsees hserved, List.drop_left' hlength]
    exact hblock
  rw [Blockchain.take, ← List.map_drop] at hmem
  obtain ⟨n, hn, rfl⟩ := List.mem_map.mp hmem
  obtain ⟨i, -, rfl⟩ := List.mem_drop_iff_getElem.mp hn
  rw [chain.number_eq, List.getElem_range]
  omega

/-- A full node run takes the explorer up the chain. -/
theorem Mirrors.exec_full (h : Mirrors chain v db) {node : FullNode} {status : NodeState}
    (hsees : status.Sees v)
    (hserved : (chain.upTo status.fullNodeBlock.toInt).ServedBy node) (confirmBlocks : Bool) :
    ∃ u, execQueries (fullNodeQueries confirmBlocks (fullNodeStream node status)) db = some u ∧
      Mirrors chain (v.step (.full status.fullNodeBlock.toInt confirmBlocks)) u := by
  obtain ⟨plain, hplain, hdb⟩ := mirrors_iff.mp h
  obtain ⟨plain', hplain'⟩ := chain.exists_imported (max v.height (v.target status.fullNodeBlock.toInt))
  have htake := take_append_stream hsees hserved
  have hexec := hplain'.exec
  rw [htake, fullNodeQueries_append] at hexec
  obtain ⟨w, hw, hexec⟩ := Lib.execAll_append_some.mp hexec
  cases hw.symm.trans hplain.exec
  -- The new blocks are above those whose flags are kept.
  have hnew : ∀ block ∈ fullNodeStream node status,
      (v.step (.full status.fullNodeBlock.toInt confirmBlocks)).confirmed block.number =
        confirmBlocks :=
    fun block hblock => if_neg (not_lt.mpr (number_of_mem_stream hsees hserved block hblock))
  have hold : db.toTables =
      plain.toTables.flagged (v.step (.full status.fullNodeBlock.toInt confirmBlocks)).confirmed := by
    refine hdb.trans (flagged_congr fun row hrow => (if_pos ?_).symm)
    exact (hplain.hasBlock_iff.mp ⟨row, hrow, rfl⟩).2
  obtain ⟨u, hu, htables⟩ := exec_flagged (fun _ => isImport_fullNodeQueries _) hexec hold
  rw [← fullNodeQueries_flagged hnew] at hu
  exact ⟨u, hu, plain', hplain'.exec, htables⟩

omit [Codec] in
/-- The tables without flags are no matter of a confirmation. -/
theorem confirmQueries_others {e : Extracted} {n : Int} {u : Database}
    (h : execQueries (e.confirmQueries n) db = some u) :
    u.voteWitnessContract = db.voteWitnessContract ∧
      u.witnessCreateContract = db.witnessCreateContract ∧
      u.assetIssueContract = db.assetIssueContract := by
  have hsame {α : Type} {on : Query → List α → List α} {rows : List α}
      (hconfirm : ∀ q ∈ buildConfirmBlock n, ∀ rows, on q rows = rows)
      (hupsert : ∀ row rows, on (.upsertTransaction row) rows = rows) :
      (e.confirmQueries n).foldl (fun rows q => on q rows) rows = rows := by
    refine foldl_same (fun q hq rows => ?_) rows
    rcases List.mem_append.mp hq with hq | hq
    · exact hconfirm q hq rows
    · obtain ⟨row, -, rfl⟩ := List.mem_map.mp hq
      exact hupsert _ _
  rw [execQueries_votes h, execQueries_witnesses h, execQueries_assetIssues h]
  exact ⟨hsame (by simp [buildConfirmBlock, Query.onVotes]) fun _ _ => rfl,
    hsame (by simp [buildConfirmBlock, Query.onWitnesses]) fun _ _ => rfl,
    hsame (by simp [buildConfirmBlock, Query.onAssetIssues]) fun _ _ => rfl⟩

omit [Codec] in
/-- Setting the flag of one block on top of the others. -/
theorem map_confirm_at {α : Type} {number : α → Int} {confirm : Bool → α → α}
    (htwice : ∀ b r, confirm true (confirm b r) = confirm true r)
    (hnumber : ∀ b r, number (confirm b r) = number r) (flag : α → Bool) (n : Int)
    (rows : List α) :
    (rows.map fun r => confirm (flag r) r).map
        (fun r => if number r = n then confirm true r else r) =
      rows.map fun r => confirm (flag r || decide (number r = n)) r := by
  rw [List.map_map]
  refine List.map_congr_left fun r _ => ?_
  rw [Function.comp_apply, hnumber]
  by_cases hr : number r = n
  · rw [if_pos hr, htwice, decide_eq_true hr, Bool.or_true]
  · rw [if_neg hr, decide_eq_false hr, Bool.or_false]

/-- A confirmation of a block that is there sets its flags and nothing else, the rows it
    brings along being those that are there. -/
theorem exec_confirm {k : ℕ} {plain : Database} (hplain : chain.Imported k plain) {n : ℕ}
    (hn : n < k) {e : Extracted} (he : extract (chain.block n) = .ok e) {confirmed : Int → Bool}
    (hdb : db.toTables = plain.toTables.flagged confirmed) :
    ∃ u, execQueries (e.confirmQueries n) db = some u ∧
      u.toTables = plain.toTables.flagged fun m => confirmed m || decide (m = n) := by
  have hsound := extract_sound he
  have hblock : HasBlock (chain.block n).number db := by
    obtain ⟨row, hrow, hnumber⟩ := hplain.hasBlock_iff.mpr
      (show 0 ≤ (n : Int) ∧ (n : Int) < k by omega)
    rw [chain.number_eq, HasBlock, hdb]
    exact ⟨_, List.mem_map_of_mem hrow, hnumber⟩
  obtain ⟨u, hu⟩ := exec_confirmQueries hsound hblock
  rw [chain.number_eq] at hu
  refine ⟨u, hu, ?_⟩
  obtain ⟨hblocks, htransactions, htransfers, hparticipates⟩ := confirmQueries_tables hu
  obtain ⟨hvotes, hwitnesses, hassets⟩ := confirmQueries_others hu
  have hflaggedBlocks : u.blocks = plain.blocks.map fun r =>
      r.confirm (confirmed r.number || decide (r.number = n)) := by
    rw [hblocks, hdb]
    exact @map_confirm_at _ BlockModel.number BlockModel.confirm (fun _ _ => rfl) (fun _ _ => rfl)
      (fun r => confirmed r.number) n plain.blocks
  have hflaggedTransfers : u.transfers = plain.transfers.map fun r =>
      r.confirm (confirmed r.block || decide (r.block = n) || r.block == 0) := by
    rw [htransfers, hdb]
    refine (@map_confirm_at _ TransferModel.block TransferModel.confirm (fun _ _ => rfl)
      (fun _ _ => rfl) (fun r => confirmed r.block || r.block == 0) n plain.transfers).trans ?_
    exact List.map_congr_left fun r _ => by rw [Bool.or_right_comm]
  have hflaggedTransactions : u.transactions = plain.transactions.map fun r =>
      r.confirm (confirmed r.block || decide (r.block = n)) := by
    rw [htransactions, hdb]
    have hmap : confirmTransactionsAt n (plain.toTables.flagged confirmed).transactions = _ :=
      @map_confirm_at _ TransactionModel.block TransactionModel.confirm (fun _ _ => rfl)
        (fun _ _ => rfl) (fun r => confirmed r.block) n plain.transactions
    rw [hmap]
    refine Lib.foldl_upsert_of_mem ?_ fun row hrow => ?_
    · rw [List.map_map]
      exact plain.wellFormed.transactions_hash_pk
    · obtain ⟨r, hr, rfl⟩ := List.mem_map.mp hrow
      refine List.mem_map.mpr ⟨r.confirm false, hplain.transactions n hn e he r hr, ?_⟩
      have hnumber : r.block = n := (hsound.transactions_block r hr).trans (chain.number_eq n)
      rw [TransactionModel.confirm_block, hnumber, decide_eq_true rfl, Bool.or_true]
      rfl
  show Tables.mk u.blocks u.transactions u.transfers u.voteWitnessContract u.witnessCreateContract
    u.assetIssueContract u.participateAssetIssue = _
  rw [hflaggedBlocks, hflaggedTransactions, hflaggedTransfers, hvotes, hwitnesses, hassets,
    hparticipates, hdb]
  rfl

/-- What a solidity run has for a block of the chain: the confirmation, unless it is
    confirmed already. -/
theorem Mirrors.solidityBlockQueries_eq (h : Mirrors chain v db) {n : ℕ} (hn : n < v.height)
    {e : Extracted} (he : extract (chain.block n) = .ok e) :
    solidityBlockQueries (chain.block n) (findByNumber (chain.block n).number db) =
      if v.confirmed n then [] else e.confirmQueries n := by
  rw [chain.number_eq, h.findByNumber_eq hn, solidityBlockQueries,
    chain.header_isSome, Bool.true_and]
  have hflag : (v.row chain n).confirmed = v.confirmed n := rfl
  rw [hflag]
  cases v.confirmed n with
  | true => rfl
  | false =>
      have hhash : (chain.block n).hash = (v.row chain n).hash := rfl
      rw [Bool.not_false, if_pos rfl, buildSolidityBlockQueries_eq, he, v.row_number]
      exact if_pos hhash

/-- The confirmations of a solidity run, looked up before the first of them. -/
theorem Mirrors.exec_confirms (h : Mirrors chain v db) (ns : List ℕ) (hns : ∀ n ∈ ns, n < v.height)
    {confirmed : Int → Bool} (hle : ∀ n : ℕ, v.confirmed n = true → confirmed n = true)
    {db' : Database} (h' : Mirrors chain { v with confirmed := confirmed } db') :
    ∃ u, execQueries ((ns.map chain.block).flatMap fun block =>
        solidityBlockQueries block (findByNumber block.number db)) db' = some u ∧
      Mirrors chain { v with confirmed := fun m => confirmed m || ns.any fun n => (n : Int) = m } u := by
  induction ns generalizing confirmed db' with
  | nil => exact ⟨db', rfl, h'.congr fun n _ => (Bool.or_false _).symm⟩
  | cons n ns ih =>
      rw [List.forall_mem_cons] at hns
      obtain ⟨e, he⟩ := chain.exists_extract n
      rw [List.map_cons, List.flatMap_cons, h.solidityBlockQueries_eq hns.1 he]
      obtain ⟨u, hu, hmirror⟩ : ∃ u, execQueries (if v.confirmed n then [] else e.confirmQueries n) db' =
          some u ∧ Mirrors chain { v with confirmed := fun m => confirmed m || decide (m = n) } u := by
        cases hn : v.confirmed n with
        | true =>
            refine ⟨db', rfl, h'.congr fun m _ => ?_⟩
            by_cases hm : (m : Int) = n
            · show confirmed m = _
              rw [hm, hle n hn, Bool.true_or]
            · rw [decide_eq_false hm, Bool.or_false]
        | false =>
            obtain ⟨plain, hplain, hdb⟩ := mirrors_iff.mp h'
            obtain ⟨u, hu, htables⟩ := exec_confirm hplain hns.1 he hdb
            exact ⟨u, hu, plain, hplain.exec, htables⟩
      obtain ⟨w, hw, hmirror⟩ := ih hns.2 (fun m hm => by rw [hle m hm, Bool.true_or]) hmirror
      refine ⟨w, Lib.execAll_append_some.mpr ⟨u, hu, hw⟩, hmirror.congr fun m _ => ?_⟩
      show (confirmed m || decide ((m : Int) = n) || _) = (confirmed m || _)
      rw [List.any_cons, Bool.or_assoc, decide_eq_decide.mpr eq_comm]

/-- A run over confirmed rows has nothing to do. -/
theorem solidityBlockQueries_confirmed (h : ∀ row ∈ db.blocks, row.confirmed = true) (block : Block)
    (n : Int) : solidityBlockQueries block (findByNumber n db) = [] := by
  cases hfound : findByNumber n db with
  | none => rfl
  | some row =>
      rw [solidityBlockQueries, h row (findByNumber_spec hfound).1, Bool.not_true, Bool.and_false]
      rfl

/-- The numbers that a solidity run asks for. -/
def View.asked (v : View) (u : ℕ) (solidityHead : Int) : List ℕ :=
  (List.range (min v.latest solidityHead + 1 - u).toNat).map (u + ·)

omit [Codec] in
theorem View.mem_asked (v : View) {u n : ℕ} {solidityHead : Int} :
    n ∈ v.asked u solidityHead ↔ u ≤ n ∧ n < v.height ∧ n ≤ solidityHead := by
  rw [View.asked, List.mem_map, View.latest]
  constructor
  · rintro ⟨i, hi, rfl⟩
    rw [List.mem_range] at hi
    omega
  · rintro ⟨hlow, hheight, hhead⟩
    exact ⟨n - u, List.mem_range.mpr (by omega), by omega⟩

theorem readSolidityBlocks_of_served {node : SolidityNode} {solidityHead : Int} {u : ℕ}
    (hserved : ∀ n block, (chain.upTo solidityHead).read n = some block →
      node.getBlockByNum n = some block) :
    readSolidityBlocks u (min v.latest solidityHead) node =
      (v.asked u solidityHead).map chain.block := by
  have hread : (Int.range u (min v.latest solidityHead + 1)).filterMap node.getBlockByNum =
      (v.asked u solidityHead).map chain.block := by
    rw [Int.range, List.filterMap_map, View.asked, List.map_map, ← List.filterMap_eq_map]
    refine List.filterMap_congr fun i hi => ?_
    rw [List.mem_range] at hi
    show node.getBlockByNum (u + i) = some (chain.block (u + i))
    exact hserved _ _ (if_pos (by omega))
  rw [readSolidityBlocks, readBlocks, hread, List.filter_eq_self]
  intro block hblock
  obtain ⟨n, -, rfl⟩ := List.mem_map.mp hblock
  exact chain.header_isSome n

theorem Mirrors.sees (h : Mirrors chain v db) (hfits : v.Fits) {heads : Heads}
    (hlow : -1 ≤ heads.fullNodeBlock.toInt) (hhigh : heads.fullNodeBlock.toInt < 2 ^ 63 - 99) :
    (nodeState heads db).Sees v :=
  ⟨hfits, h.dbLatestBlock_eq hfits heads, hlow, hhigh⟩

/-- When a solidity run asks for anything. -/
theorem Mirrors.solidity_check (h : Mirrors chain v db) {heads : Heads}
    (hsees : (nodeState heads db).Sees v) :
    solidityNodePreSynchronisationChecker (nodeState heads db) = true ↔
      ¬(heads.fullNodeBlock.toInt - v.latest > 100 ∨ v.latest - v.unconfirmed ≤ 0) := by
  have hfits := hsees.fits
  have htoSync : _ = heads.fullNodeBlock.toInt - v.latest := hsees.toSync_eq
  have hconfirm : (nodeState heads db).solidityBlocksToSync.toInt = v.latest - v.unconfirmed := by
    have hlatest := hsees.latest
    have hunconfirmed := h.dbUnconfirmedBlock_eq hfits heads
    rw [View.Fits] at hfits
    rw [NodeState.solidityBlocksToSync]
    rcases v.unconfirmed_spec with ⟨hu, -⟩ | ⟨u, hu, hlt, -⟩ <;>
    · rw [toInt_sub_of_range, hlatest, hunconfirmed] <;>
      · rw [hlatest, hunconfirmed, View.latest, hu]
        omega
  have hfar : (nodeState heads db).fullNodeBlocksToSync > 100 ↔
      heads.fullNodeBlock.toInt - v.latest > 100 := by
    rw [← htoSync]
    exact Int64.lt_iff_toInt_lt
  have hwork : (nodeState heads db).solidityBlocksToSync > 0 ↔ 0 < v.latest - v.unconfirmed := by
    rw [← hconfirm]
    exact Int64.lt_iff_toInt_lt
  rw [solidityNodePreSynchronisationChecker]
  by_cases hbehind : (nodeState heads db).fullNodeBlocksToSync > 100
  · rw [if_pos hbehind]
    exact iff_of_false Bool.false_ne_true fun hnot => hnot (.inl (hfar.mp hbehind))
  · rw [if_neg hbehind, decide_eq_true_eq, hwork, not_or, not_le, ← hfar]
    exact (and_iff_right hbehind).symm

theorem Mirrors.soliditySyncToBlock_eq (h : Mirrors chain v db) (hfits : v.Fits) (heads : Heads) :
    (nodeState heads db).soliditySyncToBlock.toInt = min v.latest heads.solidityBlock.toInt := by
  rw [soliditySyncToBlock_toInt, h.dbLatestBlock_eq hfits, min_comm]
  rfl

/-- When what it asks for can be counted. -/
theorem Mirrors.isCountable_iff (h : Mirrors chain v db) (hfits : v.Fits) (heads : Heads) :
    isCountable (nodeState heads db).dbUnconfirmedBlock
        (nodeState heads db).soliditySyncToBlock = true ↔
      min v.latest heads.solidityBlock.toInt - v.unconfirmed < 2147483647 := by
  rw [isCountable, h.soliditySyncToBlock_eq hfits, h.dbUnconfirmedBlock_eq hfits,
    decide_eq_true_eq]

theorem Mirrors.buildSolidityBlockSource_eq (h : Mirrors chain v db) {node : SolidityNode}
    {heads : Heads} (hfits : v.Fits) {u : ℕ} (hu : v.unconfirmed = u)
    (hcount : min v.latest heads.solidityBlock.toInt - v.unconfirmed < 2147483647)
    (hserved : ∀ n block, (chain.upTo heads.solidityBlock.toInt).read n = some block →
      node.getBlockByNum n = some block) :
    buildSolidityBlockSource node (nodeState heads db) =
      (v.asked u heads.solidityBlock.toInt).map chain.block := by
  rw [buildSolidityBlockSource, if_pos ((h.isCountable_iff hfits heads).mpr hcount),
    h.soliditySyncToBlock_eq hfits, h.dbUnconfirmedBlock_eq hfits, hu]
  exact readSolidityBlocks_of_served hserved

theorem Mirrors.flatMap_confirmed (h : Mirrors chain v db)
    (hall : ∀ n : ℕ, n < v.height → v.confirmed n = true) (blocks : List Block) :
    blocks.flatMap (fun block => solidityBlockQueries block (findByNumber block.number db)) = [] := by
  have hrows : ∀ row ∈ db.blocks, row.confirmed = true := by
    intro row hrow
    rw [h.blocks_eq] at hrow
    obtain ⟨n, hn, rfl⟩ := List.mem_map.mp hrow
    exact hall n (List.mem_range.mp hn)
  exact List.flatMap_eq_nil_iff.mpr fun block _ => solidityBlockQueries_confirmed hrows block _

/-- A solidity run confirms up to its head, if there is more than one block left to
    confirm and the explorer is not far behind. -/
theorem Mirrors.exec_solidity (h : Mirrors chain v db) {node : SolidityNode} {heads : Heads}
    (hsees : (nodeState heads db).Sees v)
    (hserved : ∀ n block, (chain.upTo heads.solidityBlock.toInt).read n = some block →
      node.getBlockByNum n = some block) :
    ∃ u, execQueries ((solidityStream node (nodeState heads db)).flatMap fun block =>
        solidityBlockQueries block (findByNumber block.number db)) db = some u ∧
      Mirrors chain (v.step (.solidity heads.fullNodeBlock.toInt heads.solidityBlock.toInt)) u := by
  have hcheck := h.solidity_check hsees
  rw [solidityStream]
  by_cases hrun : heads.fullNodeBlock.toInt - v.latest > 100 ∨ v.latest - v.unconfirmed ≤ 0
  · rw [if_neg (fun hchecked => hcheck.mp hchecked hrun), View.step,
      if_pos (or_assoc.mp (.inl hrun))]
    exact ⟨db, rfl, h⟩
  rw [if_pos (hcheck.mpr hrun), View.step]
  by_cases hcount : min v.latest heads.solidityBlock.toInt - v.unconfirmed < 2147483647
  · rw [if_neg fun hor => (or_assoc.mpr hor).elim hrun (not_le.mpr hcount)]
    rcases v.unconfirmed_spec with ⟨-, hall⟩ | ⟨k, hk, hlt, -, hbelow⟩
    · rw [h.flatMap_confirmed hall]
      exact ⟨db, rfl, h.congr fun n hn => by rw [hall n hn, Bool.true_or]⟩
    · rw [h.buildSolidityBlockSource_eq hsees.fits hk hcount hserved]
      obtain ⟨u, hu, hmirror⟩ := h.exec_confirms (v.asked k heads.solidityBlock.toInt)
        (fun n hn => (v.mem_asked.mp hn).2.1) (fun n hn => hn) h
      refine ⟨u, hu, hmirror.congr fun n hn => ?_⟩
      -- What is below the first unconfirmed block is confirmed anyway.
      rw [Bool.eq_iff_iff]
      simp only [Bool.or_eq_true, List.any_eq_true, decide_eq_true_eq, v.mem_asked]
      constructor
      · rintro (hconfirmed | ⟨m, ⟨-, -, hm⟩, heq⟩)
        · exact .inl hconfirmed
        · exact .inr (by omega)
      · rintro (hconfirmed | hhead)
        · exact .inl hconfirmed
        · by_cases hn' : n < k
          · exact .inl (hbelow n hn')
          · exact .inr ⟨n, ⟨by omega, hn, hhead⟩, rfl⟩
  · -- The source fails before its first block.
    rw [if_pos (.inr (.inr (not_lt.mp hcount))), buildSolidityBlockSource,
      if_neg (mt (h.isCountable_iff hsees.fits heads).mp hcount)]
    exact ⟨db, rfl, h⟩

/-- What a run makes of the database is what the abstract machine makes of the view. -/
theorem Mirrors.exec_run (h : Mirrors chain v db) (hfits : v.Fits) (hreads : run.Reads chain db) :
    ∃ u, execQueries (run.queries db) db = some u ∧ Mirrors chain (v.step (run.observed db)) u := by
  obtain ⟨heads, hstatus⟩ := hreads.status
  have hserved := hreads.served
  have hlow := hreads.low
  have hhigh := hreads.high
  rw [hstatus] at hlow hhigh
  have hsees := h.sees hfits hlow hhigh
  rw [ImportTick.queries, ImportRun.observed, ImportTick.blocks]
  cases run.action db with
  | none => exact ⟨db, rfl, h⟩
  | some action =>
      cases hsource : run.source with
      | fullNode node =>
          rw [hsource] at hserved
          rw [hstatus] at hserved ⊢
          exact h.exec_full hsees hserved action.confirmBlocks
      | solidity node =>
          rw [hsource] at hserved
          rw [hstatus] at hserved ⊢
          exact h.exec_solidity hsees hserved

omit [Codec] in
theorem View.fits_empty : View.empty.Fits := Nat.two_pow_pos 63

/-- A run does not get past its head. -/
theorem View.Fits.step (hfits : v.Fits) (hreads : run.Reads chain db) :
    (v.step (run.observed db)).Fits := by
  have hhigh := hreads.high
  rw [View.Fits] at hfits ⊢
  rw [ImportRun.observed]
  cases run.action db with
  | none => exact hfits
  | some action =>
      cases run.source with
      | fullNode node =>
          show max v.height (v.target run.status.fullNodeBlock.toInt) < 2 ^ 63
          rw [View.target]
          split <;> omega
      | solidity node =>
          simp only [View.step]
          split <;> exact hfits

theorem mirrors_step {s t : History} (h : Mirrors chain v s.db ∧ v.Fits)
    (hfollows : run.Follows chain s.db) (hstep : historyStep s run = some t) :
    Mirrors chain (v.step (run.observed s.db)) t.db ∧ (v.step (run.observed s.db)).Fits := by
  obtain ⟨u, hu, hmirror⟩ := h.1.exec_run h.2 hfollows.toReads
  rw [db_of_exec hfollows.commits hu hstep]
  exact ⟨hmirror, h.2.step hfollows.toReads⟩

/-- Whatever runs there were, the database is a view of the chain, and which view it is
    depends on nothing but the heads that the runs were told of. -/
theorem history_mirrors (chain : Blockchain) {runs : List ImportRun} {s : History}
    (hfollows : Lib.Along historyStep (fun s run => run.Follows chain s.db) History.empty runs)
    (hrun : Lib.runFrom historyStep History.empty runs = some s) :
    Mirrors chain ((Lib.observations historyStep (fun s run => run.observed s.db) History.empty
      runs).foldl View.step View.empty) s.db :=
  (Lib.simulation_along (R := fun v s => Mirrors chain v s.db ∧ v.Fits)
    (fun _ _ _ _ => mirrors_step) ⟨mirrors_empty, View.fits_empty⟩ hfollows hrun).1

end Runs

/-- A chain with one transfer, in block 1. -/
def transferAt (n : ℕ) : Block := if n = 1 then transferBlock 1 else emptyBlock n

theorem transferAt_transactions (n : ℕ) :
    (transferAt n).transactions = if n = 1 then [exampleTransaction] else [] := by
  rw [transferAt]
  split <;> rfl

theorem transferAt_number (n : ℕ) : (transferAt n).number = n := by
  rw [transferAt]
  split
  · rename_i hn
    rw [hn]
    rfl
  · rfl

theorem transferAt_readable (n : ℕ) : @Block.Readable exampleCodec (transferAt n) := by
  rw [transferAt]
  split
  · decide
  · exact @readable_of_nil exampleCodec _ rfl

theorem flatMap_transferAt (k : ℕ) :
    ((List.range k).flatMap fun n => (transferAt n).transactions) =
      if 1 < k then [exampleTransaction] else [] := by
  induction k with
  | zero => rfl
  | succ k ih =>
      rw [List.range_succ, List.flatMap_append, ih, List.flatMap_singleton,
        transferAt_transactions]
      rcases Nat.lt_trichotomy k 1 with hk | rfl | hk
      · simp only [if_neg (show ¬1 < k by omega), if_neg (show ¬1 < k + 1 by omega),
          if_neg hk.ne, List.append_nil]
      · rfl
      · simp only [if_pos hk, if_pos (show 1 < k + 1 by omega), if_neg hk.ne', List.append_nil]

/-- The chain of the transfers, as a blockchain. -/
def transferChain : @Blockchain exampleCodec :=
  let _ := exampleCodec
  { block := transferAt
    header_isSome := fun n => by
      rw [transferAt]
      split <;> rfl
    number_eq := transferAt_number
    readable := transferAt_readable
    hashes_nodup := fun k => by
      rw [flatMap_transferAt]
      split
      · exact List.nodup_singleton _
      · exact List.nodup_nil }

/-- A node that has the chain up to block 5. The solidity node is at block 2. -/
def transferNode : FullNode := (@Blockchain.upTo exampleCodec transferChain 5).fullNode false

/-- Six blocks, of which three are confirmed. -/
def transferHeads : Heads := { fullNodeBlock := 5, solidityBlock := 2 }

/-- A run from a database, its queries in one batch. -/
def transferRun (source : BlockSource) (db : Database) : ImportRun where
  status := nodeState transferHeads db
  node := transferNode
  source := source
  fired := []
  commits := [true]

/-- The head is in range. -/
theorem transferRun_low (source : BlockSource) (db : Database) :
    -1 ≤ (transferRun source db).status.fullNodeBlock.toInt :=
  show -1 ≤ transferHeads.fullNodeBlock.toInt by decide

theorem transferRun_high (source : BlockSource) (db : Database) :
    (transferRun source db).status.fullNodeBlock.toInt < 2 ^ 63 - 99 :=
  show transferHeads.fullNodeBlock.toInt < 2 ^ 63 - 99 by decide

/-- A run of the full node importer. -/
def fullRun : Database → ImportRun := transferRun (.fullNode transferNode)

/-- A run of the solidity importer. -/
def solidityRun : Database → ImportRun := transferRun (.solidity ⟨transferNode.getBlockByNum⟩)

theorem fullRun_follows {db : Database}
    (hcommits : ∀ batch ∈ @ImportRun.batches exampleCodec (fullRun db) db, batch.2 = true) :
    @ImportRun.Follows exampleCodec (fullRun db) transferChain db :=
  @ImportRun.Follows.mk exampleCodec _ _ _
    (@ImportRun.Reads.mk exampleCodec _ _ _ ⟨transferHeads, rfl⟩ (transferRun_low _ _)
      (transferRun_high _ _) (servedBy_fullNode _)) hcommits

theorem solidityRun_follows {db : Database}
    (hcommits : ∀ batch ∈ @ImportRun.batches exampleCodec (solidityRun db) db, batch.2 = true) :
    @ImportRun.Follows exampleCodec (solidityRun db) transferChain db := by
  refine @ImportRun.Follows.mk exampleCodec _ _ _
    (@ImportRun.Reads.mk exampleCodec _ _ _ ⟨transferHeads, rfl⟩ (transferRun_low _ _)
      (transferRun_high _ _) ?_) hcommits
  intro n block hread
  obtain ⟨hn, hblock⟩ := Option.ite_none_right_eq_some.mp hread
  replace hn : 0 ≤ n ∧ n ≤ 2 := hn
  have hnode : (@Blockchain.upTo exampleCodec transferChain 5).read n = some block := by
    rw [← hblock]
    exact if_pos (by omega)
  exact congrArg (fun answer : Option Block => some (answer.getD {})) hnode

/-- What the full node run leaves. -/
def fullRunDatabase : Database :=
  ((@historyStep exampleCodec History.empty (fullRun Database.empty)).getD History.empty).db

/-- Blocks 0 to 3 are there then, the first three of them confirmed. -/
theorem history_mirrors_transfer : ∃ (v : View) (s : History),
    Lib.runFrom (@historyStep exampleCodec) History.empty
      [fullRun Database.empty, solidityRun fullRunDatabase] = some s ∧
    v.height = 4 ∧ (List.range 4).map (fun n => v.confirmed n) = [true, true, true, false] ∧
    @Mirrors exampleCodec transferChain v s.db := by
  let _ := exampleCodec
  have hfollows : Lib.Along historyStep (fun s run => run.Follows transferChain s.db)
      History.empty [fullRun Database.empty, solidityRun fullRunDatabase] := by
    refine ⟨fullRun_follows (by decide), fun t ht => ?_⟩
    cases ht
    exact ⟨solidityRun_follows (by decide), fun _ _ => trivial⟩
  exact ⟨_, _, rfl, by decide, by decide, history_mirrors transferChain hfollows rfl⟩

end Tronscan
