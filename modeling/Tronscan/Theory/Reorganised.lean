import Tronscan.Importer.SideBySide
import Tronscan.Core.Wire
import Mathlib.Data.List.Flatten

/-!
# Transactions That Come Back

When the full node changes to another branch, the rows of the abandoned blocks
stay until the solidity importer replaces them. A transaction of an abandoned
block can be in a later block of the new branch. The full node importer inserts
it under a hash that is taken, and the whole batch fails.

There are two more ways for a hash to be taken, since the runs are side by side.
Another full node run may be about to insert the transaction. And a solidity run
may write it between two batches of the full node run that has it, the block
being stored already.

So what matters of a state is which hashes are stored and which are waiting to be
inserted by some run. As long as no hash is both, or waiting twice, every insert
finds its hash free, in whichever order the batches come and whichever of them
fail.

## Main definitions

* `InsertsFresh`: Every insert of a batch has a free hash where it is reached.
* `ImportersEvent.Fresh`: So does every insert of the batch of an event.
* `Importers.waiting`: The hashes that are waiting to be inserted.
* `ImportTick.ServesChain`: A run that reads a chain with distinct transactions.
* `ImportersEvent.NoneReappears`: The condition on an event.
* `HashesFree`: The invariant.

## Theorems

* `waiting_set`: The hashes that are waiting after a run has gone on.
* `hashesFree_start_iff`: Setting up a run keeps the invariant exactly when none of its
  transactions is stored or waiting.
* `hashesFree_step`: Each event keeps it.
* `fresh_of_noneReappears`: All the inserts of any runs side by side.
* `not_survivesReorganisation_returned`: A transaction that comes back.
-/

namespace Tronscan

open BlockImporter

/-- Every transaction a batch inserts has a hash that no row has where the insert
    is reached. -/
def InsertsFresh (batch : List Query) (db : Database) : Prop :=
  ∀ earlier row later, batch = earlier ++ .insertTransaction row :: later →
    ∀ r ∈ db.transactions ++ earlier.filterMap Query.transactionRow, r.hash ≠ row.hash

/-- The hashes of the transactions that queries insert. -/
def insertedHashes (qs : List Query) : List String :=
  (qs.filterMap Query.transactionRow).map (·.hash)

/-- The hashes of the transactions that queries upsert. -/
def upsertedHashes (qs : List Query) : List String :=
  qs.filterMap fun
    | .upsertTransaction row => some row.hash
    | _ => none

theorem insertedHashes_append (ps qs : List Query) :
    insertedHashes (ps ++ qs) = insertedHashes ps ++ insertedHashes qs := by
  rw [insertedHashes, List.filterMap_append, List.map_append]
  rfl

theorem mem_insertedHashes {qs : List Query} {row : TransactionModel}
    (h : .insertTransaction row ∈ qs) : row.hash ∈ insertedHashes qs :=
  List.mem_map_of_mem (Query.mem_transactionRow.mpr h)

theorem mem_upsertedHashes {qs : List Query} {row : TransactionModel}
    (h : .upsertTransaction row ∈ qs) : row.hash ∈ upsertedHashes qs :=
  List.mem_filterMap.mpr ⟨_, h, rfl⟩

/-- The hashes that the runs have still to insert. -/
def Importers.waiting (s : Importers) : List String :=
  s.runs.flatMap fun run => insertedHashes run.pending

/-- Where the next batch of a run is taken, its inserts have free hashes. -/
def ImportersEvent.Fresh (s : Importers) : ImportersEvent → Prop
  | .commit r size | .fail r size => ∀ run ∈ s.runs[r]?, InsertsFresh (run.batch size) s.db
  | _ => True

variable [Codec]

/-- Each block builds on the one before it. -/
def HashLinked (blocks : List Block) : Prop :=
  blocks.IsChain fun parent block =>
    block.number = parent.number + 1 ∧ block.parentHash = parent.hashBytes

instance (blocks : List Block) : Decidable (HashLinked blocks) :=
  inferInstanceAs (Decidable (blocks.IsChain _))

/-- The transactions of a list of blocks, by their hashes. -/
def transactionHashes (blocks : List Block) : List String :=
  (blocks.flatMap Block.transactions).map Transaction.hash

theorem transactionHashes_cons (block : Block) (blocks : List Block) :
    transactionHashes (block :: blocks) =
      block.transactions.map Transaction.hash ++ transactionHashes blocks := by
  rw [transactionHashes, List.flatMap_cons, List.map_append]
  rfl

namespace ImportTick

variable (db : Database) (tick : ImportTick)

/-- The source of the run is a full node. -/
def IsFullNode : Prop := ∃ node, tick.source = .fullNode node

instance instDecidableIsFullNode : Decidable tick.IsFullNode :=
  match h : tick.source with
  | .fullNode node => isTrue ⟨node, h⟩
  | .solidity _ => isFalse fun ⟨_, hnode⟩ => by
      rw [h] at hnode
      cases hnode

/-- The run reads the state of the database, and a full node serves it a chain
    with pairwise distinct transactions. -/
structure ServesChain : Prop where
  status_eq : tick.status = nodeState tick.status.heads db
  linked : tick.IsFullNode → HashLinked (tick.blocks db)
  distinct : tick.IsFullNode → (transactionHashes (tick.blocks db)).Nodup

instance instDecidableServesChain : Decidable (tick.ServesChain db) :=
  decidable_of_iff (tick.status = nodeState tick.status.heads db ∧
      (tick.IsFullNode → HashLinked (tick.blocks db)) ∧
      (tick.IsFullNode → (transactionHashes (tick.blocks db)).Nodup))
    ⟨fun h => ⟨h.1, h.2.1, h.2.2⟩, fun h => ⟨h.status_eq, h.linked, h.distinct⟩⟩

/-- No transaction of a block that a full node run is about to import is stored, or is
    waiting to be inserted by another run. -/
def NoneReappears (s : Importers) : Prop :=
  tick.IsFullNode → ∀ block ∈ tick.blocks s.db, block.Readable → ∀ trx ∈ block.transactions,
    (∀ r ∈ s.db.transactions, r.hash ≠ trx.hash) ∧ trx.hash ∉ s.waiting

instance instDecidableNoneReappears (s : Importers) : Decidable (tick.NoneReappears s) :=
  inferInstanceAs (Decidable (tick.IsFullNode → ∀ block ∈ tick.blocks s.db, block.Readable →
    ∀ trx ∈ block.transactions,
      (∀ r ∈ s.db.transactions, r.hash ≠ trx.hash) ∧ trx.hash ∉ s.waiting))

end ImportTick

namespace ImportersEvent

/-- A run that is set up is served a chain. -/
def ServesChain (s : Importers) : ImportersEvent → Prop
  | .start tick => tick.ServesChain s.db
  | _ => True

/-- A run that is set up has none of its transactions stored or waiting, and a batch that
    commits upserts none that is waiting. -/
def NoneReappears (s : Importers) : ImportersEvent → Prop
  | .start tick => tick.NoneReappears s
  | .commit r size => ∀ run ∈ s.runs[r]?, ∀ hash ∈ upsertedHashes (run.batch size),
      hash ∉ s.waiting
  | _ => True

instance instDecidableServesChain (s : Importers) : ∀ e, Decidable (ServesChain s e)
  | .start tick => inferInstanceAs (Decidable (tick.ServesChain s.db))
  | .lookup _ _ | .emit _ | .commit _ _ | .fail _ _ => isTrue trivial

instance instDecidableNoneReappears (s : Importers) : ∀ e, Decidable (NoneReappears s e)
  | .start tick => inferInstanceAs (Decidable (tick.NoneReappears s))
  | .commit r size => inferInstanceAs (Decidable (∀ run ∈ s.runs[r]?,
      ∀ hash ∈ upsertedHashes (run.batch size), hash ∉ s.waiting))
  | .lookup _ _ | .emit _ | .fail _ _ => isTrue trivial

end ImportersEvent

section Hashes

variable {db : Database} {tick : ImportTick}

/-- The queries of a full node run are those for the blocks it reads. -/
theorem queries_fullNode (hrun : tick.IsFullNode) :
    ∃ c, tick.queries db = fullNodeQueries c (tick.blocks db) := by
  rcases hrun with ⟨node, hnode⟩
  rw [ImportTick.queries, hnode]
  cases haction : tick.action db with
  | none =>
      refine ⟨false, ?_⟩
      rw [ImportTick.blocks, haction]
      rfl
  | some action => exact ⟨action.confirmBlocks, rfl⟩

/-- The transactions the importer inserts are those of the blocks it can read, in
    order. -/
theorem transactionRows_hash (c : Bool) (blocks : List Block) :
    ((fullNodeQueries c blocks).filterMap Query.transactionRow).map (·.hash) =
      transactionHashes (blocks.filter fun block => decide block.Readable) := by
  induction blocks with
  | nil => rfl
  | cons block blocks ih =>
      have hcons : fullNodeQueries c (block :: blocks) =
          emitted (fullNodeBlockQueries c block) ++ fullNodeQueries c blocks :=
        List.flatMap_cons
      rw [hcons, List.filterMap_append, List.map_append, ih, fullNodeBlockQueries_eq]
      cases he : extract block with
      | error err =>
          -- A block that throws is dropped with all its transactions.
          have hno : ¬ block.Readable := by
            rw [← extract_ok_iff, he]
            rintro ⟨e, h⟩
            cases h
          rw [List.filter_cons_of_neg (by rwa [decide_eq_true_eq])]
          rfl
      | ok e =>
          have hyes : block.Readable := extract_ok_iff.mp ⟨e, he⟩
          rw [List.filter_cons_of_pos (by rwa [decide_eq_true_eq]), transactionHashes_cons,
            ← (extract_sound he).transactions_hash]
          refine congrArg (· ++ _) ?_
          exact (congrArg _ (e.fullNodeQueries_rows c).2.1).trans (List.map_map ..)

/-- A run that is set up has the transactions of the blocks it can read to insert, if it is
    a full node run. -/
theorem insertedHashes_underWay :
    insertedHashes (tick.underWay db).pending =
      if tick.IsFullNode then
        transactionHashes ((tick.blocks db).filter fun block => decide block.Readable)
      else [] := by
  cases hsource : tick.source with
  | fullNode node =>
      have hfull : tick.IsFullNode := ⟨node, hsource⟩
      rcases @queries_fullNode _ db _ hfull with ⟨c, hqueries⟩
      have hpending : (tick.underWay db).pending = tick.queries db := by
        simp only [ImportTick.underWay, hsource]
      rw [if_pos hfull, hpending, hqueries]
      exact transactionRows_hash c (tick.blocks db)
  | solidity node =>
      have hnot : ¬ tick.IsFullNode := by
        rintro ⟨_, hnode⟩
        rw [hsource] at hnode
        cases hnode
      have hpending : (tick.underWay db).pending = [] := by
        simp only [ImportTick.underWay, hsource]
      rw [if_neg hnot, hpending]
      rfl

theorem mem_insertedHashes_underWay {hash : String} :
    hash ∈ insertedHashes (tick.underWay db).pending ↔
      tick.IsFullNode ∧ ∃ block ∈ tick.blocks db, block.Readable ∧
        ∃ trx ∈ block.transactions, trx.hash = hash := by
  rw [insertedHashes_underWay]
  split
  · rename_i hfull
    rw [transactionHashes, List.mem_map]
    simp only [List.mem_flatMap, List.mem_filter, decide_eq_true_eq]
    constructor
    · rintro ⟨trx, ⟨block, ⟨hblock, hreadable⟩, htrx⟩, hhash⟩
      exact ⟨hfull, block, hblock, hreadable, trx, htrx, hhash⟩
    · rintro ⟨_, block, hblock, hreadable, trx, htrx, hhash⟩
      exact ⟨trx, ⟨block, ⟨hblock, hreadable⟩, htrx⟩, hhash⟩
  · rename_i hnot
    exact iff_of_false List.not_mem_nil fun h => hnot h.1

end Hashes

/-- No hash is stored and waiting to be inserted, or waiting twice. -/
structure HashesFree (s : Importers) : Prop where
  distinct : s.waiting.Nodup
  free : ∀ r ∈ s.db.transactions, r.hash ∉ s.waiting

section Invariant

variable {s t : Importers} {r size : Nat} {run : RunUnderWay} {tick : ImportTick}

omit [Codec] in
/-- What is waiting of the other runs is so whatever becomes of one of them. -/
theorem waiting_set (hrun : s.runs[r]? = some run) :
    ∃ before after, s.waiting = before ++ insertedHashes run.pending ++ after ∧
      ∀ (t : Importers) (new : RunUnderWay), t.runs = s.runs.set r new →
        t.waiting = before ++ insertedHashes new.pending ++ after := by
  rcases List.getElem?_eq_some_iff.mp hrun with ⟨hr, hget⟩
  have hset : ∀ (t : Importers) (new : RunUnderWay), t.runs = s.runs.set r new →
      t.waiting = (s.runs.take r).flatMap (fun run => insertedHashes run.pending) ++
        insertedHashes new.pending ++
        (s.runs.drop (r + 1)).flatMap fun run => insertedHashes run.pending := by
    intro t new hruns
    rw [Importers.waiting, hruns, List.set_eq_take_append_cons_drop, if_pos hr,
      List.flatMap_append, List.flatMap_cons, List.append_assoc]
  refine ⟨_, _, hset s run ?_, hset⟩
  rw [← hget, List.set_getElem_self]

/-- Setting up a run that is served a chain keeps the invariant exactly when none of its
    transactions is stored or waiting. -/
theorem hashesFree_start_iff (hI : HashesFree s) (hchain : tick.ServesChain s.db)
    (h : importersStep s (.start tick) = some t) : HashesFree t ↔ tick.NoneReappears s := by
  have ht := importersStep_start h
  have hwaiting : t.waiting = s.waiting ++ insertedHashes (tick.underWay s.db).pending := by
    rw [Importers.waiting, ht, List.flatMap_append, List.flatMap_singleton]
    rfl
  constructor
  · intro hfree hfull block hblock hreadable trx htrx
    have hmem : trx.hash ∈ insertedHashes (tick.underWay s.db).pending :=
      mem_insertedHashes_underWay.mpr ⟨hfull, block, hblock, hreadable, trx, htrx, rfl⟩
    have hdistinct := hfree.distinct
    rw [hwaiting, List.nodup_append] at hdistinct
    refine ⟨fun row hrow hhash => ?_, fun hold => hdistinct.2.2 _ hold _ hmem rfl⟩
    refine hfree.free row (by rwa [ht]) ?_
    rw [hwaiting, hhash]
    exact List.mem_append_right _ hmem
  · intro hnone
    have hnew : ∀ hash ∈ insertedHashes (tick.underWay s.db).pending,
        (∀ row ∈ s.db.transactions, row.hash ≠ hash) ∧ hash ∉ s.waiting := by
      intro hash hhash
      rcases mem_insertedHashes_underWay.mp hhash with
        ⟨hfull, block, hblock, hreadable, trx, htrx, rfl⟩
      exact hnone hfull block hblock hreadable trx htrx
    constructor
    · rw [hwaiting, List.nodup_append]
      refine ⟨hI.distinct, ?_, fun hash hold hash' hhash' hsame => ?_⟩
      · -- The transactions of a chain are distinct, and so are those of a part of it.
        rw [insertedHashes_underWay]
        split
        · rename_i hfull
          exact (hchain.distinct hfull).sublist ((List.filter_sublist.flatMap _).map _)
        · exact List.nodup_nil
      · exact (hnew hash' hhash').2 (hsame ▸ hold)
    · intro row hrow hmem
      rw [ht] at hrow
      rw [hwaiting] at hmem
      rcases List.mem_append.mp hmem with hold | hmem
      · exact hI.free row hrow hold
      · exact (hnew _ hmem).1 row hrow rfl

omit [Codec] in
/-- A run that goes on without writing anything keeps it, if it has no more to insert than
    it had. -/
theorem hashesFree_set (hI : HashesFree s) (hrun : s.runs[r]? = some run) {new : RunUnderWay}
    (hnew : (insertedHashes new.pending).Sublist (insertedHashes run.pending))
    (hdb : t.db = s.db) (hruns : t.runs = s.runs.set r new) : HashesFree t := by
  rcases waiting_set hrun with ⟨before, after, hwaiting, hset⟩
  have hsublist : t.waiting.Sublist s.waiting := by
    rw [hwaiting, hset t new hruns]
    exact ((List.Sublist.refl before).append hnew).append (List.Sublist.refl after)
  refine ⟨hI.distinct.sublist hsublist, fun row hrow hmem => ?_⟩
  rw [hdb] at hrow
  exact hI.free row hrow (hsublist.mem hmem)

omit [Codec] in
/-- What is left of a run after a batch is part of what there was. -/
theorem insertedHashes_drop (run : RunUnderWay) (size : Nat) :
    insertedHashes run.pending =
      insertedHashes (run.batch size) ++ insertedHashes (run.drop size).pending := by
  rw [← insertedHashes_append, batch_append_drop]

omit [Codec] in
/-- The hashes that a batch stores are waiting no more, or never were. -/
theorem hashesFree_commit (hI : HashesFree s) (hrun : s.runs[r]? = some run)
    (hnone : ∀ hash ∈ upsertedHashes (run.batch size), hash ∉ s.waiting)
    (hexec : execQueries (run.batch size) s.db = some t.db)
    (hruns : t.runs = s.runs.set r (run.drop size)) : HashesFree t := by
  rcases waiting_set hrun with ⟨before, after, hwaiting, hset⟩
  have hdistinct := hI.distinct
  rw [insertedHashes_drop run size] at hwaiting
  rw [hwaiting] at hdistinct
  have hnew := hset t _ hruns
  have hsublist : t.waiting.Sublist s.waiting := by
    rw [hwaiting, hnew]
    exact ((List.Sublist.refl before).append (List.sublist_append_right _ _)).append
      (List.Sublist.refl after)
  refine ⟨hI.distinct.sublist hsublist, fun row hrow hmem => ?_⟩
  rcases transaction_of_exec hexec hrow with ⟨old, hold, hhash⟩ | ⟨old, hold | hold, hhash⟩
  · exact hI.free old hold (hsublist.mem (hhash ▸ hmem))
  · -- What the batch inserts is not waiting a second time.
    have hbatch := mem_insertedHashes hold
    rw [hhash] at hbatch
    rw [hnew] at hmem
    simp only [List.nodup_append, List.mem_append] at hdistinct hmem
    rcases hmem with (hmem | hmem) | hmem
    · exact hdistinct.1.2.2 _ hmem _ (Or.inl hbatch) rfl
    · exact hdistinct.1.2.1.2.2 _ hbatch _ hmem rfl
    · exact hdistinct.2.2 _ (Or.inr (Or.inl hbatch)) _ hmem rfl
  · exact hnone _ (mem_upsertedHashes hold) (hsublist.mem (hhash ▸ hmem))

/-- Each event that meets the condition keeps the invariant. -/
theorem hashesFree_step {e : ImportersEvent} (hI : HashesFree s)
    (he : e.ServesChain s ∧ e.NoneReappears s) (h : importersStep s e = some t) :
    HashesFree t := by
  cases e with
  | start tick => exact (hashesFree_start_iff hI he.1 h).mpr he.2
  | lookup r i =>
      rcases importersStep_lookup h with ⟨run, block, hrun, _, rfl⟩
      refine hashesFree_set hI hrun ?_ rfl rfl
      exact List.Sublist.refl (insertedHashes run.pending)
  | emit r =>
      rcases importersStep_emit h with ⟨run, block, row, rest, hrun, _, rfl⟩
      refine hashesFree_set hI hrun ?_ rfl rfl
      rw [insertedHashes_append, insertedHashes, insertedHashes,
        solidityBlockQueries_transactionRow block row, List.map_nil, List.append_nil]
  | commit r size =>
      rcases importersStep_commit h with ⟨run, hrun, hexec, hruns⟩
      exact hashesFree_commit hI hrun (he.2 run hrun) hexec hruns
  | fail r size =>
      rcases importersStep_fail h with ⟨run, hrun, rfl⟩
      refine hashesFree_set hI hrun ?_ rfl rfl
      rw [insertedHashes_drop run size]
      exact List.sublist_append_right _ _

omit [Codec] in
/-- Under the invariant every insert of a batch has a free hash. -/
theorem insertsFresh_of_hashesFree (hI : HashesFree s) (hrun : s.runs[r]? = some run) :
    InsertsFresh (run.batch size) s.db := by
  intro earlier row later hbatch q hq hhash
  rcases waiting_set hrun with ⟨before, after, hwaiting, _⟩
  have hdistinct := hI.distinct
  rw [insertedHashes_drop run size, hbatch, insertedHashes_append] at hwaiting
  have hrow : row.hash ∈ insertedHashes (.insertTransaction row :: later) :=
    mem_insertedHashes List.mem_cons_self
  rcases List.mem_append.mp hq with hq | hq
  · refine hI.free q hq ?_
    rw [hwaiting, hhash]
    simp only [List.mem_append, hrow, or_true, true_or]
  · -- The other insert is earlier in the batch.
    have hearlier : row.hash ∈ insertedHashes earlier := by
      rw [← hhash]
      exact List.mem_map_of_mem hq
    rw [hwaiting] at hdistinct
    simp only [List.nodup_append, List.mem_append] at hdistinct
    exact hdistinct.1.2.1.1.2.2 _ hearlier _ hrow rfl

end Invariant

omit [Codec] in
theorem hashesFree_empty : HashesFree Importers.empty :=
  ⟨List.nodup_nil, fun _ _ => List.not_mem_nil⟩

/-- Runs of both importers side by side, on chains with distinct transactions: whatever
    the order of their batches and whichever of them fail, every transaction a batch
    inserts has a free hash, if no transaction reappears. -/
theorem fresh_of_noneReappears {events : List ImportersEvent}
    (hchain : Lib.Along importersStep (fun s e => e.ServesChain s) Importers.empty events)
    (hnone : Lib.Along importersStep (fun s e => e.NoneReappears s) Importers.empty events) :
    Lib.Along importersStep (fun s e => e.Fresh s) Importers.empty events := by
  refine Lib.along_of_invariant (fun _ _ _ => hashesFree_step) (fun s e hI _ => ?_) _ events
    hashesFree_empty (Lib.along_and _ events hchain hnone)
  cases e with
  | commit r size => exact fun run hrun => insertsFresh_of_hashesFree hI hrun
  | fail r size => exact fun run hrun => insertsFresh_of_hashesFree hI hrun
  | start tick => trivial
  | lookup r i => trivial
  | emit r => trivial

/-- The property as one would like to have it, whatever comes back. -/
def SurvivesReorganisation : Prop :=
  ∀ events, Lib.Along importersStep (fun s e => e.ServesChain s) Importers.empty events →
    Lib.Along importersStep (fun s e => e.Fresh s) Importers.empty events

omit [Codec]

/-- Two branches on top of block 0. The first has the transfer in block 1, the
    second has the given transactions in block 2. -/
def firstBranch : List Block :=
  [emptyBlock 0, childBlock (emptyBlock 0) 0 [exampleTransaction]]

/-- Two blocks more, the second with the transactions. -/
def secondBranch (transactions : List Transaction) : List Block :=
  let block := childBlock (emptyBlock 0) 1 []
  [emptyBlock 0, block, childBlock block 0 transactions]

/-- What a run is told once the block is the latest. -/
def statusAt (fullNodeBlock : Int64) (latest : Block) : NodeState where
  fullNodeBlock := fullNodeBlock
  solidityBlock := 1
  dbUnconfirmedBlock := 0
  dbLatestBlock := .ofInt latest.number
  fullNodeBlockHash := ""
  solidityBlockHash := ""
  dbBlockHash := @Block.hash exampleCodec latest

/-- A run on the first branch. -/
def firstTick : ImportTick :=
  branchTick (nodeState { fullNodeBlock := 3, solidityBlock := 1 } Database.empty) firstBranch

/-- The node has changed to the second branch, and then come back to the first. The run on
    the second is set up while a batch of the first is still to come, and what it inserts
    is taken when it gets there. A solidity run confirms the first. -/
def sideBySideEvents : List ImportersEvent :=
  [.start firstTick, .commit 0 1,
    .start (branchTick (statusAt 4 (emptyBlock 0)) (secondBranch [])), .commit 0 1000, .fail 1 1000,
    .start
      { status := statusAt 4 (childBlock (emptyBlock 0) 0 [exampleTransaction])
        node := branchNode firstBranch
        source := .solidity ⟨(branchNode firstBranch).getBlockByNum⟩ },
    .lookup 2 1, .lookup 2 0, .emit 2, .emit 2, .commit 2 500]

/-- Runs that overlap, on two branches, and nothing that comes back. -/
theorem fresh_of_noneReappears_overlapping :
    (Lib.runFrom (@importersStep exampleCodec) Importers.empty sideBySideEvents).isSome = true ∧
      Lib.Along (@importersStep exampleCodec) (fun s e => e.Fresh s) Importers.empty
        sideBySideEvents :=
  ⟨by decide +kernel, @fresh_of_noneReappears exampleCodec _ (by decide +kernel) (by decide +kernel)⟩

/-- The node changes to the second branch after the first run. -/
def reorganisedEvents : List ImportersEvent :=
  [.start firstTick, .commit 0 1000,
    .start (branchTick (statusAt 4 (childBlock (emptyBlock 0) 0 [exampleTransaction]))
      (secondBranch [exampleTransaction]))]

/-- The batch inserts a transaction under a hash that is stored. -/
def conflicts (batch : List Query) (db : Database) : Bool :=
  batch.any fun q => q.transactionRow.any fun row => db.transactions.any (·.hash == row.hash)

theorem not_insertsFresh {batch : List Query} {db : Database} (h : conflicts batch db = true) :
    ¬ InsertsFresh batch db := by
  intro hfresh
  rcases List.any_eq_true.mp h with ⟨q, hq, h⟩
  rcases (Option.any_eq_true _ _).mp h with ⟨row, hrow, h⟩
  rcases List.any_eq_true.mp h with ⟨r, hr, hhash⟩
  rw [Query.transactionRow_eq_some.mp hrow] at hq
  rcases List.append_of_mem hq with ⟨earlier, later, hsplit⟩
  exact hfresh earlier row later hsplit r (List.mem_append_left _ hr) (beq_iff_eq.mp hhash)

/-- The transfer of the abandoned block comes back in block 2. -/
theorem not_survivesReorganisation_returned : ¬ @SurvivesReorganisation exampleCodec := by
  intro h
  have hfresh := h (reorganisedEvents ++ [.commit 1 1000]) (by decide +kernel)
  have hstate : (Lib.runFrom (@importersStep exampleCodec) Importers.empty reorganisedEvents).map
      (fun s => s.runs[1]?.map fun run => conflicts (run.batch 1000) s.db) = some (some true) := by
    decide +kernel
  rcases Option.map_eq_some_iff.mp hstate with ⟨s, hrun, hs⟩
  rcases Option.map_eq_some_iff.mp hs with ⟨run, hget, hconflicts⟩
  exact not_insertsFresh hconflicts
    ((Lib.along_iff _ _).mp hfresh reorganisedEvents (.commit 1 1000) [] s rfl hrun run hget)

end Tronscan
