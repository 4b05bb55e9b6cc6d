import Tronscan.Importer.Events
import Tronscan.Importer.System
import Tronscan.Core.Wire
import Mathlib.Data.List.Flatten

/-!
# Events Published Once

Each contract with events, in a block that has been imported and confirmed,
should have had its events published, once each.

The contract types are divided between the two importers on the assumption that
both read every block once: a full node run on importing it, a solidity run on
confirming it. Neither is so. A full node run that confirms what it imports,
because it takes over from the solidity importer or because the database is far
behind, leaves nothing for a solidity run to read. A solidity run reads
everything from the lowest unconfirmed block on, and everything there is when no
block is unconfirmed, and publishes what it reads before it is checked what has
been confirmed. And a block that a solidity run replaces another by may never
have been read by a full node run.

What a run publishes goes out while it reads, and no run waits for the batches of
the one before. So a run that is set up too early reads blocks again, of either
kind, though every batch commits.

A system whose runs do none of this is fine. Each event has been published as
often as a run of its importer has read the block. So the invariant is that no
block is read twice that has events, and that the runs have read what they should
of the blocks that are stored, or waiting to be.

## Main definitions

* `PublishedOnce`: The events of the confirmed blocks have been published once.
* `ImportersEvent.Regular`: The events of the systems the property is about.
* `ImportersEvent.Tidy`: The condition on an event.
* `EventHistory.Published`: How often the events of a block have been published.
* `EventHistory.Accounted`: The block of a row has been read by whom it should.
* `EventInv`: The invariant.

## Theorems

* `published_more`, `published_other`: What a run adds.
* `publishedAsRead_start`: Setting up a run.
* `accounted_start`, `accounted_emit`: The rows that are going to be stored.
* `accounted_commit`: The rows that are stored.
* `eventInv_step`: Each event keeps the invariant.
* `publishedOnce_of_tidy`: All tidy systems.
* `not_alwaysPublishedOnce_takenOver`: A run that takes over.
-/

namespace Tronscan

open BlockImporter BlockChainStreamBuilder ImportStreamFactory ImportersFactory

variable [Codec]

/-- The contract types that have events. -/
def eventTypes : List ContractType := fullNodeEventTypes ++ solidityEventTypes

/-- The block has an event of the types. A vote can be for nobody, and has none then. -/
def Block.HasEvents (types : List ContractType) (block : Block) : Prop :=
  ∃ tc ∈ block.transactionContracts, tc.2.type ∈ types ∧
    (emitted (contractEvents block tc.1 tc.2)).isEmpty = false

instance instDecidableHasEvents (types : List ContractType) (block : Block) :
    Decidable (block.HasEvents types) :=
  inferInstanceAs (Decidable (∃ tc ∈ block.transactionContracts, _ ∧ _))

/-- The numbers of the blocks that queries confirm. -/
def confirmedNumbers (qs : List Query) : List Int :=
  qs.filterMap fun
    | .confirmBlock number => some number
    | _ => none

/-- The block that the next emission of a run puts in the place of another. -/
def RunUnderWay.replacement (run : RunUnderWay) : Option Block :=
  match run.lookups with
  | (block, some (some row)) :: _ =>
      if row.confirmed = false ∧ block.hash ≠ row.hash ∧ block.Readable then some block else none
  | _ => none

namespace EventHistory

variable (s : EventHistory) (types : List ContractType) (block : Block)

/-- The blocks read so far. -/
def read : List Block := s.fullRead ++ s.solidityRead

/-- The block has been read, and the row is its own, up to the flag. -/
structure Stored (row : BlockModel) : Prop where
  read : block ∈ s.read
  readable : block.Readable
  row_eq : (BlockModel.fromProto block).confirm row.confirmed = row

/-- The events of the contracts of the types have been published so many times. -/
def Published (n : Nat) : Prop :=
  ∀ index transaction contract,
    block.transactionContracts[index]? = some (transaction, contract) → contract.type ∈ types →
      eventsAt s.published block index =
        (List.replicate n (emitted (contractEvents block transaction contract))).flatten

end EventHistory

/-- Every contract of a block that is imported and confirmed has had its events
    published once. -/
def PublishedOnce (s : EventHistory) : Prop :=
  ∀ row ∈ s.db.blocks, row.confirmed = true → ∀ block, s.Stored block row →
    ∀ index transaction contract,
      block.transactionContracts[index]? = some (transaction, contract) →
      contract.type ∈ eventTypes →
        (eventsAt s.published block index).Perm (emitted (contractEvents block transaction contract))

/-- Whether the blocks come from the solidity node. -/
def BlockSource.isSolidity : BlockSource → Bool
  | .fullNode _ => false
  | .solidity _ => true

namespace ImportTick

variable (solidityEnabled : Bool) (db : Database) (tick : ImportTick)

/-- A run starts from the state of the nodes and of the database, is a solidity run only
    if these are enabled, and publishes events. -/
structure Regular : Prop where
  status : tick.status = nodeState tick.status.heads db
  enabled : tick.status.solidityEnabled = solidityEnabled
  source : tick.source.isSolidity = true → solidityEnabled = true
  publishes : (tick.action db).all (·.publishEvents) = true

instance instDecidableRegular : Decidable (tick.Regular solidityEnabled db) :=
  decidable_of_iff (_ ∧ _ ∧ _ ∧ _)
    ⟨fun ⟨h₁, h₂, h₃, h₄⟩ => ⟨h₁, h₂, h₃, h₄⟩, fun ⟨h₁, h₂, h₃, h₄⟩ => ⟨h₁, h₂, h₃, h₄⟩⟩

variable (s : EventHistory)

/-- The run confirms the blocks it imports. -/
def Confirms : Prop := (tick.action db).any (·.confirmBlocks) = true

/-- The condition on a run that is set up: a block with events for its importer has not been
    read by a run of that importer before, nor is it read twice, and one with events for the
    other has been read by that if this run confirms it. Blocks with the same hash are the
    same, besides. -/
structure Tidy : Prop where
  distinct : ∀ block ∈ tick.blocks s.db, ∀ block' ∈ s.read ++ tick.blocks s.db,
    block.hash = block'.hash → block = block'
  full : ∀ block ∈ tick.fullNodeBlocks s.db, block.Readable →
    block.HasEvents fullNodeEventTypes →
      block ∉ s.fullRead ∧ (tick.fullNodeBlocks s.db).count block = 1
  solidity : ∀ block ∈ tick.solidityBlocks s.db, block.Readable →
    block.HasEvents solidityEventTypes →
      block ∉ s.solidityRead ∧ (tick.solidityBlocks s.db).count block = 1
  confirms : tick.Confirms s.db → ∀ block ∈ tick.fullNodeBlocks s.db, block.Readable →
    block.HasEvents solidityEventTypes → block ∈ s.solidityRead

instance instDecidableTidy : Decidable (tick.Tidy s) :=
  have : Decidable (tick.Confirms s.db) := inferInstanceAs (Decidable (_ = true))
  decidable_of_iff (_ ∧ _ ∧ _ ∧ _)
    ⟨fun ⟨h₁, h₂, h₃, h₄⟩ => ⟨h₁, h₂, h₃, h₄⟩, fun ⟨h₁, h₂, h₃, h₄⟩ => ⟨h₁, h₂, h₃, h₄⟩⟩

end ImportTick

namespace ImportersEvent

/-- The events of the systems the property is about. No batch fails. -/
def Regular (solidityEnabled : Bool) (s : EventHistory) : ImportersEvent → Prop
  | .start tick => tick.Regular solidityEnabled s.db
  | .fail _ _ => False
  | _ => True

/-- The condition on an event. A solidity run puts in the place of another no block with
    events for the full node importer that this has not read. A batch confirms no block with
    events for the solidity importer that this has not read. -/
def Tidy (s : EventHistory) : ImportersEvent → Prop
  | .start tick => tick.Tidy s
  | .emit r => ∀ run ∈ s.runs[r]?, ∀ block ∈ run.replacement,
      block.HasEvents fullNodeEventTypes → block ∈ s.fullRead
  | .commit r size => ∀ run ∈ s.runs[r]?, ∀ row ∈ s.db.blocks, row.confirmed = false →
      row.number ∈ confirmedNumbers (run.batch size) → ∀ block ∈ s.read, block.hash = row.hash →
        block.HasEvents solidityEventTypes → block ∈ s.solidityRead
  | _ => True

instance instDecidableRegular (solidityEnabled : Bool) (s : EventHistory) :
    ∀ e, Decidable (Regular solidityEnabled s e)
  | .start tick => inferInstanceAs (Decidable (tick.Regular solidityEnabled s.db))
  | .fail _ _ => isFalse id
  | .lookup _ _ | .emit _ | .commit _ _ => isTrue trivial

instance instDecidableTidy (s : EventHistory) : ∀ e, Decidable (Tidy s e)
  | .start tick => inferInstanceAs (Decidable (tick.Tidy s))
  | .emit r => inferInstanceAs (Decidable (∀ run ∈ s.runs[r]?, ∀ block ∈ run.replacement,
      block.HasEvents fullNodeEventTypes → block ∈ s.fullRead))
  | .commit r size => inferInstanceAs (Decidable (∀ run ∈ s.runs[r]?, ∀ row ∈ s.db.blocks,
      row.confirmed = false → row.number ∈ confirmedNumbers (run.batch size) →
        ∀ block ∈ s.read, block.hash = row.hash →
          block.HasEvents solidityEventTypes → block ∈ s.solidityRead))
  | .lookup _ _ | .fail _ _ => isTrue trivial

end ImportersEvent

section Published

variable {s t : EventHistory} {types : List ContractType} {block : Block} {n : Nat}

/-- A block without events has been published as often as one likes. -/
theorem published_of_not_hasEvents (hnone : ¬ block.HasEvents types)
    (h : s.Published types block n) (m : Nat) : s.Published types block m := by
  intro index transaction contract hcontract htype
  have hevents : emitted (contractEvents block transaction contract) = [] := by
    by_contra hsome
    refine hnone ⟨_, List.mem_of_getElem? hcontract, htype, ?_⟩
    rwa [List.isEmpty_eq_false_iff]
  rw [h index transaction contract hcontract htype, hevents]
  simp

/-- A run that publishes the types adds the times it reads the block. -/
theorem published_more {blocks : List Block} (h : s.Published types block n)
    (hnew : t.published = s.published ++ blocks.flatMap (publishContractEvents types)) :
    t.Published types block (n + blocks.count block) := by
  intro index transaction contract hcontract htype
  rw [hnew, eventsAt_append, eventsAt_flatMap, eventsAt_publishContractEvents hcontract,
    if_pos htype, h index transaction contract hcontract htype, List.replicate_add,
    List.flatten_append]

/-- A run that publishes other types adds nothing. -/
theorem published_other {others : List ContractType} {blocks : List Block}
    (h : s.Published types block n) (hothers : ∀ type ∈ types, type ∉ others)
    (hnew : t.published = s.published ++ blocks.flatMap (publishContractEvents others)) :
    t.Published types block n := by
  intro index transaction contract hcontract htype
  -- The contract is not of the types the run lets pass.
  rw [hnew, eventsAt_append, eventsAt_flatMap, eventsAt_publishContractEvents hcontract,
    if_neg (hothers _ htype), ← h index transaction contract hcontract htype]
  simp

end Published

/-- The events have been published as often as their importer has read the block, and a
    block that has any was not read twice. -/
structure EventHistory.PublishedAsRead (s : EventHistory) : Prop where
  distinct : ∀ block ∈ s.read, ∀ block' ∈ s.read, block.hash = block'.hash → block = block'
  full : ∀ block, s.Published fullNodeEventTypes block (s.fullRead.count block)
  solidity : ∀ block, s.Published solidityEventTypes block (s.solidityRead.count block)
  fullOnce : ∀ block ∈ s.fullRead, block.Readable → block.HasEvents fullNodeEventTypes →
    s.fullRead.count block = 1
  solidityOnce : ∀ block ∈ s.solidityRead, block.Readable → block.HasEvents solidityEventTypes →
    s.solidityRead.count block = 1

/-- The block of the row has been read by the importer that its events are left to: by the
    full node importer, and by the solidity importer if the row is confirmed. -/
def EventHistory.Accounted (s : EventHistory) (row : BlockModel) : Prop :=
  ∃ block, s.Stored block row ∧
    (block.HasEvents fullNodeEventTypes → block ∈ s.fullRead) ∧
      (row.confirmed = true → block.HasEvents solidityEventTypes → block ∈ s.solidityRead)

/-- So for the rows that a run has still to insert. A run that can confirm a row has none
    to insert that is not confirmed. -/
structure RunUnderWay.Accounted (s : EventHistory) (run : RunUnderWay) : Prop where
  inserts : ∀ row, .insertBlock row ∈ run.pending → s.Accounted row
  kind : run.lookups = [] ∧ (∀ q ∈ run.pending, q.isImport = true) ∨
    ∀ row, .insertBlock row ∈ run.pending → row.confirmed = true
  lookups : ∀ entry ∈ run.lookups, entry.1 ∈ s.solidityRead

/-- What has been published is what has been read, and the rows that are stored or waiting
    are of blocks that have been read by whom they should. -/
structure EventInv (s : EventHistory) : Prop where
  published : s.PublishedAsRead
  rows : ∀ row ∈ s.db.blocks, s.Accounted row
  runs : ∀ run ∈ s.runs, run.Accounted s

section Invariant

variable {s t : EventHistory} {tick : ImportTick} {run : RunUnderWay} {r i size : Nat}
  {solidityEnabled : Bool} {block : Block} {row : BlockModel}

theorem EventHistory.Stored.hash_eq (h : s.Stored block row) : block.hash = row.hash :=
  congrArg BlockModel.hash h.row_eq

/-- What has been accounted for stays so. -/
theorem accounted_mono (hfull : ∀ block ∈ s.fullRead, block ∈ t.fullRead)
    (hsolidity : ∀ block ∈ s.solidityRead, block ∈ t.solidityRead) (h : s.Accounted row) :
    t.Accounted row := by
  rcases h with ⟨block, hstored, hf, hs⟩
  refine ⟨block, ⟨?_, hstored.readable, hstored.row_eq⟩, fun h => hfull _ (hf h),
    fun hflag h => hsolidity _ (hs hflag h)⟩
  exact List.mem_append.mpr ((List.mem_append.mp hstored.read).imp (hfull _) (hsolidity _))

theorem RunUnderWay.Accounted.mono (hfull : ∀ block ∈ s.fullRead, block ∈ t.fullRead)
    (hsolidity : ∀ block ∈ s.solidityRead, block ∈ t.solidityRead) (h : run.Accounted s) :
    run.Accounted t :=
  ⟨fun row hrow => accounted_mono hfull hsolidity (h.inserts row hrow), h.kind,
    fun entry hentry => hsolidity _ (h.lookups entry hentry)⟩

/-- A run reads from a full node, or from the solidity node. -/
theorem blocks_cases (db : Database) :
    tick.fullNodeBlocks db = tick.blocks db ∧ tick.solidityBlocks db = [] ∨
      tick.fullNodeBlocks db = [] ∧ tick.solidityBlocks db = tick.blocks db := by
  cases hsource : tick.source with
  | fullNode node =>
      simp only [ImportTick.fullNodeBlocks, ImportTick.solidityBlocks, hsource, and_self, true_or]
  | solidity node =>
      simp only [ImportTick.fullNodeBlocks, ImportTick.solidityBlocks, hsource, and_self, or_true]

/-- The blocks read after a run has been set up. -/
theorem mem_read_after {importers : Importers} :
    block ∈ (s.after importers (.start tick)).read ↔ block ∈ s.read ∨ block ∈ tick.blocks s.db := by
  have hblocks : block ∈ tick.blocks s.db ↔
      block ∈ tick.fullNodeBlocks s.db ∨ block ∈ tick.solidityBlocks s.db := by
    rcases @blocks_cases _ tick s.db with ⟨hfull, hsolidity⟩ | ⟨hfull, hsolidity⟩ <;>
      simp [hfull, hsolidity]
  rw [hblocks]
  simp only [EventHistory.read, EventHistory.after, List.mem_append]
  exact or_or_or_comm

/-- What a run publishes that publishes at all. -/
theorem published_eq (hregular : tick.Regular solidityEnabled s.db) :
    tick.published s.db =
      (tick.fullNodeBlocks s.db).flatMap (publishContractEvents fullNodeEventTypes) ++
        (tick.solidityBlocks s.db).flatMap (publishContractEvents solidityEventTypes) := by
  have hpublishes := hregular.publishes
  rw [ImportTick.published]
  cases haction : tick.action s.db with
  | none =>
      -- A run that is not set up is one that reads nothing.
      have hnone : tick.blocks s.db = [] := by simp [ImportTick.blocks, haction]
      rcases @blocks_cases _ tick s.db with ⟨hfull, hsolidity⟩ | ⟨hfull, hsolidity⟩ <;>
        rw [hfull, hsolidity, hnone] <;> rfl
  | some action =>
      rw [haction, Option.all_some] at hpublishes
      simp only [fullNodeEventsPublisher, solidityEventsPublisher, hpublishes, if_true]

/-- The blocks of a run that have events, and have not been read before, have been read
    once afterwards. -/
theorem count_append_eq_one {types : List ContractType} {old blocks : List Block}
    (hold : ∀ block ∈ old, block.Readable → block.HasEvents types → old.count block = 1)
    (hnew : ∀ block ∈ blocks, block.Readable → block.HasEvents types →
      block ∉ old ∧ blocks.count block = 1) :
    ∀ block ∈ old ++ blocks, block.Readable → block.HasEvents types →
      (old ++ blocks).count block = 1 := by
  intro block hblock hreadable hevents
  rw [List.count_append]
  by_cases hmem : block ∈ blocks
  · rcases hnew block hmem hreadable hevents with ⟨hnot, hcount⟩
    rw [List.count_eq_zero.mpr hnot, hcount]
  · rcases List.mem_append.mp hblock with hblock | hblock
    · rw [hold block hblock hreadable hevents, List.count_eq_zero.mpr hmem]
    · exact absurd hblock hmem

/-- Setting up a run. -/
theorem publishedAsRead_start {importers : Importers} (hI : s.PublishedAsRead)
    (hregular : tick.Regular solidityEnabled s.db) (htidy : tick.Tidy s) :
    (s.after importers (.start tick)).PublishedAsRead := by
  have hfull : ∀ type ∈ fullNodeEventTypes, type ∉ solidityEventTypes := by decide
  have hsolidity : ∀ type ∈ solidityEventTypes, type ∉ fullNodeEventTypes := by decide
  -- The events of the one kind go out, and those of the other.
  let u : EventHistory := { s with
    published := s.published ++
      (tick.fullNodeBlocks s.db).flatMap (publishContractEvents fullNodeEventTypes) }
  have hnew : (s.after importers (.start tick)).published =
      u.published ++ (tick.solidityBlocks s.db).flatMap (publishContractEvents solidityEventTypes) := by
    rw [EventHistory.after, published_eq hregular, ← List.append_assoc]
  refine ⟨?distinct, fun block => ?full, fun block => ?solidity,
    count_append_eq_one hI.fullOnce htidy.full,
    count_append_eq_one hI.solidityOnce htidy.solidity⟩
  case distinct =>
    intro block hblock block' hblock' hhash
    rcases mem_read_after.mp hblock with hblock | hblock
    · rcases mem_read_after.mp hblock' with hblock' | hblock'
      · exact hI.distinct block hblock block' hblock' hhash
      · exact (htidy.distinct block' hblock' block (List.mem_append_left _ hblock) hhash.symm).symm
    · exact htidy.distinct block hblock block'
        (List.mem_append.mpr (mem_read_after.mp hblock')) hhash
  case full =>
    rw [EventHistory.after, List.count_append]
    exact published_other (published_more (t := u) (hI.full block) rfl) hfull hnew
  case solidity =>
    rw [EventHistory.after, List.count_append]
    exact published_more (published_other (t := u) (hI.solidity block) hsolidity rfl) hnew

/-- The rows that a run has to insert which is set up. -/
theorem accounted_start {importers : Importers} (htidy : tick.Tidy s) :
    (tick.underWay s.db).Accounted (s.after importers (.start tick)) := by
  cases hsource : tick.source with
  | fullNode node =>
      have hfull : tick.fullNodeBlocks s.db = tick.blocks s.db := by
        rw [ImportTick.fullNodeBlocks, hsource]
      have hrun : tick.underWay s.db = ⟨tick.maxBatch, [], tick.queries s.db⟩ := by
        simp only [ImportTick.underWay, hsource]
      rw [hrun]
      cases haction : tick.action s.db with
      | none =>
          have hqueries : tick.queries s.db = [] := by simp [ImportTick.queries, haction]
          rw [hqueries]
          exact ⟨fun _ h => absurd h List.not_mem_nil,
            Or.inr fun _ h => absurd h List.not_mem_nil, fun _ h => absurd h List.not_mem_nil⟩
      | some action =>
          have hqueries : tick.queries s.db =
              fullNodeQueries action.confirmBlocks (tick.blocks s.db) := by
            simp only [ImportTick.queries, haction, hsource]
          rw [hqueries]
          refine ⟨fun row hrow => ?_, Or.inl ⟨rfl, isImport_fullNodeQueries⟩,
            fun _ h => absurd h List.not_mem_nil⟩
          rcases insertBlock_mem_fullNodeQueries.mp hrow with ⟨block, hblock, hreadable, rfl⟩
          refine ⟨block, ⟨mem_read_after.mpr (Or.inr hblock), hreadable, rfl⟩,
            fun _ => List.mem_append_right _ (hfull ▸ hblock), fun hflag hevents => ?_⟩
          -- If the run confirms what it imports, the block has been read by a solidity run.
          have hconfirms : tick.Confirms s.db := by
            rw [ImportTick.Confirms, haction]
            exact hflag
          exact List.mem_append_left _
            (htidy.confirms hconfirms block (hfull ▸ hblock) hreadable hevents)
  | solidity node =>
      have hsolidity : tick.solidityBlocks s.db = tick.blocks s.db := by
        rw [ImportTick.solidityBlocks, hsource]
      have hrun : tick.underWay s.db =
          ⟨tick.maxBatch, (tick.blocks s.db).map fun block => (block, none), []⟩ := by
        simp only [ImportTick.underWay, hsource]
      rw [hrun]
      refine ⟨fun _ h => absurd h List.not_mem_nil, Or.inr fun _ h => absurd h List.not_mem_nil,
        fun entry hentry => ?_⟩
      rcases List.mem_map.mp hentry with ⟨block, hblock, rfl⟩
      exact List.mem_append_right _ (hsolidity ▸ hblock)

/-- What a solidity run emits for a block. -/
theorem accounted_emit {found : Option BlockModel} {rest : List (Block × Option (Option BlockModel))}
    (hrun : run.Accounted s) (hlookups : run.lookups = (block, some found) :: rest)
    (htidy : ∀ block ∈ run.replacement, block.HasEvents fullNodeEventTypes → block ∈ s.fullRead) :
    { run with lookups := rest,
               pending := run.pending ++ solidityBlockQueries block found : RunUnderWay }.Accounted s := by
  have hread : block ∈ s.solidityRead := hrun.lookups (block, some found) (by simp [hlookups])
  have hkind : ∀ row, .insertBlock row ∈ run.pending → row.confirmed = true := by
    rcases hrun.kind with ⟨hnone, _⟩ | hkind
    · rw [hlookups] at hnone
      cases hnone
    · exact hkind
  refine ⟨fun row hrow => ?_, Or.inr fun row hrow => ?_, fun entry hentry => ?_⟩
  · rcases List.mem_append.mp hrow with hrow | hrow
    · exact hrun.inserts row hrow
    · -- The block takes the place of another.
      rcases insertBlock_mem_solidityBlockQueries hrow with
        ⟨old, rfl, hflag, hhash, hreadable, rfl⟩
      have hreplacement : run.replacement = some block := by
        simp only [RunUnderWay.replacement, hlookups]
        rw [if_pos ⟨hflag, hhash, hreadable⟩]
      exact ⟨block, ⟨List.mem_append_right _ hread, hreadable, rfl⟩, htidy block hreplacement,
        fun _ _ => hread⟩
  · rcases List.mem_append.mp hrow with hrow | hrow
    · exact hkind row hrow
    · rcases insertBlock_mem_solidityBlockQueries hrow with ⟨old, _, _, _, _, rfl⟩
      rfl
  · exact hrun.lookups entry (by rw [hlookups]; exact List.mem_cons_of_mem _ hentry)

/-- What is left of a run after a batch. -/
theorem RunUnderWay.Accounted.drop (hrun : run.Accounted s) (size : Nat) :
    (run.drop size).Accounted s := by
  have hsub : ∀ q ∈ (run.drop size).pending, q ∈ run.pending := fun q => List.mem_of_mem_drop
  exact ⟨fun row hrow => hrun.inserts row (hsub _ hrow),
    hrun.kind.imp (fun h => ⟨h.1, fun q hq => h.2 q (hsub q hq)⟩)
      (fun h row hrow => h row (hsub _ hrow)), hrun.lookups⟩

omit [Codec] in
theorem mem_confirmedNumbers {qs : List Query} {n : Int} (h : .confirmBlock n ∈ qs) :
    n ∈ confirmedNumbers qs :=
  List.mem_filterMap.mpr ⟨_, h, rfl⟩

/-- The rows that a batch leaves. -/
theorem accounted_commit {db : Database} (hI : EventInv s) (hrun : run.Accounted s)
    (htidy : ∀ row ∈ s.db.blocks, row.confirmed = false →
      row.number ∈ confirmedNumbers (run.batch size) → ∀ block ∈ s.read, block.hash = row.hash →
        block.HasEvents solidityEventTypes → block ∈ s.solidityRead)
    (hexec : execQueries (run.batch size) s.db = some db) :
    ∀ row ∈ db.blocks, s.Accounted row := by
  intro row hrow
  have hpending : ∀ q ∈ run.batch size, q ∈ run.pending := fun q => List.mem_of_mem_take
  rcases row_of_exec hexec hrow with ⟨r, hr, rfl | ⟨hconfirm, rfl⟩⟩
  · exact hr.elim (hI.rows row) fun hr => hrun.inserts row (hpending _ hr)
  · -- The flag of the row has been set.
    have hr' : s.Accounted r := hr.elim (hI.rows r) fun hr => hrun.inserts r (hpending _ hr)
    rcases hr' with ⟨block, hstored, hfull, hsolidity⟩
    refine ⟨block, ⟨hstored.read, hstored.readable, ?_⟩, hfull, fun _ hevents => ?_⟩
    · rw [← hstored.row_eq]
      rfl
    · by_cases hflag : r.confirmed = true
      · exact hsolidity hflag hevents
      · rcases hr with hr | hr
        · exact htidy r hr (Bool.eq_false_iff.mpr hflag) (mem_confirmedNumbers hconfirm) block
            hstored.read hstored.hash_eq hevents
        · -- A run that confirms rows inserts none that is not.
          rcases hrun.kind with ⟨_, himport⟩ | hkind
          · exact absurd (himport _ (hpending _ hconfirm)) Bool.false_ne_true
          · exact absurd (hkind r (hpending _ hr)) hflag

/-- The importers go on, and no run is set up. -/
theorem eventInv_importers {importers : Importers} (hI : s.PublishedAsRead)
    (hrows : ∀ row ∈ importers.db.blocks, s.Accounted row)
    (hruns : ∀ run ∈ importers.runs, run.Accounted s) :
    EventInv { s with toImporters := importers } where
  published := ⟨hI.distinct, hI.full, hI.solidity, hI.fullOnce, hI.solidityOnce⟩
  rows row hrow := accounted_mono (s := s) (fun _ h => h) (fun _ h => h) (hrows row hrow)
  runs run hrun :=
    RunUnderWay.Accounted.mono (s := s) (fun _ h => h) (fun _ h => h) (hruns run hrun)

/-- Each event of a tidy system keeps the invariant. -/
theorem eventInv_step {e : ImportersEvent} (hI : EventInv s)
    (he : e.Regular solidityEnabled s ∧ e.Tidy s) (h : eventStep s e = some t) : EventInv t := by
  rcases Option.map_eq_some_iff.mp h with ⟨importers, himporters, rfl⟩
  cases e with
  | start tick =>
      have hstart := importersStep_start himporters
      have hmono : ∀ {run : RunUnderWay}, run.Accounted s →
          run.Accounted (s.after importers (.start tick)) :=
        RunUnderWay.Accounted.mono (fun _ => List.mem_append_left _) fun _ => List.mem_append_left _
      refine ⟨publishedAsRead_start hI.published he.1 he.2, fun row hrow => ?_, fun run hrun => ?_⟩
      · have hold : row ∈ s.db.blocks := by
          have hdb : (s.after importers (.start tick)).db = s.db := by
            rw [EventHistory.after, hstart]
          rwa [hdb] at hrow
        exact accounted_mono (fun _ => List.mem_append_left _) (fun _ => List.mem_append_left _)
          (hI.rows row hold)
      · have hruns : (s.after importers (.start tick)).runs = s.runs ++ [tick.underWay s.db] := by
          rw [EventHistory.after, hstart]
        rw [hruns] at hrun
        rcases List.mem_append.mp hrun with hrun | hrun
        · exact hmono (hI.runs run hrun)
        · rw [List.mem_singleton.mp hrun]
          exact accounted_start he.2
  | lookup r i =>
      rcases importersStep_lookup himporters with ⟨run, block, hrun, hlookup, rfl⟩
      have hold := hI.runs run (List.mem_of_getElem? hrun)
      refine eventInv_importers hI.published hI.rows
        (Lib.forall_mem_set hI.runs ⟨hold.inserts, ?_, ?_⟩)
      · refine hold.kind.imp (fun h => ⟨?_, h.2⟩) id
        rw [h.1] at hlookup
        cases hlookup
      · exact Lib.forall_mem_set hold.lookups
          (hold.lookups (block, none) (List.mem_of_getElem? hlookup))
  | emit r =>
      rcases importersStep_emit himporters with ⟨run, block, found, rest, hrun, hlookups, rfl⟩
      have hold := hI.runs run (List.mem_of_getElem? hrun)
      exact eventInv_importers hI.published hI.rows
        (Lib.forall_mem_set hI.runs (accounted_emit hold hlookups (he.2 run hrun)))
  | commit r size =>
      rcases importersStep_commit himporters with ⟨run, hrun, hexec, hruns⟩
      have hold := hI.runs run (List.mem_of_getElem? hrun)
      refine eventInv_importers hI.published (accounted_commit hI hold (he.2 run hrun) hexec) ?_
      rw [hruns]
      exact Lib.forall_mem_set hI.runs (hold.drop size)
  | fail r size => exact absurd he.1 id

end Invariant

theorem eventInv_empty : EventInv EventHistory.empty where
  published :=
    { distinct := fun _ h => absurd h List.not_mem_nil
      full := fun _ _ _ _ _ _ => rfl
      solidity := fun _ _ _ _ _ _ => rfl
      fullOnce := fun _ h => absurd h List.not_mem_nil
      solidityOnce := fun _ h => absurd h List.not_mem_nil }
  rows _ h := absurd h List.not_mem_nil
  runs _ h := absurd h List.not_mem_nil

/-- A block that its importer has read if it has events, has been published once. -/
theorem published_once {s : EventHistory} {types : List ContractType} {block : Block}
    {blocks : List Block} (hpublished : s.Published types block (blocks.count block))
    (hread : block.HasEvents types → block ∈ blocks)
    (honce : block ∈ blocks → block.HasEvents types → blocks.count block = 1) :
    s.Published types block 1 := by
  by_cases hevents : block.HasEvents types
  · rwa [honce (hread hevents) hevents] at hpublished
  · exact published_of_not_hasEvents hevents hpublished 1

/-- In every tidy system of runs side by side, every contract of a block that is imported
    and confirmed has had its events published once. -/
theorem publishedOnce_of_tidy {solidityEnabled : Bool} {events : List ImportersEvent}
    {s : EventHistory}
    (hregular : Lib.Along eventStep (fun s e => e.Regular solidityEnabled s) EventHistory.empty
      events)
    (htidy : Lib.Along eventStep (fun s e => e.Tidy s) EventHistory.empty events)
    (hrun : Lib.runFrom eventStep EventHistory.empty events = some s) : PublishedOnce s := by
  have hI : EventInv s := Lib.invariant_along (fun _ _ _ => eventInv_step) _ _ events
    eventInv_empty (Lib.along_and _ _ hregular htidy) hrun
  intro row hrow hflag block hstored index transaction contract hcontract htype
  rcases hI.rows row hrow with ⟨old, hold, hfull, hsolidity⟩
  -- The block is the one that has been accounted for.
  have hsame : block = old := hI.published.distinct block hstored.read old hold.read
    (hstored.hash_eq.trans hold.hash_eq.symm)
  subst hsame
  have hevents : eventsAt s.published block index =
      (List.replicate 1 (emitted (contractEvents block transaction contract))).flatten := by
    rcases List.mem_append.mp htype with htype | htype
    · exact published_once (hI.published.full block) hfull
        (fun h => hI.published.fullOnce block h hstored.readable)
        index transaction contract hcontract htype
    · exact published_once (hI.published.solidity block) (hsolidity hflag)
        (fun h => hI.published.solidityOnce block h hstored.readable)
        index transaction contract hcontract htype
  rw [hevents, List.replicate_one, List.flatten_singleton]

/-- The property as one would like to have it. -/
def AlwaysPublishedOnce : Prop :=
  ∀ (solidityEnabled : Bool) (events : List ImportersEvent) (s : EventHistory),
    Lib.Along eventStep (fun s e => e.Regular solidityEnabled s) EventHistory.empty events →
      Lib.runFrom eventStep EventHistory.empty events = some s → PublishedOnce s

omit [Codec]

/-- A block with a transfer and a vote. -/
def busyBlock : Block :=
  { emptyBlock 1 with transactions := [exampleTransaction, voteTransaction] }

/-- A run on an empty database that reads it after the genesis block. -/
def busyTick (solidityEnabled : Bool) : ImportTick :=
  branchTick
    (nodeState
      { solidityEnabled := solidityEnabled, fullNodeBlock := 3, solidityBlock := 1 } Database.empty)
    [emptyBlock 0, busyBlock]

/-- The solidity run that is set up when the rows of both blocks are stored. -/
def confirmingTick : ImportTick where
  status :=
    { fullNodeBlock := 3
      solidityBlock := 1
      dbUnconfirmedBlock := 0
      dbLatestBlock := 1
      fullNodeBlockHash := ""
      solidityBlockHash := ""
      dbBlockHash := @Block.hash exampleCodec busyBlock }
  node := branchNode [emptyBlock 0, busyBlock]
  source := .solidity ⟨(branchNode [emptyBlock 0, busyBlock]).getBlockByNum⟩

/-- Two blocks are imported near the head. The run that confirms them is set up between two
    batches of the one that imports them. -/
def confirmedEvents : List ImportersEvent :=
  [.start (busyTick true), .commit 0 2, .start confirmingTick, .lookup 1 1, .lookup 1 0, .emit 1,
    .commit 1 500, .commit 0 1000, .emit 1, .commit 1 500]

theorem publishedOnce_of_tidy_confirmed : ∃ s,
    Lib.runFrom (@eventStep exampleCodec) EventHistory.empty confirmedEvents = some s ∧
      @PublishedOnce exampleCodec s := by
  have hregular : Lib.Along (@eventStep exampleCodec)
      (fun s e => @ImportersEvent.Regular exampleCodec true s e) EventHistory.empty
      confirmedEvents := by
    decide +kernel
  have htidy : Lib.Along (@eventStep exampleCodec)
      (fun s e => @ImportersEvent.Tidy exampleCodec s e) EventHistory.empty confirmedEvents := by
    decide +kernel
  have hsome : (Lib.runFrom (@eventStep exampleCodec) EventHistory.empty
      confirmedEvents).isSome = true := by
    decide +kernel
  rcases Option.isSome_iff_exists.mp hsome with ⟨s, hs⟩
  exact ⟨s, hs, @publishedOnce_of_tidy exampleCodec true _ s hregular htidy hs⟩

/-- The blocks again, imported by a run that takes over from the solidity importer. -/
def takenOverEvents : List ImportersEvent := [.start (busyTick false), .commit 0 1000]

/-- The vote of the block is never published. -/
theorem not_alwaysPublishedOnce_takenOver : ¬ @AlwaysPublishedOnce exampleCodec := by
  intro h
  have hregular : Lib.Along (@eventStep exampleCodec)
      (fun s e => @ImportersEvent.Regular exampleCodec false s e) EventHistory.empty
      takenOverEvents := by
    decide +kernel
  have hstate : (Lib.runFrom (@eventStep exampleCodec) EventHistory.empty takenOverEvents).map
      (fun s => (decide ((@BlockModel.fromProto exampleCodec busyBlock).confirm true ∈ s.db.blocks),
        (eventsAt s.published busyBlock 1).length, decide (busyBlock ∈ s.read))) =
      some (true, 0, true) := by
    decide +kernel
  rcases Option.map_eq_some_iff.mp hstate with ⟨s, hrun, hs⟩
  simp only [Prod.mk.injEq, decide_eq_true_eq] at hs
  rcases hs with ⟨hrow, hnone, hread⟩
  have hstored : @EventHistory.Stored exampleCodec s busyBlock
      ((@BlockModel.fromProto exampleCodec busyBlock).confirm true) :=
    @EventHistory.Stored.mk exampleCodec _ _ _ hread (by decide +kernel) rfl
  have hpublished := h false takenOverEvents s hregular hrun _ hrow rfl busyBlock hstored
    1 voteTransaction _ rfl (by decide)
  have hvote : (emitted (@contractEvents exampleCodec busyBlock voteTransaction
      { type := .voteWitnessContract, parameter := exampleVoteBytes })).length = 1 := by
    decide +kernel
  rw [hpublished.length_eq, hvote] at hnone
  cases hnone

end Tronscan
