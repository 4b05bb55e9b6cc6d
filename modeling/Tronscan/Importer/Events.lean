import Tronscan.Importer.SideBySide

/-!
# Contract Events

The part of a run that publishes: `publishContractEvents`, and the publishers
`ImportersFactory` gives the two kinds of runs.

A run passes every contract of the blocks it reads to its publisher, which picks
those of its types and publishes an event for each, or one for each vote. The
full node run publishes transfers, asset transfers and new witnesses, and the
solidity run votes, asset issues and participations. A contract that cannot be
read throws, and is dropped. What the importers of blocks make of a block has no
bearing on what is published of it.

Two contracts can have equal events. So a publication is kept with the block it
was published for, and the place of the contract in the block.

## Main definitions

* `ContractEvent`, `contractEvents`: The events of a contract.
* `Publication`, `publishContractEvents`: What is published of a block.
* `fullNodeEventsPublisher`, `solidityEventsPublisher`: The publisher of a run.
* `ImportTick.published`: What a run publishes.
* `EventHistory`, `eventStep`: The importers, and what has been published by them.
* `eventsAt`: The events published for one contract.

## Theorems

* `contractEvents_length`: One event for each contract, or for each vote.
* `eventsAt_publishContractEvents`: The events published when a block is read.
* `eventsAt_flatMap`: They are published each time the block is read.
-/

namespace Tronscan

/-- The events that are published on the actor system's event stream. -/
inductive ContractEvent where
  | transferCreated (transfer : TransferModel)
  | assetTransferCreated (transfer : TransferModel)
  | witnessCreated (witness : WitnessModel)
  | voteCreated (vote : VoteWitnessContractModel)
  | assetIssueCreated (assetIssue : AssetIssueContractModel)
  | participateAssetIssueModelCreated (participate : ParticipateAssetIssueModel)

/-- An event, published for a contract of a block. -/
structure Publication where
  block : Block
  index : Nat
  type : ContractType
  event : ContractEvent

namespace BlockChainStreamBuilder

variable [Codec]

/-- The events of a contract, which are in the order of the votes for a vote. -/
def contractEvents (block : Block) (transaction : Transaction) (contract : Contract) :
    Except Thrown (List ContractEvent) := do
  match contract.type, ← ModelUtils.contractToModel contract transaction block with
  | .transferContract, some (.transfer transfer) => return [.transferCreated transfer]
  | .transferAssetContract, some (.transfer transfer) => return [.assetTransferCreated transfer]
  | .witnessCreateContract, some (.witness witness) => return [.witnessCreated witness]
  | .voteWitnessContract, some (.voteWitnessList votes) => return votes.votes.map .voteCreated
  | .assetIssueContract, some (.assetIssue assetIssue) => return [.assetIssueCreated assetIssue]
  | .participateAssetIssueContract, some (.participate participate) =>
      return [.participateAssetIssueModelCreated participate]
  | _, _ => return []

/-- What is published for the contract at a place of a block. -/
def contractPublications (contractTypes : List ContractType) (block : Block) (index : Nat) :
    Transaction × Contract → List Publication
  | (transaction, contract) =>
      if contract.type ∈ contractTypes then
        (emitted (contractEvents block transaction contract)).map
          (⟨block, index, contract.type, ·⟩)
      else []

/-- What is published when a block is read. -/
def publishContractEvents (contractTypes : List ContractType) (block : Block) : List Publication :=
  (block.transactionContracts.mapIdx (contractPublications contractTypes block)).flatten

end BlockChainStreamBuilder

open BlockChainStreamBuilder

namespace ImportersFactory

/-- The contracts whose events the full node importers publish. -/
def fullNodeEventTypes : List ContractType :=
  [.transferContract, .transferAssetContract, .witnessCreateContract]

/-- The contracts whose events the solidity importers publish. -/
def solidityEventTypes : List ContractType :=
  [.voteWitnessContract, .assetIssueContract, .participateAssetIssueContract]

variable [Codec]

/-- The `eventsPublisher` of `buildFullNodeImporters`, on the blocks of a run. -/
def fullNodeEventsPublisher (importAction : ImportAction) (blocks : List Block) :
    List Publication :=
  if importAction.publishEvents then blocks.flatMap (publishContractEvents fullNodeEventTypes)
  else []

/-- The `eventsPublisher` of `buildSolidityImporters`, on the blocks of a run. -/
def solidityEventsPublisher (importAction : ImportAction) (blocks : List Block) :
    List Publication :=
  if importAction.publishEvents then blocks.flatMap (publishContractEvents solidityEventTypes)
  else []

end ImportersFactory

open ImportersFactory

/-- A contract that decodes has one event for each vote, or one. -/
theorem contractEvents_length [Codec] {block : Block} {transaction : Transaction}
    {contract : Contract} (hknown : contract.Known)
    (htype : contract.type ∈ fullNodeEventTypes ++ solidityEventTypes) :
    ∃ events, contractEvents block transaction contract = .ok events ∧
      events.length = match ProtoUtils.fromContract contract with
        | .ok (.voteWitness c) => c.votes.length
        | _ => 1 := by
  rcases hknown with ⟨message, hmessage⟩
  have hdecoded : ∀ {α : Type} {decoded : Option α} {f : α → ContractMessage},
      (parseFrom decoded).map f = .ok message → ∃ c, f c = message := by
    intro α decoded f h
    cases decoded with
    | none => cases h
    | some c => exact ⟨c, Except.ok.inj h⟩
  rw [contractEvents, ModelUtils.contractToModel, hmessage]
  rw [ProtoUtils.fromContract] at hmessage
  -- The type says what the contract decodes to.
  cases hcontract : contract.type with
  | transferContract | transferAssetContract | voteWitnessContract | witnessCreateContract
  | assetIssueContract | participateAssetIssueContract =>
      rw [hcontract] at hmessage
      rcases hdecoded hmessage with ⟨c, rfl⟩
      exact ⟨_, rfl, by simp⟩
  | _ =>
      rw [hcontract] at htype
      simp [fullNodeEventTypes, solidityEventTypes] at htype

/-- The importers, what their runs have read, and what these have published, oldest first. -/
structure EventHistory extends Importers where
  fullRead : List Block
  solidityRead : List Block
  published : List Publication

/-- An empty database, nothing under way and nothing published. -/
def EventHistory.empty : EventHistory := ⟨Importers.empty, [], [], []⟩

variable [Codec]

namespace ImportTick

variable (tick : ImportTick) (db : Database)

/-- The blocks a full node run reads. -/
def fullNodeBlocks : List Block :=
  match tick.source with
  | .fullNode _ => tick.blocks db
  | .solidity _ => []

/-- The blocks a solidity run reads. -/
def solidityBlocks : List Block :=
  match tick.source with
  | .fullNode _ => []
  | .solidity _ => tick.blocks db

/-- What a run publishes. -/
def published : List Publication :=
  match tick.action db with
  | none => []
  | some action =>
      fullNodeEventsPublisher action (tick.fullNodeBlocks db) ++
        solidityEventsPublisher action (tick.solidityBlocks db)

end ImportTick

/-- What an event adds to the history. A run publishes on the way, which is counted from
    its start. -/
def EventHistory.after (s : EventHistory) (importers : Importers) : ImportersEvent → EventHistory
  | .start tick =>
      { toImporters := importers
        fullRead := s.fullRead ++ tick.fullNodeBlocks s.db
        solidityRead := s.solidityRead ++ tick.solidityBlocks s.db
        published := s.published ++ tick.published s.db }
  | _ => { s with toImporters := importers }

/-- One event of the importers. -/
def eventStep (s : EventHistory) (e : ImportersEvent) : Option EventHistory :=
  (importersStep s.toImporters e).map (s.after · e)

/-- The events among the publications that were published for one contract. -/
def eventsAt (published : List Publication) (block : Block) (index : Nat) : List ContractEvent :=
  (published.filter fun p => p.block = block ∧ p.index = index).map (·.event)

section Publications

omit [Codec] in
theorem eventsAt_append (ps qs : List Publication) (block : Block) (index : Nat) :
    eventsAt (ps ++ qs) block index = eventsAt ps block index ++ eventsAt qs block index := by
  rw [eventsAt, List.filter_append, List.map_append]
  rfl

omit [Codec] in
theorem eventsAt_eq_nil {published : List Publication} {block : Block} {index : Nat}
    (h : ∀ p ∈ published, p.block = block → p.index ≠ index) :
    eventsAt published block index = [] := by
  rw [eventsAt, List.map_eq_nil_iff, List.filter_eq_nil_iff]
  intro p hp hsame
  rw [decide_eq_true_eq] at hsame
  exact h p hp hsame.1 hsame.2

omit [Codec] in
/-- When each element has its own place, the events at a place are those of the
    element there. -/
theorem eventsAt_mapIdx {α : Type} {f : Nat → α → List Publication} {block : Block} {k : Nat}
    (xs : List α) (hf : ∀ i x, ∀ p ∈ f i x, p.block = block ∧ p.index = i + k) (i : Nat) :
    eventsAt (xs.mapIdx f).flatten block (i + k) =
      (xs[i]?.toList.flatMap (f i)).map (·.event) := by
  induction xs generalizing f k i with
  | nil => rfl
  | cons x xs ih =>
      rw [List.mapIdx_cons, List.flatten_cons, eventsAt_append]
      cases i with
      | zero =>
          -- The place is that of the first element, and of none of the others.
          have hfirst : eventsAt (f 0 x) block (0 + k) = (f 0 x).map (·.event) := by
            rw [eventsAt, List.filter_eq_self.mpr fun p hp => decide_eq_true (hf 0 x p hp)]
          have hrest : eventsAt (xs.mapIdx fun i => f (i + 1)).flatten block (0 + k) = [] := by
            refine eventsAt_eq_nil fun p hp _ hindex => ?_
            rcases List.mem_flatten.mp hp with ⟨ps, hps, hp⟩
            rcases List.mem_mapIdx.mp hps with ⟨j, hj, rfl⟩
            have hplace := (hf (j + 1) _ p hp).2
            omega
          rw [hfirst, hrest, List.append_nil]
          simp
      | succ i =>
          -- The place is one of the rest, which are counted from one on.
          have hfirst : eventsAt (f 0 x) block (i + 1 + k) = [] := by
            refine eventsAt_eq_nil fun p hp _ hindex => ?_
            have hplace := (hf 0 x p hp).2
            omega
          have hshift : ∀ i x, ∀ p ∈ f (i + 1) x, p.block = block ∧ p.index = i + (1 + k) := by
            intro j y p hp
            rcases hf (j + 1) y p hp with ⟨hblock, hindex⟩
            exact ⟨hblock, by omega⟩
          rw [hfirst, List.nil_append, add_assoc, ih hshift i]
          simp

variable {types : List ContractType} {block : Block}

theorem mem_contractPublications {index : Nat} {tc : Transaction × Contract} {p : Publication}
    (h : p ∈ contractPublications types block index tc) :
    p.block = block ∧ p.index = index ∧ p.type = tc.2.type ∧ p.type ∈ types := by
  rw [contractPublications] at h
  split at h
  · rename_i htype
    rcases List.mem_map.mp h with ⟨event, _, rfl⟩
    exact ⟨rfl, rfl, rfl, htype⟩
  · exact absurd h List.not_mem_nil

/-- What is published of a block is published for a contract of it, by its type. -/
theorem mem_publishContractEvents {p : Publication} (h : p ∈ publishContractEvents types block) :
    p.block = block ∧ p.type ∈ types ∧
      ∃ tc, block.transactionContracts[p.index]? = some tc ∧ tc.2.type = p.type := by
  rcases List.mem_flatten.mp h with ⟨ps, hps, hp⟩
  rcases List.mem_mapIdx.mp hps with ⟨i, hi, rfl⟩
  rcases mem_contractPublications hp with ⟨hblock, hindex, htype, htypes⟩
  exact ⟨hblock, htypes, _, by rw [hindex, List.getElem?_eq_getElem hi], htype.symm⟩

/-- Reading a block publishes the events of its contracts of the types. -/
theorem eventsAt_publishContractEvents {index : Nat} {transaction : Transaction}
    {contract : Contract}
    (hcontract : block.transactionContracts[index]? = some (transaction, contract)) :
    eventsAt (publishContractEvents types block) block index =
      if contract.type ∈ types then emitted (contractEvents block transaction contract) else [] := by
  have hplace : ∀ i tc, ∀ p ∈ contractPublications types block i tc,
      p.block = block ∧ p.index = i + 0 := by
    intro i tc p hp
    rcases mem_contractPublications hp with ⟨hblock, hindex, _⟩
    exact ⟨hblock, hindex⟩
  have hplaces := eventsAt_mapIdx block.transactionContracts hplace index
  rw [hcontract] at hplaces
  refine hplaces.trans ?_
  simp only [Option.toList_some, List.flatMap_singleton, contractPublications]
  split
  · rw [List.map_map]
    exact List.map_id _
  · rfl

/-- A block that is read several times is published several times. -/
theorem eventsAt_flatMap (blocks : List Block) (index : Nat) :
    eventsAt (blocks.flatMap (publishContractEvents types)) block index =
      (List.replicate (blocks.count block)
        (eventsAt (publishContractEvents types block) block index)).flatten := by
  induction blocks with
  | nil => rfl
  | cons b blocks ih =>
      rw [List.flatMap_cons, eventsAt_append, ih]
      by_cases hblock : b = block
      · subst hblock
        rw [List.count_cons_self, List.replicate_succ, List.flatten_cons]
      · rw [List.count_cons_of_ne hblock]
        have hnone : eventsAt (publishContractEvents types b) block index = [] := by
          refine eventsAt_eq_nil fun p hp hsame => ?_
          exact absurd ((mem_publishContractEvents hp).1.symm.trans hsame) hblock
        rw [hnone, List.nil_append]

end Publications

end Tronscan
