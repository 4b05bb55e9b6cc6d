import Tronscan.Importer.History
import Tronscan.Importer.Solidity
import Tronscan.Core.Wire

/-!
# Accounts Nobody Updates

A block that is stored has been imported by one run and, unless that run
confirmed it on the way, confirmed by another. Its accounts should have been
handed to an account updater by one of the two.

A full node run hands them on when it confirms what it imports, which it does
while the database is far behind the solidity node. Near the head it leaves the
blocks to the solidity importer to confirm, and the accounts too. A solidity
run has no flow for addresses. So the accounts of a block imported near the head
are not updated at all.

A history is fine when each run updates the accounts of what it imports. For a
single run that is exactly when it meets the gate or imports blocks without
contracts, `handed_iff`.

## Main definitions

* `RunRecord.Imports`, `RunRecord.Confirms`: What a run did to a stored block.
* `Refreshed`: The accounts of the confirmed blocks have been handed on.
* `ImportRun.Gate`: What makes a full node run update accounts.
* `UpdatesWhatItImports`: The condition on a run.

## Theorems

* `handed_of_gate`, `handed_of_not_gate`: What a run hands on.
* `handed_iff`: Which blocks a run updates the accounts of.
* `exists_imports`: Every stored block was imported by some run.
* `refreshed_of_updates`: Histories of runs that update what they import.
* `not_everyAccountRefreshed_nearHead`: One that imports near the head.
-/

namespace Tronscan

open BlockImporter ImportStreamFactory ImportersFactory

variable [Codec]

/-- The run imported the block, and its row is the given one, up to the flag. -/
structure RunRecord.Imports (record : RunRecord) (block : Block) (row : BlockModel) : Prop where
  read : block ∈ record.blocks
  readable : block.Readable
  written : ∃ c, .insertBlock ((BlockModel.fromProto block).confirm c) ∈ record.written
  row_eq : (BlockModel.fromProto block).confirm row.confirmed = row

/-- The run confirmed the block with the number, on its own or on importing it. -/
def RunRecord.Confirms (record : RunRecord) (n : Int) : Prop :=
  .confirmBlock n ∈ record.written ∨
    ∃ row, .insertBlock row ∈ record.written ∧ row.number = n ∧ row.confirmed = true

/-- Every address of a contract of the block satisfies the predicate. -/
def Block.AddressesAll (block : Block) (p : String → Prop) : Prop :=
  ∀ tc ∈ block.transactionContracts, ∀ addresses,
    ContractUtils.getAddresses tc.2 = .ok addresses → ∀ address ∈ addresses, p address

/-- For every block that is stored and confirmed, each address of its contracts
    has been handed to an account updater by a run that imported or confirmed
    it. -/
def Refreshed (s : History) : Prop :=
  ∀ row ∈ s.db.blocks, row.confirmed = true → ∀ record ∈ s.runs, ∀ block,
    record.Imports block row → block.AddressesAll fun address =>
      address ∈ record.handed ∨
        ∃ record' ∈ s.runs, record'.Confirms row.number ∧ address ∈ record'.handed

namespace ImportRun

variable (db : Database) (run : ImportRun)

/-- The database is far behind the solidity node, and the full node has the same
    block at its head. -/
def Gate : Prop :=
  run.status.dbLatestBlock ≤ run.status.solidityBlock - 250 ∧
    ∃ block, run.node.getBlockByNum run.status.solidityBlock.toInt = some block ∧
      block.hash = run.status.solidityBlockHash

/-- The run replaces the stored row of the block. -/
def Replaces (block : Block) : Prop :=
  ∃ row, findByNumber block.number db = some row ∧ row.confirmed = false ∧ block.hash ≠ row.hash

/-- A full node run meets the gate or reads blocks without contracts only, and a
    solidity run replaces blocks by blocks without contracts only. -/
def UpdatesWhatItImports : Prop :=
  match run.source with
  | .fullNode _ =>
      run.Gate ∨ ∀ block ∈ run.blocks db, block.Readable → block.transactionContracts = []
  | .solidity _ =>
      ∀ block ∈ run.blocks db, block.Readable → Replaces db block →
        block.transactionContracts = []

end ImportRun

section Run

variable {db : Database} {run : ImportRun} {block : Block}

/-- A full node run that meets the gate hands on all the addresses it reads. -/
theorem handed_of_gate {node : FullNode} (hsource : run.source = .fullNode node) (hgate : run.Gate) :
    run.handed db = blockAddresses (run.blocks db) := by
  rw [ImportTick.handed, ImportTick.importers, hsource]
  cases haction : run.action db with
  | none =>
      -- A run that is not set up reads no blocks.
      rw [ImportTick.blocks, haction]
      rfl
  | some action =>
      rcases importAction_spec haction with ⟨b, hb, hconfirm, hupdate, hasync⟩
      rcases hgate with ⟨hbehind, b', hb', hhash⟩
      rw [hb] at hb'
      cases hb'
      have hupdates : action.updateAccounts = true := by
        rw [hupdate, hconfirm]
        exact Or.inr ⟨hbehind, hhash⟩
      simp only [buildFullNodeImporters, hupdates, hasync, if_true]
      exact if_pos rfl

/-- So every address of a block it reads. -/
theorem addressesAll_of_gate {node : FullNode} (hsource : run.source = .fullNode node)
    (hgate : run.Gate) (hblock : block ∈ run.blocks db) :
    block.AddressesAll (· ∈ run.handed db) := by
  intro tc htc addresses haddresses address h
  rw [handed_of_gate hsource hgate]
  exact mem_blockAddresses hblock htc haddresses h

/-- A block without contracts has no address. -/
theorem addressesAll_of_nil (h : block.transactionContracts = []) (p : String → Prop) :
    block.AddressesAll p := by
  intro tc htc
  rw [h] at htc
  exact absurd htc List.not_mem_nil

/-- Any other run whose solidity importer is on hands on none. -/
theorem handed_of_not_gate (henabled : run.status.solidityEnabled = true)
    (hgate : ∀ node, run.source = .fullNode node → ¬ run.Gate) : run.handed db = [] := by
  have hnone : (run.importers db).any AddressImporter.updatesAccounts = false := by
    rw [ImportTick.importers]
    cases haction : run.action db with
    | none => rfl
    | some action =>
        cases hsource : run.source with
        | solidity node => rfl
        | fullNode node =>
            -- The cache cleaner alone updates no accounts.
            rcases importAction_spec haction with ⟨b, hb, hconfirm, hupdate, _⟩
            have hupdates : action.updateAccounts = false := by
              rw [hupdate, ← Bool.not_eq_true, hconfirm, henabled]
              rintro (h | ⟨hbehind, hhash⟩)
              · cases h
              · exact hgate node hsource ⟨hbehind, b, hb, hhash⟩
            simp only [buildFullNodeImporters, hupdates]
            cases action.cleanRedisCache <;> rfl
  rw [ImportTick.handed, hnone]
  rfl

theorem getAddresses_ok {contract : Contract} (h : contract.Known) :
    ∃ owner rest, ContractUtils.getAddresses contract = .ok (owner :: rest) := by
  rcases h with ⟨message, h⟩
  simp only [ContractUtils.getAddresses, ContractUtils.getOwner, ContractUtils.getTo, h]
  cases message <;> exact ⟨_, _, rfl⟩

/-- A readable block has an address for each of its contracts. -/
theorem addressesAll_false_iff (hreadable : block.Readable) :
    (block.AddressesAll fun _ => False) ↔ block.transactionContracts = [] := by
  constructor
  · intro h
    refine List.eq_nil_iff_forall_not_mem.mpr fun tc htc => ?_
    rcases getAddresses_ok (hreadable.known tc htc) with ⟨owner, rest, haddresses⟩
    exact h tc htc _ haddresses owner List.mem_cons_self
  · exact fun h => addressesAll_of_nil h _

/-- A run hands on the addresses of a block it reads exactly when it is a full
    node run that meets the gate, or the block has no contract. -/
theorem handed_iff (henabled : run.status.solidityEnabled = true)
    (hblock : block ∈ run.blocks db) (hreadable : block.Readable) :
    block.AddressesAll (· ∈ run.handed db) ↔
      ((∃ node, run.source = .fullNode node) ∧ run.Gate) ∨ block.transactionContracts = [] := by
  by_cases hgate : (∃ node, run.source = .fullNode node) ∧ run.Gate
  · refine iff_of_true ?_ (Or.inl hgate)
    rcases hgate with ⟨⟨node, hsource⟩, hgate⟩
    exact addressesAll_of_gate hsource hgate hblock
  · rw [or_iff_right hgate, ← addressesAll_false_iff hreadable,
      handed_of_not_gate henabled fun node hsource h => hgate ⟨⟨node, hsource⟩, h⟩]
    simp only [List.not_mem_nil]

/-- What a run inserts is the row of a block it reads, and for a solidity run one
    it replaces. -/
theorem insertBlock_mem_queries {row : BlockModel} (h : .insertBlock row ∈ run.queries db) :
    ∃ block ∈ run.blocks db, block.Readable ∧ (∃ c, row = (BlockModel.fromProto block).confirm c) ∧
      ∀ node, run.source = .solidity node → ImportRun.Replaces db block := by
  rw [ImportTick.queries] at h
  cases haction : run.action db with
  | none =>
      rw [haction] at h
      exact absurd h List.not_mem_nil
  | some action =>
      rw [haction] at h
      cases hsource : run.source with
      | fullNode node =>
          rw [hsource] at h
          rcases insertBlock_mem_fullNodeQueries.mp h with ⟨block, hblock, hreadable, rfl⟩
          exact ⟨block, hblock, hreadable, ⟨_, rfl⟩, fun _ h => by cases h⟩
      | solidity node =>
          rw [hsource] at h
          rcases List.mem_flatMap.mp h with ⟨block, hblock, h⟩
          rcases insertBlock_mem_solidityBlockQueries h with
            ⟨old, hfound, hflag, hhash, hreadable, rfl⟩
          exact ⟨block, hblock, hreadable, ⟨true, rfl⟩, fun _ _ => ⟨old, hfound, hflag, hhash⟩⟩

end Run

section Histories

/-- Every stored block was imported by some run. -/
theorem exists_imports {runs : List ImportRun} {s : History}
    (hrun : Lib.runFrom historyStep History.empty runs = some s) :
    ∀ row ∈ s.db.blocks, ∃ record ∈ s.runs, ∃ block, record.Imports block row := by
  refine Lib.invariant_of_step
    (I := fun s : History => ∀ row ∈ s.db.blocks, ∃ record ∈ s.runs, ∃ block,
      record.Imports block row) (fun s run t hI hstep row hrow => ?_) _ s runs
    (fun _ h => absurd h List.not_mem_nil) hrun
  rcases historyStep_spec hstep with ⟨written, hruns, hwritten, hexec⟩
  rw [hruns]
  rcases mem_blocks_of_exec hexec hrow with ⟨r, hr, hrrow⟩ | ⟨r, hr, hrrow⟩
  · -- The row was there before the run.
    rcases hI r hr with ⟨record, hrecord, block, hread, hreadable, hinsert, heq⟩
    refine ⟨record, List.mem_append_left _ hrecord, block, hread, hreadable, hinsert, ?_⟩
    rw [← hrrow, ← heq]
    rfl
  · -- The run inserted it.
    rcases insertBlock_mem_queries (hwritten.mem hr) with ⟨block, hblock, hreadable, ⟨c, rfl⟩, _⟩
    exact ⟨_, List.mem_append_right _ (List.mem_singleton_self _), block, hblock, hreadable,
      ⟨c, hr⟩, hrrow⟩

/-- A run hands on the addresses of every block it imports. -/
def RunRecord.Covers (record : RunRecord) : Prop :=
  ∀ block row, record.Imports block row → block.AddressesAll (· ∈ record.handed)

/-- A run that updates what it imports leaves a record that covers it. -/
theorem covers_of_updates {db : Database} {run : ImportRun} (hrun : run.UpdatesWhatItImports db)
    {written : List Query} (hwritten : written.Sublist (run.queries db)) :
    RunRecord.Covers ⟨run.blocks db, written, run.handed db⟩ := by
  rintro block row ⟨hread, hreadable, ⟨c, hinsert⟩, _⟩
  rw [ImportRun.UpdatesWhatItImports] at hrun
  cases hsource : run.source with
  | fullNode node =>
      rw [hsource] at hrun
      rcases hrun with hgate | hempty
      · exact addressesAll_of_gate hsource hgate hread
      · exact addressesAll_of_nil (hempty block hread hreadable) _
  | solidity node =>
      rw [hsource] at hrun
      rcases insertBlock_mem_queries (hwritten.mem hinsert) with
        ⟨block', _, _, ⟨c', heq⟩, hreplaces⟩
      -- The block replaced a row if one with the same row did.
      rcases hreplaces node hsource with ⟨found, hfound, hunconfirmed, hhash⟩
      have hnumber : block.number = block'.number := congrArg BlockModel.number heq
      have hhashes : block.hash = block'.hash := congrArg BlockModel.hash heq
      exact addressesAll_of_nil (hrun block hread hreadable
        ⟨found, by rw [hnumber, hfound], hunconfirmed, by rwa [hhashes]⟩) _

/-- In a history of runs that update what they import, the accounts of every
    confirmed block have been handed on. -/
theorem refreshed_of_updates {runs : List ImportRun} {s : History}
    (hupdates : Lib.Along historyStep (fun s run => run.UpdatesWhatItImports s.db) History.empty
      runs) (hrun : Lib.runFrom historyStep History.empty runs = some s) : Refreshed s := by
  have hcovers : ∀ record ∈ s.runs, record.Covers := by
    refine Lib.invariant_along (I := fun s : History => ∀ record ∈ s.runs, record.Covers)
      (fun s run t hI hrun hstep => ?_) _ s runs (fun _ h => absurd h List.not_mem_nil)
      hupdates hrun
    rcases historyStep_spec hstep with ⟨written, hruns, hwritten, _⟩
    rw [hruns]
    intro record hrecord
    rcases List.mem_append.mp hrecord with hold | hnew
    · exact hI record hold
    · rw [List.mem_singleton.mp hnew]
      exact covers_of_updates hrun hwritten
  intro row _ _ record hrecord block himports tc htc addresses haddresses address h
  exact Or.inl (hcovers record hrecord block row himports tc htc addresses haddresses address h)

end Histories

/-- The property as one would like to have it, for all states of the nodes. -/
def EveryAccountRefreshed : Prop :=
  ∀ runs s, (∀ run ∈ runs, run.status.solidityEnabled = true) →
    Lib.runFrom historyStep History.empty runs = some s → Refreshed s

omit [Codec]

/-- Two blocks, the second with a transfer, imported while the solidity node is
    at 250. -/
def farBehindRun : ImportRun :=
  branchRun
    { fullNodeBlock := 252
      solidityBlock := 250
      dbUnconfirmedBlock := -1
      dbLatestBlock := -1
      fullNodeBlockHash := ""
      solidityBlockHash := @Block.hash exampleCodec (emptyBlock 250)
      dbBlockHash := "" }
    [emptyBlock 0, transferBlock 1, emptyBlock 250]

/-- The same blocks imported while the solidity node is at 1, and confirmed. -/
def nearHeadRuns : List ImportRun :=
  [branchRun (nodeState { fullNodeBlock := 3, solidityBlock := 1 } Database.empty)
      [emptyBlock 0, transferBlock 1],
    { status :=
        { fullNodeBlock := 3
          solidityBlock := 1
          dbUnconfirmedBlock := 0
          dbLatestBlock := 1
          fullNodeBlockHash := ""
          solidityBlockHash := ""
          dbBlockHash := @Block.hash exampleCodec (transferBlock 1) }
      node := branchNode [emptyBlock 0, transferBlock 1]
      source := .solidity ⟨(branchNode [emptyBlock 0, transferBlock 1]).getBlockByNum⟩
      fired := []
      commits := [true] }]

/-- Far behind, the run meets the gate. -/
theorem refreshed_of_updates_gate : ∃ s,
    Lib.runFrom (@historyStep exampleCodec) History.empty [farBehindRun] = some s ∧
      @Refreshed exampleCodec s := by
  refine ⟨_, rfl, @refreshed_of_updates exampleCodec [farBehindRun] _ ⟨?_, fun _ _ => trivial⟩ rfl⟩
  exact Or.inl ⟨by decide, emptyBlock 250, rfl, rfl⟩

/-- Near the head, neither run hands the accounts of the transfer on. -/
theorem not_everyAccountRefreshed_nearHead : ¬ @EveryAccountRefreshed exampleCodec := by
  intro h
  have hstate : (Lib.runFrom (@historyStep exampleCodec) History.empty nearHeadRuns).map
      (fun s => (decide ((@BlockModel.fromProto exampleCodec (transferBlock 1)).confirm true ∈
          s.db.blocks),
        s.runs.map (·.handed),
        s.runs.head?.map fun record => (decide (transferBlock 1 ∈ record.blocks),
          record.written.any fun q => q.blockRow ==
            some ((@BlockModel.fromProto exampleCodec (transferBlock 1)).confirm false)))) =
      some (true, [[], []], some (true, true)) := by decide +kernel
  rcases Option.map_eq_some_iff.mp hstate with ⟨s, hrun, hs⟩
  simp only [Prod.mk.injEq, decide_eq_true_eq, Option.map_eq_some_iff] at hs
  rcases hs with ⟨hrow, hhanded, record, hrecord, hread, hwritten⟩
  rcases List.any_eq_true.mp hwritten with ⟨q, hq, hqrow⟩
  rw [Query.blockRow_eq_some.mp (eq_of_beq hqrow)] at hq
  have himports : @RunRecord.Imports exampleCodec record (transferBlock 1)
      ((@BlockModel.fromProto exampleCodec (transferBlock 1)).confirm true) :=
    @RunRecord.Imports.mk exampleCodec _ _ _ hread (by decide +kernel) ⟨false, hq⟩ rfl
  have hrefreshed := h nearHeadRuns s (by decide) hrun _ hrow rfl record
    (List.mem_of_mem_head? hrecord) (transferBlock 1) himports
  have hnone : ∀ record ∈ s.runs, record.handed = [] := by
    intro record hrecord
    have hmem : record.handed ∈ s.runs.map (·.handed) := List.mem_map_of_mem hrecord
    rw [hhanded] at hmem
    simpa using hmem
  -- With nothing handed on, the block would have no contract.
  have hempty : (transferBlock 1).transactionContracts = [] := by
    refine (@addressesAll_false_iff exampleCodec _ (by decide +kernel)).mp ?_
    intro tc htc addresses haddresses address haddress
    rcases hrefreshed tc htc addresses haddresses address haddress with h | ⟨record', h', _, h⟩
    · rw [hnone record (List.mem_of_mem_head? hrecord)] at h
      exact absurd h List.not_mem_nil
    · rw [hnone record' h'] at h
      exact absurd h List.not_mem_nil
  exact absurd hempty (by decide)

end Tronscan
