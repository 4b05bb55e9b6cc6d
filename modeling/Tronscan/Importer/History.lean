import Tronscan.Importer.Run
import Tronscan.Lib.System

/-!
# Run after Run

Full node runs and solidity runs, one after the other. Each reads the blocks its
node has for it, hands them to the importers its action calls for, and is done
when the last of its batches has committed or failed. A batch that violates a
constraint fails. Runs that do not wait for each other are in `SideBySide`, where
those here are one way to go.

A run has two parts. The blocks go to a block importer, which writes them. The
addresses of the blocks, each once, go through a list of flows, some of which
have an account updated. A full node run has such a flow when its action says
so. A solidity run has none.

A history remembers what each run read, wrote, and handed to an account updater.

## Main definitions

* `AddressImporter`: The flows an address can go through.
* `buildFullNodeImporters`, `buildSolidityImporters`: The flows of a run.
* `blockAddresses`: The addresses of a list of blocks.
* `ImportTick`: What the nodes answer to a run.
* `ImportTick.queries`, `ImportTick.handed`: What it does.
* `ImportRun`, `ImportRun.batches`: The fates of its batches, besides.
* `History`, `historyStep`: The database, and the runs so far.
* `branchNode`, `branchTick`, `branchRun`: A run on given blocks.

## Theorems

* `historyStep_spec`: What a run adds to a history.
* `mem_blockAddresses`: The addresses of a list of blocks.
-/

namespace Tronscan

open BlockImporter ImportStreamFactory

/-- The flows an address can go through: one that does nothing, the two account
    updaters, and the cleaner of the cache. -/
inductive AddressImporter where
  | pass
  | addressMarkDirty
  | addressSynchronizer
  | redisCacheCleaner
  deriving DecidableEq, Repr

/-- The flow has an account updated. -/
def AddressImporter.updatesAccounts : AddressImporter → Bool
  | .addressMarkDirty | .addressSynchronizer => true
  | .pass | .redisCacheCleaner => false

namespace ImportersFactory

/-- The address flows of a full node run. -/
def buildFullNodeImporters (importAction : ImportAction) : List AddressImporter :=
  let redisCleaner : AddressImporter :=
    if importAction.cleanRedisCache then .redisCacheCleaner else .pass
  let accountUpdaterFlow : AddressImporter :=
    if importAction.updateAccounts then
      if importAction.asyncAddressImport then .addressMarkDirty else .addressSynchronizer
    else .pass
  [accountUpdaterFlow, redisCleaner]

/-- A solidity run has no address flows, whatever its action. -/
def buildSolidityImporters (_importAction : ImportAction) : List AddressImporter := []

end ImportersFactory

open ImportersFactory

/-- Where the blocks of a run come from. -/
inductive BlockSource where
  | fullNode (node : FullNode)
  | solidity (node : SolidityNode)

/-- What the nodes report and answer to a run, while it is set up and while it
    reads its blocks. -/
structure ImportTick where
  status : NodeState
  node : FullNode
  source : BlockSource

/-- A run from its start to its end: where its queries are cut and which batches fail,
    besides. -/
structure ImportRun extends ImportTick where
  fired : List Bool
  commits : List Bool

variable [Codec]

/-- The addresses a list of blocks has, each once: the witnesses, and the owners
    and recipients of the contracts. -/
def blockAddresses (blocks : List Block) : List String :=
  ((blocks.map Block.witness).filter (·.length == 34) ++
    blocks.flatMap fun block => block.transactionContracts.flatMap fun tc =>
      emitted (ContractUtils.getAddresses tc.2)).eraseDups

theorem mem_blockAddresses {blocks : List Block} {block : Block} {tc : Transaction × Contract}
    {addresses : List String} {address : String} (hblock : block ∈ blocks)
    (htc : tc ∈ block.transactionContracts)
    (haddresses : ContractUtils.getAddresses tc.2 = .ok addresses) (h : address ∈ addresses) :
    address ∈ blockAddresses blocks := by
  rw [blockAddresses, List.mem_eraseDups]
  refine List.mem_append_right _ (List.mem_flatMap.mpr ⟨block, hblock, ?_⟩)
  refine List.mem_flatMap.mpr ⟨tc, htc, ?_⟩
  rw [haddresses]
  exact h

namespace ImportTick

variable (run : ImportTick) (db : Database)

/-- What the run decides to do; `none` when it cannot be set up. -/
def action : Option ImportAction :=
  buildImportActionFromImportStatus run.node db run.status

/-- The blocks a run reads; none when it cannot be set up. -/
def blocks : List Block :=
  match run.action db, run.source with
  | none, _ => []
  | some _, .fullNode node => fullNodeStream node run.status
  | some _, .solidity node => solidityStream node run.status

/-- The queries of a run. A solidity run looks up the row of each block. -/
def queries : List Query :=
  match run.action db, run.source with
  | none, _ => []
  | some action, .fullNode _ => fullNodeQueries action.confirmBlocks (run.blocks db)
  | some _, .solidity _ => (run.blocks db).flatMap fun block =>
      solidityBlockQueries block (findByNumber block.number db)

/-- The size at which a batch is full. -/
def maxBatch : Nat :=
  match run.source with
  | .fullNode _ => 1000
  | .solidity _ => 500

/-- The address flows of a run. -/
def importers : List AddressImporter :=
  match run.action db, run.source with
  | none, _ => []
  | some action, .fullNode _ => buildFullNodeImporters action
  | some action, .solidity _ => buildSolidityImporters action

/-- The addresses a run hands to an account updater. -/
def handed : List String :=
  if (run.importers db).any AddressImporter.updatesAccounts then blockAddresses (run.blocks db)
  else []

end ImportTick

namespace ImportRun

variable (run : ImportRun) (db : Database)

/-- The queries of a run in batches, each with its fate. -/
def batches : List (List Query × Bool) :=
  importBatches run.maxBatch run.fired run.commits (run.queries db)

theorem batches_flatten : ((run.batches db).map (·.1)).flatten = run.queries db :=
  importBatches_flatten run.maxBatch run.fired run.commits (run.queries db)

end ImportRun

/-- What a run read, wrote, and handed to an account updater. -/
structure RunRecord where
  blocks : List Block
  written : List Query
  handed : List String

/-- The database, and the runs so far, oldest first. -/
structure History where
  db : Database
  runs : List RunRecord

/-- The history of a fresh installation. -/
def History.empty : History := ⟨Database.empty, []⟩

/-- One run from its start to its end. -/
def historyStep (s : History) (run : ImportRun) : Option History :=
  let result := Lib.runDropping Query.exec (run.batches s.db) s.db
  some ⟨result.2, s.runs ++ [⟨run.blocks s.db, result.1, run.handed s.db⟩]⟩

/-- A run writes part of its queries, and the database is what they leave. -/
theorem historyStep_spec {s t : History} {run : ImportRun} (h : historyStep s run = some t) :
    ∃ written, t.runs = s.runs ++ [⟨run.blocks s.db, written, run.handed s.db⟩] ∧
      written.Sublist (run.queries s.db) ∧ execQueries written s.db = some t.db := by
  cases h
  refine ⟨_, rfl, ?_, Lib.runDropping_exec _ _⟩
  have hsublist := @Lib.runDropping_sublist _ _ Query.exec (run.batches s.db) s.db
  rwa [run.batches_flatten s.db] at hsublist

omit [Codec]

/-- A node that has the given blocks. -/
def branchNode (blocks : List Block) : FullNode where
  getBlockByNum n := some ((blocks.find? fun block => block.number = n).getD {})
  getBlockByLimitNext startNum endNum :=
    some (blocks.filter fun block => startNum ≤ block.number ∧ block.number < endNum)

/-- A run on the given blocks. -/
def branchTick (status : NodeState) (blocks : List Block) : ImportTick where
  status := status
  node := branchNode blocks
  source := .fullNode (branchNode blocks)

/-- The same, with its batches all committing. -/
def branchRun (status : NodeState) (blocks : List Block) : ImportRun where
  toImportTick := branchTick status blocks
  fired := []
  commits := [true]

end Tronscan
