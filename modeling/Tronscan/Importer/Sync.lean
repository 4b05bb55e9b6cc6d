import Tronscan.Importer.Queries
import Mathlib.Data.Int.Range
import Mathlib.Data.List.Sort

/-!
# A Synchronisation Run

From the state of the nodes to the blocks a run imports: `SynchronisationService`,
`BlockChainStreamBuilder` and `ImportStreamFactory`.

A run reads the state of the nodes and of the database once, decides from it
what it is going to do, and then reads blocks. The full node run starts after
the latest block of the database. It asks for the blocks one by one when it is
less than a hundred behind, and in ranges of a hundred when it is more. The
solidity run starts at the lowest unconfirmed block.

The nodes are outside the repository. `FullNode` is what they answer to the
calls of one run, `none` being a call that fails. An element whose call fails is
dropped, the streams being run with a restarting supervisor; a failing call
while the run is being set up means no run.

Heights are 64-bit integers, and sums and differences of them wrap. A height that
goes into a call is the integer it stands for. The progress figures of `NodeState`
are for display and left out.

## Main definitions

* `NodeState`: What a run knows when it starts.
* `Heads`, `nodeState`: What the nodes report, and the state read from it.
* `ImportAction`, `buildImportActionFromImportStatus`: What a run decides.
* `FullNode`, `SolidityNode`: What the nodes answer.
* `readFullNodeBlocks`, `readFullNodeBlocksBatched`, `buildBlockSource`: The
  blocks of a full node run.
* `Long.batches`, `Long.calls`, `Long.readFullNodeBlocksBatched`: The batched read where
  sums may wrap.
* `buildSolidityBlockSource`: The blocks of a solidity run.
* `fullNodeStream`, `solidityStream`: A run, up to its importers.
* `FullNode.Answers`: A block is among the answers to a run.
* `Chain`, `Chain.fullNode`: A chain of blocks, and a node that serves it.
* `NodeState.Wraps`: A batched run goes past the last 64-bit integer.
* `NodeState.Covers`: The numbers of a chain that a run reads.

## Theorems

* `importAction_spec`: What a run decides, and from what.
* `batches_fuel`: The unfolding has all the steps it needs.
* `mem_batches`: The ranges are within bounds and cover what is between.
* `map_batches`, `calls_of_not_wraps`: Ranges that do not wrap are ranges of integers.
* `mem_readBlocks`, `mem_readRanges`: What the reads pass on.
* `mem_fullNodeStream`: So does a run.
* `mem_stream_chain`: The part of a chain a run reads.
* `toInt_add_of_range`, `toInt_sub_of_range`: Sums and differences that do not wrap.
-/

namespace Tronscan

/-- What a run knows when it starts. -/
structure NodeState where
  solidityEnabled : Bool := true
  fullNodeBlock : Int64
  solidityBlock : Int64
  dbUnconfirmedBlock : Int64
  dbLatestBlock : Int64
  fullNodeBlockHash : String
  solidityBlockHash : String
  dbBlockHash : String
  deriving DecidableEq, Repr

namespace NodeState

/-- How many blocks to sync from the full node. -/
def fullNodeBlocksToSync (status : NodeState) : Int64 :=
  status.fullNodeBlock - status.dbLatestBlock

/-- To which block the solidity block will be synced. -/
def soliditySyncToBlock (status : NodeState) : Int64 :=
  if status.solidityBlock > status.dbLatestBlock then status.dbLatestBlock
  else status.solidityBlock

/-- How many blocks there are to confirm, counted from the lowest unconfirmed one. -/
def solidityBlocksToSync (status : NodeState) : Int64 :=
  status.dbLatestBlock - status.dbUnconfirmedBlock

end NodeState

/-- The heads the nodes report, `-1` and an empty hash for one that does not
    answer. -/
structure Heads where
  solidityEnabled : Bool := true
  fullNodeBlock : Int64 := -1
  fullNodeBlockHash : String := ""
  solidityBlock : Int64 := -1
  solidityBlockHash : String := ""
  deriving DecidableEq, Repr

/-- `SynchronisationService.nodeState`. -/
def nodeState (heads : Heads) (db : Database) : NodeState where
  solidityEnabled := heads.solidityEnabled
  fullNodeBlock := heads.fullNodeBlock
  solidityBlock := heads.solidityBlock
  dbUnconfirmedBlock := ((findLatestUnconfirmed db).map fun row => .ofInt row.number).getD (-1)
  dbLatestBlock := ((findLatest db).map fun row => .ofInt row.number).getD (-1)
  fullNodeBlockHash := heads.fullNodeBlockHash
  solidityBlockHash := heads.solidityBlockHash
  dbBlockHash := ((findLatest db).map (·.hash)).getD ""

/-- The heads a state was read from. -/
def NodeState.heads (status : NodeState) : Heads where
  solidityEnabled := status.solidityEnabled
  fullNodeBlock := status.fullNodeBlock
  fullNodeBlockHash := status.fullNodeBlockHash
  solidityBlock := status.solidityBlock
  solidityBlockHash := status.solidityBlockHash

/-- The answers of the full nodes in one run. -/
structure FullNode where
  getBlockByNum : Int → Option Block
  getBlockByLimitNext : Int → Int → Option (List Block)

/-- The answers of the solidity nodes in one run. -/
structure SolidityNode where
  getBlockByNum : Int → Option Block

/-- What a run is to do. -/
structure ImportAction where
  confirmBlocks : Bool := false
  updateAccounts : Bool := false
  cleanRedisCache : Bool := false
  asyncAddressImport : Bool := false
  publishEvents : Bool := false
  resetDB : Bool := false
  deriving DecidableEq, Repr

namespace ImportStreamFactory

/-- `SynchronisationService.isSameChain`, at block 0. -/
def isSameChain [Codec] (node : FullNode) (db : Database) : Option Bool :=
  (node.getBlockByNum 0).map fun genesisBlock =>
    (findByNumber 0 db).any fun dbBlock => dbBlock.hash == genesisBlock.hash

/-- What a run decides, `none` when one of the calls fails. -/
def buildImportActionFromImportStatus [Codec] (node : FullNode) (db : Database)
    (importStatus : NodeState) : Option ImportAction := do
  let fullNodeBlockHash := (← node.getBlockByNum importStatus.solidityBlock.toInt).hash
  let resetDB := !(← isSameChain node db)
  -- If solidity isn't being synced then take over Solidity node tasks
  let takeOver := !importStatus.solidityEnabled
  -- If the solidity and full node hash are the same then confirm everything
  let confirmEverything := importStatus.dbLatestBlock ≤ importStatus.solidityBlock - 250 ∧
    fullNodeBlockHash = importStatus.solidityBlockHash
  return {
    confirmBlocks := takeOver || confirmEverything
    updateAccounts := takeOver || confirmEverything
    cleanRedisCache := importStatus.dbLatestBlock ≠ 0
    asyncAddressImport := true
    publishEvents := ¬ importStatus.dbLatestBlock < importStatus.fullNodeBlock - 250
    resetDB := resetDB }

end ImportStreamFactory

namespace BlockChainStreamBuilder

/-- The range can be made a source. Counting its numbers throws when there are more than
    `Int.MaxValue`, and then there are no blocks. -/
def isCountable (fromBlock toBlock : Int64) : Bool :=
  toBlock.toInt - fromBlock.toInt < 2147483647

/-- `Source(from to to).mapAsync(getBlockByNum).filter(_.blockHeader.isDefined)`, for a
    range that can be counted. -/
def readBlocks (fromBlock toBlock : Int) (getBlockByNum : Int → Option Block) : List Block :=
  ((Int.range fromBlock (toBlock + 1)).filterMap getBlockByNum).filter (·.blockHeader.isSome)

/-- Reads the blocks of a solidity node with `getBlockByNum`. -/
def readSolidityBlocks (fromBlock toBlock : Int) (client : SolidityNode) : List Block :=
  readBlocks fromBlock toBlock client.getBlockByNum

/-- Reads the blocks of a full node with `getBlockByNum`. -/
def readFullNodeBlocks (fromBlock toBlock : Int) (client : FullNode) : List Block :=
  readBlocks fromBlock toBlock client.getBlockByNum

/-- `Source.unfold`: the ranges from `prev` on, each starting where the last one
    ended. -/
def batches (toBlock batchSize : Int) : Nat → Int → List (Int × Int)
  | 0, _ => []
  | fuel + 1, prev =>
      if prev < toBlock then
        let next := if prev + batchSize > toBlock then toBlock else prev + batchSize
        (prev, next) :: batches toBlock batchSize fuel next
      else []

/-- The blocks of a list of ranges, those of each range in the order of their numbers. -/
def readRanges (ranges : List (Int × Int)) (client : FullNode) : List Block :=
  (ranges.filterMap fun range => client.getBlockByLimitNext range.1 range.2).flatMap
    fun blocks => (blocks.filter (·.blockHeader.isSome)).insertionSort (·.number ≤ ·.number)

/-- Reads all the blocks using batch calls, between bounds whose sums do not wrap. -/
def readFullNodeBlocksBatched (fromBlock toBlock batchSize : Int) (client : FullNode) :
    List Block :=
  readRanges (batches toBlock batchSize (toBlock - fromBlock).toNat fromBlock) client

namespace Long

/-- The ranges between any bounds. When `prev + batchSize` wraps it is not greater than
    `toBlock`, and the ranges go on from the lowest numbers. -/
def batches (toBlock batchSize : Int64) : Nat → Int64 → List (Int64 × Int64)
  | 0, _ => []
  | fuel + 1, prev =>
      if prev < toBlock then
        let next := if prev + batchSize > toBlock then toBlock else prev + batchSize
        (prev, next) :: batches toBlock batchSize fuel next
      else []

/-- The calls of a read. A bound decides the next one, so that a read which goes on after
    `2 ^ 64` calls makes none that it has not made before. -/
def calls (fromBlock toBlock batchSize : Int64) : List (Int × Int) :=
  (batches toBlock batchSize (2 ^ 64) fromBlock).map fun range => (range.1.toInt, range.2.toInt)

/-- Reads all the blocks using batch calls. -/
def readFullNodeBlocksBatched (fromBlock toBlock batchSize : Int64) (client : FullNode) :
    List Block :=
  readRanges (calls fromBlock toBlock batchSize) client

end Long

end BlockChainStreamBuilder

namespace ImportStreamFactory

open BlockChainStreamBuilder

/-- The blocks of a full node run. -/
def buildBlockSource (walletFull : FullNode) (status : NodeState) : List Block :=
  let fromBlock := status.dbLatestBlock + 1
  let toBlock := status.fullNodeBlock - 2
  -- Switch between batch or single depending how far the sync is behind
  if status.fullNodeBlocksToSync < 100 then
    if isCountable fromBlock toBlock then
      readFullNodeBlocks fromBlock.toInt toBlock.toInt walletFull
    else []
  else Long.readFullNodeBlocksBatched fromBlock toBlock 100 walletFull

/-- The blocks of a solidity run. -/
def buildSolidityBlockSource (walletSolidity : SolidityNode) (status : NodeState) : List Block :=
  if isCountable status.dbUnconfirmedBlock status.soliditySyncToBlock then
    readSolidityBlocks status.dbUnconfirmedBlock.toInt status.soliditySyncToBlock.toInt
      walletSolidity
  else []

/-- A full node run goes on if there is something to sync. -/
def fullNodePreSynchronisationChecker (status : NodeState) : Bool :=
  status.fullNodeBlocksToSync > 0

/-- A solidity run goes on if the full node run is not far behind and there is something
    to sync. -/
def solidityNodePreSynchronisationChecker (status : NodeState) : Bool :=
  if status.fullNodeBlocksToSync > 100 then false
  else status.solidityBlocksToSync > 0

end ImportStreamFactory

open ImportStreamFactory

/-- The blocks a full node run reads. -/
def fullNodeStream (walletFull : FullNode) (status : NodeState) : List Block :=
  if fullNodePreSynchronisationChecker status then buildBlockSource walletFull status else []

/-- The blocks a solidity run reads. -/
def solidityStream (walletSolidity : SolidityNode) (status : NodeState) : List Block :=
  if solidityNodePreSynchronisationChecker status then
    buildSolidityBlockSource walletSolidity status
  else []

/-- A run that is set up has the full node's block at the solidity height, and
    confirms and updates accounts on the same grounds. -/
theorem importAction_spec [Codec] {node : FullNode} {db : Database} {status : NodeState}
    {action : ImportAction} (h : buildImportActionFromImportStatus node db status = some action) :
    ∃ block, node.getBlockByNum status.solidityBlock.toInt = some block ∧
      (action.confirmBlocks = true ↔ status.solidityEnabled = false ∨
        status.dbLatestBlock ≤ status.solidityBlock - 250 ∧
          block.hash = status.solidityBlockHash) ∧
      action.updateAccounts = action.confirmBlocks ∧ action.asyncAddressImport = true := by
  rcases Option.bind_eq_some_iff.mp h with ⟨block, hblock, h⟩
  rcases Option.bind_eq_some_iff.mp h with ⟨same, _, h⟩
  cases h
  refine ⟨block, hblock, ?_, rfl, rfl⟩
  simp only [Bool.or_eq_true, Bool.not_eq_true', decide_eq_true_eq]

open BlockChainStreamBuilder

/-- The block is among the answers to the calls of a run. -/
def FullNode.Answers (source : FullNode) (status : NodeState) (block : Block) : Prop :=
  let fromBlock := status.dbLatestBlock + 1
  let toBlock := status.fullNodeBlock - 2
  0 < status.fullNodeBlocksToSync ∧
  if status.fullNodeBlocksToSync < 100 then
    isCountable fromBlock toBlock = true ∧
      ∃ n, fromBlock.toInt ≤ n ∧ n ≤ toBlock.toInt ∧ source.getBlockByNum n = some block
  else
    ∃ range ∈ Long.calls fromBlock toBlock 100,
      ∃ blocks, source.getBlockByLimitNext range.1 range.2 = some blocks ∧ block ∈ blocks

/-- A run reads ranges, and the first bound of them from the last number on is no 64-bit
    integer. -/
def NodeState.Wraps (status : NodeState) : Prop :=
  let fromBlock := status.dbLatestBlock + 1
  let toBlock := status.fullNodeBlock - 2
  ¬ status.fullNodeBlocksToSync < 100 ∧ fromBlock < toBlock ∧
    2 ^ 63 ≤ fromBlock.toInt + ((toBlock.toInt - fromBlock.toInt - 1) / 100 + 1) * 100

instance (status : NodeState) : Decidable status.Wraps := by
  unfold NodeState.Wraps
  infer_instance

section Longs

variable {a b : Int64}

/-- A sum that is in range does not wrap. -/
theorem toInt_add_of_range (hlow : -2 ^ 63 ≤ a.toInt + b.toInt)
    (hhigh : a.toInt + b.toInt < 2 ^ 63) : (a + b).toInt = a.toInt + b.toInt := by
  rw [Int64.toInt_add]
  exact Int.bmod_eq_of_le hlow hhigh

/-- Nor does a difference. -/
theorem toInt_sub_of_range (hlow : -2 ^ 63 ≤ a.toInt - b.toInt)
    (hhigh : a.toInt - b.toInt < 2 ^ 63) : (a - b).toInt = a.toInt - b.toInt := by
  rw [Int64.toInt_sub]
  exact Int.bmod_eq_of_le hlow hhigh

/-- A run starts after the latest block, unless there is no number after it. -/
theorem toInt_add_one (h : a.toInt < 2 ^ 63 - 1) : (a + 1).toInt = a.toInt + 1 := by
  have hlow := Int64.le_toInt a
  exact toInt_add_of_range (by rw [Int64.toInt_one]; omega) (by rw [Int64.toInt_one]; omega)

/-- The comparison in the source is that of the minimum. -/
theorem soliditySyncToBlock_toInt (status : NodeState) :
    status.soliditySyncToBlock.toInt = min status.solidityBlock.toInt status.dbLatestBlock.toInt := by
  rw [NodeState.soliditySyncToBlock]
  split
  · rename_i h
    exact (min_eq_right (Int64.lt_iff_toInt_lt.mp h).le).symm
  · rename_i h
    exact (min_eq_left (not_lt.mp fun hlt => h (Int64.lt_iff_toInt_lt.mpr hlt))).symm

end Longs

section Reading

theorem mem_readBlocks {fromBlock toBlock : Int} {getBlockByNum : Int → Option Block}
    {block : Block} :
    block ∈ readBlocks fromBlock toBlock getBlockByNum ↔
      (∃ n, fromBlock ≤ n ∧ n ≤ toBlock ∧ getBlockByNum n = some block) ∧
        block.blockHeader.isSome = true := by
  rw [readBlocks, List.mem_filter, List.mem_filterMap]
  refine and_congr_left fun _ => exists_congr fun n => ?_
  rw [Int.mem_range_iff, Int.lt_add_one_iff, and_assoc]

/-- Every step of the unfolding advances, so the distance bounds their number. -/
theorem batches_fuel {toBlock batchSize : Int} (hsize : 0 < batchSize) (fuel : Nat) (prev : Int)
    (hfuel : (toBlock - prev).toNat ≤ fuel) :
    batches toBlock batchSize (fuel + 1) prev = batches toBlock batchSize fuel prev := by
  induction fuel generalizing prev with
  | zero =>
      have hdone : ¬ prev < toBlock := by omega
      simp only [batches, if_neg hdone]
  | succ fuel ih =>
      rw [batches]
      conv_rhs => rw [batches]
      by_cases hprev : prev < toBlock
      · rw [if_pos hprev, if_pos hprev]
        refine congrArg (_ :: ·) (ih _ ?_)
        split <;> omega
      · rw [if_neg hprev, if_neg hprev]

theorem batches_of_le {toBlock batchSize : Int} (hsize : 0 < batchSize) {fuel : Nat}
    {prev : Int} (hfuel : (toBlock - prev).toNat ≤ fuel) :
    batches toBlock batchSize fuel prev = batches toBlock batchSize (toBlock - prev).toNat prev := by
  induction fuel, hfuel using Nat.le_induction with
  | base => rfl
  | succ fuel hfuel ih => rw [batches_fuel hsize fuel prev hfuel, ih]

/-- The ranges stay within the bounds, and every number between the bounds is in
    one of them, with the upper bound the end of the last. -/
theorem mem_batches {toBlock batchSize : Int} (hsize : 0 < batchSize) (fuel : Nat) (prev : Int) :
    (∀ range ∈ batches toBlock batchSize fuel prev,
      prev ≤ range.1 ∧ range.1 < range.2 ∧ range.2 ≤ toBlock) ∧
    ((toBlock - prev).toNat ≤ fuel → prev < toBlock → ∀ n, prev ≤ n → n ≤ toBlock →
      ∃ range ∈ batches toBlock batchSize fuel prev,
        range.1 ≤ n ∧ n ≤ range.2 ∧ (n < toBlock → n < range.2)) := by
  induction fuel generalizing prev with
  | zero =>
      refine ⟨fun range hrange => absurd hrange List.not_mem_nil, fun hfuel _ n _ _ => ?_⟩
      omega
  | succ fuel ih =>
      rw [batches]
      by_cases hprev : prev < toBlock
      · rw [if_pos hprev]
        -- The first range is not empty and stays below the end.
        have hnext : prev < (if prev + batchSize > toBlock then toBlock else prev + batchSize) ∧
            (if prev + batchSize > toBlock then toBlock else prev + batchSize) ≤ toBlock := by
          split <;> omega
        generalize (if prev + batchSize > toBlock then toBlock else prev + batchSize) = next
          at hnext ⊢
        rcases ih next with ⟨hbound, hcover⟩
        constructor
        · intro range hrange
          rcases List.mem_cons.mp hrange with rfl | hrange
          · exact ⟨le_refl prev, hnext⟩
          · rcases hbound range hrange with ⟨h1, h2, h3⟩
            exact ⟨by omega, h2, h3⟩
        · -- A number is in the first range or in one of the rest.
          intro hfuel _ n hn hlt
          by_cases hfirst : n < next ∨ next = toBlock
          · exact ⟨_, List.mem_cons_self, hn, by omega, by omega⟩
          · rcases hcover (by omega) (by omega) n (by omega) hlt with ⟨range, hrange, hmem⟩
            exact ⟨range, List.mem_cons_of_mem _ hrange, hmem⟩
      · rw [if_neg hprev]
        exact ⟨fun range hrange => absurd hrange List.not_mem_nil, fun _ h => absurd h hprev⟩

/-- Where no sum wraps, the ranges are those of the integers. -/
theorem map_batches (fuel : Nat) {toBlock prev : Int64}
    (hwraps : prev < toBlock →
      prev.toInt + ((toBlock.toInt - prev.toInt - 1) / 100 + 1) * 100 < 2 ^ 63) :
    (Long.batches toBlock 100 fuel prev).map (fun range => (range.1.toInt, range.2.toInt)) =
      batches toBlock.toInt 100 fuel prev.toInt := by
  induction fuel generalizing prev with
  | zero => rfl
  | succ fuel ih =>
      rw [Long.batches, batches]
      by_cases hprev : prev < toBlock
      · have hlt := Int64.lt_iff_toInt_lt.mp hprev
        have hroom := hwraps hprev
        have hlow := Int64.le_toInt prev
        have hhundred : (100 : Int64).toInt = 100 := rfl
        have hsum : (prev + 100).toInt = prev.toInt + 100 := by
          rw [toInt_add_of_range (by rw [hhundred]; omega) (by rw [hhundred]; omega), hhundred]
        have hnext : prev + 100 > toBlock ↔ prev.toInt + 100 > toBlock.toInt := by
          rw [gt_iff_lt, Int64.lt_iff_toInt_lt, hsum]
        rw [if_pos hprev, if_pos hlt, List.map_cons]
        by_cases hend : prev + 100 > toBlock
        · simp only [if_pos hend, if_pos (hnext.mp hend)]
          rw [ih fun h => (Int64.lt_irrefl h).elim]
        · -- The bound that the ranges get to is the same from here.
          simp only [if_neg hend, if_neg (mt hnext.mpr hend)]
          rw [ih fun _ => by rw [hsum]; omega, hsum]
      · rw [if_neg hprev, if_neg (mt Int64.lt_iff_toInt_lt.mpr hprev), List.map_nil]

/-- So are the calls of a run. -/
theorem calls_of_not_wraps {status : NodeState} (hbatch : ¬ status.fullNodeBlocksToSync < 100)
    (hwraps : ¬ status.Wraps) :
    Long.calls (status.dbLatestBlock + 1) (status.fullNodeBlock - 2) 100 =
      batches (status.fullNodeBlock - 2).toInt 100
        ((status.fullNodeBlock - 2).toInt - (status.dbLatestBlock + 1).toInt).toNat
        (status.dbLatestBlock + 1).toInt := by
  have hlow := Int64.le_toInt (status.dbLatestBlock + 1)
  have hhigh := Int64.toInt_lt (status.fullNodeBlock - 2)
  rw [Long.calls, map_batches _ fun hlt => not_le.mp fun h => hwraps ⟨hbatch, hlt, h⟩]
  exact batches_of_le (by omega) (by omega)

/-- A run wraps only when the full node is near the last 64-bit integer. -/
theorem not_wraps_of_head {status : NodeState} (hlow : -2 ^ 63 + 2 ≤ status.fullNodeBlock.toInt)
    (hhigh : status.fullNodeBlock.toInt + 99 < 2 ^ 63) : ¬ status.Wraps := by
  rintro ⟨-, hlt, hwraps⟩
  have hlt := Int64.lt_iff_toInt_lt.mp hlt
  have htwo : (2 : Int64).toInt = 2 := rfl
  rw [toInt_sub_of_range (by rw [htwo]; omega) (by rw [htwo]; omega), htwo] at hlt hwraps
  omega

theorem buildBlockSource_of_not_wraps {status : NodeState} {client : FullNode}
    (hbatch : ¬ status.fullNodeBlocksToSync < 100) (hwraps : ¬ status.Wraps) :
    buildBlockSource client status = readFullNodeBlocksBatched (status.dbLatestBlock + 1).toInt
      (status.fullNodeBlock - 2).toInt 100 client := by
  rw [buildBlockSource, if_neg hbatch, Long.readFullNodeBlocksBatched,
    calls_of_not_wraps hbatch hwraps, readFullNodeBlocksBatched]

/-- Whether they wrap or not, all ranges end at the last number or below it. -/
theorem le_of_mem_calls {fromBlock toBlock batchSize : Int64} {range : Int × Int}
    (h : range ∈ Long.calls fromBlock toBlock batchSize) : range.2 ≤ toBlock.toInt := by
  have hle (fuel : Nat) (prev : Int64) :
      ∀ range ∈ Long.batches toBlock batchSize fuel prev, range.2 ≤ toBlock := by
    induction fuel generalizing prev with
    | zero => exact fun _ h => absurd h List.not_mem_nil
    | succ fuel ih =>
        rw [Long.batches]
        split
        · refine List.forall_mem_cons.mpr ⟨?_, ih _⟩
          show (if prev + batchSize > toBlock then toBlock else prev + batchSize) ≤ toBlock
          split
          · exact Int64.le_refl _
          · rename_i hend
            exact Int64.not_lt.mp hend
        · exact fun _ h => absurd h List.not_mem_nil
  obtain ⟨range, hrange, rfl⟩ := List.mem_map.mp h
  exact Int64.le_iff_toInt_le.mp (hle _ _ range hrange)

/-- A read of ranges passes on the blocks with a header that the node answered. -/
theorem mem_readRanges {ranges : List (Int × Int)} {client : FullNode} {block : Block} :
    block ∈ readRanges ranges client ↔
      (∃ range ∈ ranges,
        ∃ blocks, client.getBlockByLimitNext range.1 range.2 = some blocks ∧ block ∈ blocks) ∧
      block.blockHeader.isSome = true := by
  simp only [readRanges, List.mem_flatMap, List.mem_filterMap,
    List.mem_insertionSort, List.mem_filter]
  constructor
  · rintro ⟨blocks, ⟨range, hrange, hblocks⟩, hmem, hheader⟩
    exact ⟨⟨range, hrange, blocks, hblocks, hmem⟩, hheader⟩
  · rintro ⟨⟨range, hrange, blocks, hblocks, hmem⟩, hheader⟩
    exact ⟨blocks, ⟨range, hrange, hblocks⟩, hmem, hheader⟩

/-- A run passes on the answers that have a header. -/
theorem mem_fullNodeStream {source : FullNode} {status : NodeState} {block : Block} :
    block ∈ fullNodeStream source status ↔
      source.Answers status block ∧ block.blockHeader.isSome = true := by
  rw [fullNodeStream, FullNode.Answers]
  by_cases hsync : 0 < status.fullNodeBlocksToSync
  · rw [if_pos (show fullNodePreSynchronisationChecker status = true from decide_eq_true hsync),
      buildBlockSource]
    by_cases hbatch : status.fullNodeBlocksToSync < 100
    · simp only [if_pos hbatch, hsync, true_and]
      cases isCountable (status.dbLatestBlock + 1) (status.fullNodeBlock - 2) with
      | true => simp only [if_true, true_and, readFullNodeBlocks, mem_readBlocks]
      | false => simp
    · simp only [if_neg hbatch, hsync, true_and, Long.readFullNodeBlocksBatched, mem_readRanges]
  · rw [if_neg (show ¬fullNodePreSynchronisationChecker status = true from
      fun h => hsync (of_decide_eq_true h))]
    exact iff_of_false List.not_mem_nil fun h => hsync h.1.1

end Reading

/-- A chain of blocks, read by number. -/
structure Chain where
  read : Int → Option Block
  header_isSome : ∀ n block, read n = some block → block.blockHeader.isSome = true
  number_eq : ∀ n block, read n = some block → block.number = n

/-- A node that serves the chain. It answers a block without a header for a
    number it does not have. Whether the end of a range is part of it is up to
    the node. -/
def Chain.fullNode (chain : Chain) (inclusive : Bool) : FullNode where
  getBlockByNum n := some ((chain.read n).getD {})
  getBlockByLimitNext startNum endNum :=
    some ((Int.range startNum (if inclusive then endNum + 1 else endNum)).filterMap chain.read)

section Served

variable {chain : Chain} {inclusive : Bool} {status : NodeState} {block : Block}

/-- The numbers of a chain that a run reads. A batched run reads its last number only if
    the node takes the end of a range to be part of it. One that wraps reads what its calls
    ask for. -/
def NodeState.Covers (status : NodeState) (inclusive : Bool) (n : Int) : Prop :=
  let fromBlock := status.dbLatestBlock + 1
  let toBlock := status.fullNodeBlock - 2
  0 < status.fullNodeBlocksToSync ∧
  if status.fullNodeBlocksToSync < 100 then
    isCountable fromBlock toBlock = true ∧ fromBlock.toInt ≤ n ∧ n ≤ toBlock.toInt
  else if status.Wraps then
    ∃ range ∈ Long.calls fromBlock toBlock 100,
      range.1 ≤ n ∧ if inclusive then n ≤ range.2 else n < range.2
  else fromBlock.toInt ≤ n ∧ (n < toBlock.toInt ∨ inclusive = true ∧ n = toBlock.toInt)

instance (n : Int) : Decidable (status.Covers inclusive n) := by
  unfold NodeState.Covers
  infer_instance

theorem mem_getBlockByLimitNext {startNum endNum : Int} :
    (∃ blocks, (chain.fullNode inclusive).getBlockByLimitNext startNum endNum = some blocks ∧
      block ∈ blocks) ↔
    ∃ n, startNum ≤ n ∧ (if inclusive then n ≤ endNum else n < endNum) ∧
      chain.read n = some block := by
  simp only [Chain.fullNode, Option.some.injEq, exists_eq_left', List.mem_filterMap,
    Int.mem_range_iff, and_assoc]
  refine exists_congr fun n => and_congr_right fun _ => and_congr_left fun _ => ?_
  cases inclusive with
  | false => exact Iff.rfl
  | true => exact Int.lt_add_one_iff

/-- A run that is far behind has room for a range. -/
theorem toBlock_ne_fromBlock (hbatch : ¬ status.fullNodeBlocksToSync < 100) :
    (status.dbLatestBlock + 1).toInt ≠ (status.fullNodeBlock - 2).toInt := by
  rw [Ne, Int64.toInt_inj]
  intro heq
  refine hbatch ?_
  have hthree : status.fullNodeBlock - status.dbLatestBlock = 3 := by grind
  rw [NodeState.fullNodeBlocksToSync, hthree]
  decide

/-- The blocks a run reads off a chain are those with the numbers it covers. -/
theorem mem_stream_chain :
    block ∈ fullNodeStream (chain.fullNode inclusive) status ↔
      ∃ n, chain.read n = some block ∧ status.Covers inclusive n := by
  rw [mem_fullNodeStream, FullNode.Answers]
  simp only [NodeState.Covers]
  by_cases hbatch : status.fullNodeBlocksToSync < 100
  · simp only [if_pos hbatch]
    constructor
    · rintro ⟨⟨hsync, hcount, n, hfrom, hto, hn⟩, hheader⟩
      refine ⟨n, ?_, hsync, hcount, hfrom, hto⟩
      -- A number that is not on the chain is answered without a header.
      cases hread : chain.read n with
      | none =>
          simp only [Chain.fullNode, hread, Option.getD_none, Option.some.injEq] at hn
          cases hn
          cases hheader
      | some b =>
          simp only [Chain.fullNode, hread, Option.getD_some] at hn
          exact hn
    · rintro ⟨n, hn, hsync, hcount, hfrom, hto⟩
      refine ⟨⟨hsync, hcount, n, hfrom, hto, ?_⟩, chain.header_isSome n block hn⟩
      simp only [Chain.fullNode, hn, Option.getD_some]
  · simp only [if_neg hbatch, mem_getBlockByLimitNext]
    by_cases hwraps : status.Wraps
    · simp only [if_pos hwraps]
      constructor
      · rintro ⟨⟨hsync, range, hrange, n, hlow, hhigh, hn⟩, _⟩
        exact ⟨n, hn, hsync, range, hrange, hlow, hhigh⟩
      · rintro ⟨n, hn, hsync, range, hrange, hlow, hhigh⟩
        exact ⟨⟨hsync, range, hrange, n, hlow, hhigh, hn⟩, chain.header_isSome n block hn⟩
    · simp only [if_neg hwraps, calls_of_not_wraps hbatch hwraps]
      constructor
      · rintro ⟨⟨hsync, range, hrange, n, hlow, hhigh, hn⟩, _⟩
        rcases (mem_batches (by omega) _ _).1 range hrange with ⟨hfrom, _, hto⟩
        refine ⟨n, hn, hsync, by omega, ?_⟩
        -- The end of the last range is in it or not, as the node has it.
        cases inclusive with
        | false => exact Or.inl (by simp only [Bool.false_eq_true, if_false] at hhigh; omega)
        | true =>
            simp only [if_true] at hhigh
            exact (lt_or_eq_of_le (hhigh.trans hto)).imp_right fun h => ⟨rfl, h⟩
      · rintro ⟨n, hn, hsync, hfrom, hto⟩
        have hne := toBlock_ne_fromBlock hbatch
        rcases (@mem_batches (status.fullNodeBlock - 2).toInt 100 (by omega) _ _).2
          (le_refl _) (by omega) n hfrom (by omega) with ⟨range, hrange, hlow, hhigh, hend⟩
        refine ⟨⟨hsync, range, hrange, n, hlow, ?_, hn⟩, chain.header_isSome n block hn⟩
        cases inclusive with
        | false => exact hend (by simpa using hto)
        | true => exact hhigh

end Served

end Tronscan
