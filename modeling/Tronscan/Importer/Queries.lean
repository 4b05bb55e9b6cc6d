import Tronscan.Core.Database

/-!
# From Blocks to Queries

What the two block importers do with a block: `DatabaseImporter`, and the
mapping stages of `BlockImporter`.

`DatabaseImporter` is a family of partial functions, one for each kind of
contract, that the importers combine with `orElse`. Both importers put
`elseEmpty` last, so an application is never undefined.

The full node importer inserts the block, its transactions and what its
contracts say. The solidity importer looks the block up first. If the hashes
agree it confirms the rows that are there, else it deletes them and inserts its
own. It skips a block that the database does not have (the `get` throws), one
without a header, and one that is already confirmed.

A stage that throws on an element drops it and goes on, which `emitted` models.

## Main definitions

* `ContractQueryBuilder`: A partial function from contracts to queries.
* `fullNodeBlockQueries`: The queries the full node importer has for a block.
* `buildSolidityBlockQueries`: The queries of a confirmation or a replacement.
* `solidityBlockQueries`: The same, with the lookup and the filter.
* `emitted`: What a stage passes on of an element that may throw.
-/

namespace Tronscan

namespace DatabaseImporter

/-- A partial function, `none` where it is not defined. -/
abbrev ContractQueryBuilder : Type :=
  ContractType → Contract → ContractModel → Option (Except Thrown (List Query))

/-- `PartialFunction.orElse`: the second where the first is not defined. -/
def ContractQueryBuilder.orElse (f g : ContractQueryBuilder) : ContractQueryBuilder :=
  fun type contract model => (f type contract model).or (g type contract model)

/-- Apply a partial function, throwing where it is not defined. -/
def ContractQueryBuilder.apply (f : ContractQueryBuilder) (type : ContractType)
    (contract : Contract) (model : ContractModel) : Except Thrown (List Query) :=
  (f type contract model).getD (.error .matchError)

/-- `VoteWitnessContractModelRepository.buildUpdateVotes`. -/
def buildUpdateVotes (address : String) (votes : List VoteWitnessContractModel) : List Query :=
  .deleteVotes address :: votes.map .insertVote

/-- `importWitnessCreate`. -/
def importWitnessCreate : ContractQueryBuilder
  | .witnessCreateContract, _, .witness witness => some (.ok [.upsertWitness witness])
  | _, _, _ => none

/-- `importWitnessUpdate`. -/
def importWitnessUpdate : ContractQueryBuilder
  | .witnessUpdateContract, _, .witness witness => some (.ok [.upsertWitness witness])
  | _, _, _ => none

/-- `importWitnessVote`: the votes of the voter are replaced. -/
def importWitnessVote : ContractQueryBuilder
  | .voteWitnessContract, _, .voteWitnessList votes =>
      some (.ok (buildUpdateVotes votes.voterAddress votes.votes))
  | _, _, _ => none

/-- `importAssetIssue`. -/
def importAssetIssue : ContractQueryBuilder
  | .assetIssueContract, _, .assetIssue assetIssue => some (.ok [.insertAssetIssue assetIssue])
  | _, _, _ => none

/-- `importAssetUpdateIssue`. -/
def importAssetUpdateIssue : ContractQueryBuilder
  | .updateAssetContract, _, .updateAsset updateAssetModel =>
      some (.ok [.updateAsset updateAssetModel])
  | _, _, _ => none

/-- `importParticipateAssetIssue`. -/
def importParticipateAssetIssue : ContractQueryBuilder
  | .participateAssetIssueContract, _, .participate participate =>
      some (.ok [.insertParticipate participate])
  | _, _, _ => none

/-- `importUnfreezeBalance`: the votes of the owner are dropped. It reads the contract
    and not its model. -/
def importUnfreezeBalance [Codec] : ContractQueryBuilder
  | .unfreezeBalanceContract, contract, _ =>
      some ((parseFrom (Codec.unfreezeBalanceContract contract.parameter)).map fun c =>
        [.deleteVotes (encodeAddress c.ownerAddress)])
  | _, _, _ => none

/-- `importTransfers`: transfers of TRX and of tokens. -/
def importTransfers : ContractQueryBuilder
  | .transferContract, _, .transfer transferModel => some (.ok [.insertTransfer transferModel])
  | .transferAssetContract, _, .transfer transferModel =>
      some (.ok [.insertTransfer transferModel])
  | _, _, _ => none

/-- `elseEmpty`: no queries for the contracts that are left. -/
def elseEmpty : ContractQueryBuilder := fun _ _ _ => some (.ok [])

/-- `buildConfirmedEvents`: the contracts that are stored of a confirmed block. -/
def buildConfirmedEvents [Codec] : ContractQueryBuilder :=
  ((((((importWitnessCreate.orElse importWitnessVote).orElse importWitnessUpdate).orElse
    importTransfers).orElse importAssetIssue).orElse importParticipateAssetIssue).orElse
    importUnfreezeBalance).orElse importAssetUpdateIssue

end DatabaseImporter

/-- What a stage passes on: the result, or nothing when it throws. -/
def emitted {α : Type} : Except Thrown (List α) → List α
  | .ok elements => elements
  | .error _ => []

namespace BlockImporter

open DatabaseImporter

variable [Codec]

/-- The partial function `fullNodeBlockImporter` builds. -/
def fullNodeEvents : ContractQueryBuilder :=
  ((importWitnessCreate.orElse importTransfers).orElse buildConfirmedEvents).orElse elseEmpty

/-- The partial function `buildSolidityBlockQueryImporter` builds. -/
def solidityEvents : ContractQueryBuilder := buildConfirmedEvents.orElse elseEmpty

/-- The queries the full node importer has for one contract. -/
def fullNodeContractQueries (confirmBlocks : Bool) (block : Block) (trx : Transaction)
    (contract : Contract) : Except Thrown (List Query) := do
  match ← ModelUtils.contractToModel contract trx block with
  | some (.transfer transfer) =>
      fullNodeEvents.apply contract.type contract (.transfer { transfer with
        confirmed := confirmBlocks || block.getBlockHeader.getRawData.number == 0 })
  | some x => fullNodeEvents.apply contract.type contract x
  | none => return []

/-- The queries the full node importer has for one block. -/
def fullNodeBlockQueries (confirmBlocks : Bool) (block : Block) : Except Thrown (List Query) := do
  -- Import Transactions
  let transactions ← block.transactions.mapM fun trx => do
    let row ← ModelUtils.transactionToModel trx block
    return Query.insertTransaction { row with confirmed := confirmBlocks }
  -- Import Contracts
  let contracts ← block.transactionContracts.mapM fun (trx, contract) =>
    fullNodeContractQueries confirmBlocks block trx contract
  return .insertBlock { BlockModel.fromProto block with confirmed := confirmBlocks } ::
    (transactions ++ contracts.flatten)

/-- The query stream of `fullNodeBlockImporter` before it is cut into batches. -/
def fullNodeQueries (confirmBlocks : Bool) (blocks : List Block) : List Query :=
  blocks.flatMap fun block => emitted (fullNodeBlockQueries confirmBlocks block)

/-- `BlockModelRepository.buildConfirmBlock`. -/
def buildConfirmBlock (id : Int) : List Query :=
  [.confirmBlock id, .confirmTransactions id, .confirmTransfers id]

/-- `BlockModelRepository.buildReplaceBlock`. -/
def buildReplaceBlock (block : BlockModel) : List Query :=
  [.deleteBlock block.number, .insertBlock { block with confirmed := true }]

/-- The queries the solidity importer has for one contract. -/
def solidityContractQueries (replaceBlock : Bool) (block : Block) (trx : Transaction)
    (contract : Contract) : Except Thrown (List Query) := do
  match ← ModelUtils.contractToModel contract trx block with
  | some (.transfer transfer) =>
      -- Don't import transfers if they don't need to be replaced
      if !replaceBlock then return []
      else solidityEvents.apply contract.type contract (.transfer { transfer with confirmed := true })
  | some x =>
      if replaceBlock then solidityEvents.apply contract.type contract x
      else return []
  | none => return []

/-- The queries the solidity importer has for one block, given the row the
    database has for its number. -/
def buildSolidityBlockQueries (solidityBlock : Block) (databaseBlock : BlockModel) :
    Except Thrown (List Query) := do
  let replaceBlock := solidityBlock.hash != databaseBlock.hash
  let number := solidityBlock.getBlockHeader.getRawData.number
  -- Block needs to be replaced if the full node block hash is different from the
  -- solidity block hash
  let block :=
    if replaceBlock then
      buildReplaceBlock (BlockModel.fromProto solidityBlock) ++
        [.deleteTransactions number, .deleteTransfers number, .deleteAssetIssues number,
          .deleteParticipates number]
    else buildConfirmBlock databaseBlock.number
  -- Import / Overwrite transactions
  let transactions ← solidityBlock.transactions.mapM fun transaction => do
    let transactionModel ← ModelUtils.transactionToModel transaction solidityBlock
    return Query.upsertTransaction { transactionModel with confirmed := true }
  let contracts ← solidityBlock.transactionContracts.mapM fun (trx, contract) =>
    solidityContractQueries replaceBlock solidityBlock trx contract
  return block ++ transactions ++ contracts.flatten

/-- What the solidity stream emits for a block and the row found for it. -/
def solidityBlockQueries (solidityBlock : Block) (databaseBlock : Option BlockModel) : List Query :=
  match databaseBlock with
  -- The `get` throws
  | none => []
  | some row =>
      -- Filter empty or confirmed blocks
      if solidityBlock.blockHeader.isSome && !row.confirmed then
        emitted (buildSolidityBlockQueries solidityBlock row)
      else []

end BlockImporter

end Tronscan
