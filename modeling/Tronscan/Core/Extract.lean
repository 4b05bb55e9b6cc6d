import Tronscan.Core.Serializer

/-!
# From Messages to Rows

The database rows the explorer keeps, and the functions that read them off a
block: `ProtoUtils`, `ContractUtils` and `ModelUtils`.

Times are epoch milliseconds. A row generated with a random UUID as its key is
written without it. Two such ids never collide, so a table of these rows is
their bag, and that is how the statements read it.

Reading a block can throw: on a contract type `fromContract` does not know, on
a payload that is not of the declared type, and on a transaction without
contracts, whose `head` does not exist. One exception loses the whole block,
the mapping stage having nothing to emit.

Note what `contractToModel` does with an unfreeze. It is a type `fromContract`
knows, so it does not throw, and one that has no model, so it yields nothing.

## Main definitions

* `BlockModel`, `TransactionModel`, `TransferModel`: The rows of a block.
* `VoteWitnessContractModel`, `WitnessModel`, `AssetIssueContractModel`,
  `ParticipateAssetIssueModel`: The rows of its contracts.
* `ContractModel`: What a contract is turned into before it is queried.
* `fromContract`: A contract decoded by its declared type.
* `getOwner`, `getTo`, `getAddresses`: The addresses a contract touches.
* `BlockModel.fromProto`, `transactionToModel`, `contractToModel`: The rows of a
  block, a transaction and a contract.
-/

namespace Tronscan

/-- A row of `blocks`. -/
structure BlockModel where
  number : Int
  hash : String
  size : Int
  timestamp : Int
  txTrieRoot : String
  parentHash : String
  witnessId : Int
  witnessAddress : String
  nrOfTrx : Int
  confirmed : Bool := false
  deriving DecidableEq, Repr

/-- A row of `transactions`. -/
structure TransactionModel where
  hash : String
  block : Int
  timestamp : Int
  confirmed : Bool := false
  ownerAddress : String := ""
  toAddress : String := ""
  contractData : Json := .obj []
  contractType : Int := -1
  data : String := ""

/-- A row of `transfers`, without its id. -/
structure TransferModel where
  transactionHash : String
  block : Int
  timestamp : Int
  transferFromAddress : String := ""
  transferToAddress : String := ""
  amount : Int := 0
  tokenName : String := "TRX"
  confirmed : Bool := false
  deriving DecidableEq, Repr

/-- A row of `vote_witness_contract`, without its id. -/
structure VoteWitnessContractModel where
  block : Int
  transaction : String
  timestamp : Int
  voterAddress : String := ""
  candidateAddress : String := ""
  votes : Int := 0
  deriving DecidableEq, Repr

/-- The votes one contract casts. -/
structure VoteWitnessList where
  voterAddress : String
  votes : List VoteWitnessContractModel := []
  deriving DecidableEq, Repr

/-- A row of `witness_create_contract`. -/
structure WitnessModel where
  address : String
  url : String
  deriving DecidableEq, Repr

/-- A row of `asset_issue_contract`, without its id. -/
structure AssetIssueContractModel where
  block : Int
  transaction : String
  ownerAddress : String
  name : String
  abbr : String
  totalSupply : Int
  trxNum : Int
  num : Int
  startTime : Int
  endTime : Int
  voteScore : Int
  description : String
  url : String
  dateCreated : Int
  frozen : Json := .arr []

/-- The columns an asset update sets, for every asset of the owner. -/
structure UpdateAssetModel where
  ownerAddress : String
  description : String
  url : String
  deriving DecidableEq, Repr

/-- A row of `participate_asset_issue`, without its id. -/
structure ParticipateAssetIssueModel where
  transactionHash : String
  block : Int
  amount : Int
  token : String
  ownerAddress : String
  toAddress : String
  dateCreated : Int
  deriving DecidableEq, Repr

/-- A decoded contract. -/
inductive ContractMessage where
  | accountCreate (c : AccountCreateContract)
  | transfer (c : TransferContract)
  | transferAsset (c : TransferAssetContract)
  | voteAsset (c : VoteAssetContract)
  | voteWitness (c : VoteWitnessContract)
  | assetIssue (c : AssetIssueContract)
  | deploy (c : DeployContract)
  | participateAssetIssue (c : ParticipateAssetIssueContract)
  | witnessCreate (c : WitnessCreateContract)
  | witnessUpdate (c : WitnessUpdateContract)
  | freezeBalance (c : FreezeBalanceContract)
  | unfreezeBalance (c : UnfreezeBalanceContract)
  | accountUpdate (c : AccountUpdateContract)
  | withdrawBalance (c : WithdrawBalanceContract)
  | unfreezeAsset (c : UnfreezeAssetContract)
  | updateAsset (c : UpdateAssetContract)
  deriving DecidableEq, Repr

/-- What `contractToModel` makes of a contract. -/
inductive ContractModel where
  | transfer (row : TransferModel)
  | voteWitnessList (votes : VoteWitnessList)
  | assetIssue (row : AssetIssueContractModel)
  | participate (row : ParticipateAssetIssueModel)
  | witness (row : WitnessModel)
  | updateAsset (columns : UpdateAssetModel)

namespace ProtoUtils

variable [Codec]

/-- Decode a contract by its declared type. -/
def fromContract (contract : Contract) : Except Thrown ContractMessage :=
  let bytes := contract.parameter
  match contract.type with
  | .transferContract => (parseFrom (Codec.transferContract bytes)).map .transfer
  | .transferAssetContract => (parseFrom (Codec.transferAssetContract bytes)).map .transferAsset
  | .voteWitnessContract => (parseFrom (Codec.voteWitnessContract bytes)).map .voteWitness
  | .assetIssueContract => (parseFrom (Codec.assetIssueContract bytes)).map .assetIssue
  | .updateAssetContract => (parseFrom (Codec.updateAssetContract bytes)).map .updateAsset
  | .participateAssetIssueContract =>
      (parseFrom (Codec.participateAssetIssueContract bytes)).map .participateAssetIssue
  | .witnessCreateContract => (parseFrom (Codec.witnessCreateContract bytes)).map .witnessCreate
  | .witnessUpdateContract => (parseFrom (Codec.witnessUpdateContract bytes)).map .witnessUpdate
  | .unfreezeBalanceContract =>
      (parseFrom (Codec.unfreezeBalanceContract bytes)).map .unfreezeBalance
  | .freezeBalanceContract => (parseFrom (Codec.freezeBalanceContract bytes)).map .freezeBalance
  | .withdrawBalanceContract =>
      (parseFrom (Codec.withdrawBalanceContract bytes)).map .withdrawBalance
  | .accountUpdateContract => (parseFrom (Codec.accountUpdateContract bytes)).map .accountUpdate
  | .unfreezeAssetContract => (parseFrom (Codec.unfreezeAssetContract bytes)).map .unfreezeAsset
  | .accountCreateContract => (parseFrom (Codec.accountCreateContract bytes)).map .accountCreate
  | _ => .error .unknownContract

end ProtoUtils

namespace ContractUtils

variable [Codec]

/-- The owner of a contract. -/
def getOwner (contract : Contract) : Except Thrown String := do
  match ← ProtoUtils.fromContract contract with
  | .accountCreate c => return encodeAddress c.ownerAddress
  | .transfer c => return encodeAddress c.ownerAddress
  | .transferAsset c => return encodeAddress c.ownerAddress
  | .voteAsset c => return encodeAddress c.ownerAddress
  | .voteWitness c => return encodeAddress c.ownerAddress
  | .assetIssue c => return encodeAddress c.ownerAddress
  | .deploy c => return encodeAddress c.ownerAddress
  | .participateAssetIssue c => return encodeAddress c.ownerAddress
  | .witnessCreate c => return encodeAddress c.ownerAddress
  | .witnessUpdate c => return encodeAddress c.ownerAddress
  | .freezeBalance c => return encodeAddress c.ownerAddress
  | .unfreezeBalance c => return encodeAddress c.ownerAddress
  | .accountUpdate c => return encodeAddress c.ownerAddress
  | .withdrawBalance c => return encodeAddress c.ownerAddress
  | .unfreezeAsset c => return encodeAddress c.ownerAddress
  | .updateAsset c => return encodeAddress c.ownerAddress

/-- The recipient of a contract that has one. -/
def getTo (contract : Contract) : Except Thrown (Option String) := do
  match ← ProtoUtils.fromContract contract with
  | .accountCreate c => return some (encodeAddress c.accountAddress)
  | .transfer c => return some (encodeAddress c.toAddress)
  | .transferAsset c => return some (encodeAddress c.toAddress)
  | .participateAssetIssue c => return some (encodeAddress c.toAddress)
  | _ => return none

/-- `getAddresses`: the owner of a contract, and the recipient if it has one. -/
def getAddresses (contract : Contract) : Except Thrown (List String) := do
  let owner ← getOwner contract
  let recipient ← getTo contract
  return owner :: recipient.toList

end ContractUtils

variable [Codec]

/-- The row of a block, unconfirmed. -/
def BlockModel.fromProto (block : Block) : BlockModel :=
  let header := block.getBlockHeader.getRawData
  { number := header.number
    size := (Codec.blockBytes block).length
    hash := block.hash
    timestamp := header.timestamp
    txTrieRoot := Base58.encode58Check header.txTrieRoot
    parentHash := toHexString block.parentHash
    witnessId := header.witnessId
    witnessAddress := encodeAddress header.witnessAddress
    nrOfTrx := block.transactions.length }

namespace ModelUtils

/-- The row of a transaction, read off its first contract. -/
def transactionToModel (trx : Transaction) (block : Block) : Except Thrown TransactionModel :=
  let header := block.getBlockHeader.getRawData
  match trx.getRawData.contract with
  | [] => .error .noSuchElement
  | head :: _ => do
      let ownerAddress ← ContractUtils.getOwner head
      let contractData ← TransactionSerializer.serializeContract head
      return {
        hash := trx.hash
        block := header.number
        timestamp := header.timestamp
        ownerAddress := ownerAddress
        contractData := contractData
        contractType := head.type.value }

/-- `AssetIssueContractModel.withFrozen`. -/
def frozenJson (frozenSupply : List FrozenSupply) : Json :=
  .arr (frozenSupply.map fun f => .obj [("amount", .num f.frozenAmount), ("days", .num f.frozenDays)])

/-- The model of a contract, `none` for the types that have none. -/
def contractToModel (contract : Contract) (trx : Transaction) (block : Block) :
    Except Thrown (Option ContractModel) := do
  let header := block.getBlockHeader.getRawData
  match ← ProtoUtils.fromContract contract with
  | .transfer c => return some (.transfer {
      transactionHash := trx.hash
      block := header.number
      timestamp := header.timestamp
      transferFromAddress := encodeAddress c.ownerAddress
      transferToAddress := encodeAddress c.toAddress
      amount := c.amount
      confirmed := header.number == 0 })
  | .transferAsset c => return some (.transfer {
      transactionHash := trx.hash
      block := header.number
      timestamp := header.timestamp
      transferFromAddress := encodeAddress c.ownerAddress
      transferToAddress := encodeAddress c.toAddress
      amount := c.amount
      tokenName := decodeString c.assetName
      confirmed := header.number == 0 })
  | .voteWitness c => return some (.voteWitnessList {
      voterAddress := encodeAddress c.ownerAddress
      votes := c.votes.map fun vote => {
        transaction := trx.hash
        block := header.number
        timestamp := header.timestamp
        voterAddress := encodeAddress c.ownerAddress
        candidateAddress := encodeAddress vote.voteAddress
        votes := vote.voteCount } })
  | .assetIssue c => return some (.assetIssue {
      block := header.number
      transaction := trx.hash
      ownerAddress := encodeAddress c.ownerAddress
      name := TransactionSerializer.trim (decodeString c.name)
      abbr := TransactionSerializer.trim (decodeString c.abbr)
      totalSupply := c.totalSupply
      trxNum := c.trxNum
      num := c.num
      startTime := c.startTime
      endTime := c.endTime
      voteScore := c.voteScore
      description := decodeString c.description
      url := decodeString c.url
      dateCreated := header.timestamp
      frozen := frozenJson c.frozenSupply })
  | .participateAssetIssue c => return some (.participate {
      transactionHash := trx.hash
      ownerAddress := encodeAddress c.ownerAddress
      toAddress := encodeAddress c.toAddress
      amount := c.amount
      block := header.number
      token := decodeString c.assetName
      dateCreated := header.timestamp })
  | .witnessCreate c => return some (.witness {
      address := encodeAddress c.ownerAddress
      url := decodeString c.url })
  | .witnessUpdate c => return some (.witness {
      address := encodeAddress c.ownerAddress
      url := decodeString c.updateUrl })
  | .updateAsset c => return some (.updateAsset {
      ownerAddress := encodeAddress c.ownerAddress
      description := decodeString c.description
      url := decodeString c.url })
  | _ => return none

end ModelUtils

end Tronscan
