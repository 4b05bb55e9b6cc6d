import Mathlib.Data.List.Basic

/-!
# Protocol Messages

The messages the nodes send, as the `.proto` files declare them, and the part
of the program that lives outside the repository.

Records keep the fields the importer, the serialisers and the hashes read.
What the schema marks as optional is an `Option`, and the accessors
(`Block.getBlockHeader` and its kin) fall back to the default instance the way
the generated accessors do.

A contract travels as a type tag and an undecoded payload. The tag does not
force the payload to be of that type, so decoding is a separate step that can
fail, and it is one of the functions of `Codec`: the code the build generates
from the `.proto` files, the platform's `new String(bytes)` and SHA-256 are
used by the program and not part of it. They are left open here. All that is
known of them is what `Codec` states.

## Main definitions

* `ContractType`: The tag of a contract, unrecognised values included.
* `Contract`, `Transaction`, `BlockHeader`, `Block`: The messages of a chain.
* `Codec`: Decoding, encoding and hashing, taken as given.
* `Thrown`: What reading a block can throw.
-/

namespace Tronscan

/-- `ByteString` and `byte[]`. -/
abbrev Bytes := List UInt8

/-- `Transaction.Contract.ContractType`. -/
inductive ContractType where
  | accountCreateContract
  | transferContract
  | transferAssetContract
  | voteAssetContract
  | voteWitnessContract
  | witnessCreateContract
  | assetIssueContract
  | deployContract
  | witnessUpdateContract
  | participateAssetIssueContract
  | accountUpdateContract
  | freezeBalanceContract
  | unfreezeBalanceContract
  | withdrawBalanceContract
  | unfreezeAssetContract
  | updateAssetContract
  | customContract
  | unrecognized (value : Int)
  deriving DecidableEq, Repr

/-- The number a contract type has on the wire. -/
def ContractType.value : ContractType → Int
  | .accountCreateContract => 0
  | .transferContract => 1
  | .transferAssetContract => 2
  | .voteAssetContract => 3
  | .voteWitnessContract => 4
  | .witnessCreateContract => 5
  | .assetIssueContract => 6
  | .deployContract => 7
  | .witnessUpdateContract => 8
  | .participateAssetIssueContract => 9
  | .accountUpdateContract => 10
  | .freezeBalanceContract => 11
  | .unfreezeBalanceContract => 12
  | .withdrawBalanceContract => 13
  | .unfreezeAssetContract => 14
  | .updateAssetContract => 15
  | .customContract => 20
  | .unrecognized value => value

/-- The name `ContractType.toString` prints. -/
def ContractType.name : ContractType → String
  | .accountCreateContract => "AccountCreateContract"
  | .transferContract => "TransferContract"
  | .transferAssetContract => "TransferAssetContract"
  | .voteAssetContract => "VoteAssetContract"
  | .voteWitnessContract => "VoteWitnessContract"
  | .witnessCreateContract => "WitnessCreateContract"
  | .assetIssueContract => "AssetIssueContract"
  | .deployContract => "DeployContract"
  | .witnessUpdateContract => "WitnessUpdateContract"
  | .participateAssetIssueContract => "ParticipateAssetIssueContract"
  | .accountUpdateContract => "AccountUpdateContract"
  | .freezeBalanceContract => "FreezeBalanceContract"
  | .unfreezeBalanceContract => "UnfreezeBalanceContract"
  | .withdrawBalanceContract => "WithdrawBalanceContract"
  | .unfreezeAssetContract => "UnfreezeAssetContract"
  | .updateAssetContract => "UpdateAssetContract"
  | .customContract => "CustomContract"
  | .unrecognized _ => "UNRECOGNIZED"

/-- A contract: its declared type and the payload of its `Any` parameter. -/
structure Contract where
  type : ContractType
  parameter : Bytes := []
  deriving DecidableEq, Repr

/-- `Transaction.raw`, the signed part of a transaction. -/
structure TransactionRaw where
  refBlockBytes : Bytes := []
  refBlockHash : Bytes := []
  expiration : Int := 0
  data : Bytes := []
  contract : List Contract := []
  timestamp : Int := 0
  deriving DecidableEq, Repr

/-- A transaction: what is signed, and the signatures. -/
structure Transaction where
  rawData : Option TransactionRaw := none
  signature : List Bytes := []
  deriving DecidableEq, Repr

/-- `BlockHeader.raw`, the part of a header that is hashed. -/
structure BlockHeaderRaw where
  timestamp : Int := 0
  txTrieRoot : Bytes := []
  parentHash : Bytes := []
  number : Int := 0
  witnessId : Int := 0
  witnessAddress : Bytes := []
  deriving DecidableEq, Repr

/-- A block header: what is hashed, and the signature of its witness. -/
structure BlockHeader where
  rawData : Option BlockHeaderRaw := none
  witnessSignature : Bytes := []
  deriving DecidableEq, Repr

/-- A block. A node that does not have the block asked for answers one without
    a header. -/
structure Block where
  transactions : List Transaction := []
  blockHeader : Option BlockHeader := none
  deriving DecidableEq, Repr

/-- `getRawData`: the default message where it is not set. -/
def Transaction.getRawData (trx : Transaction) : TransactionRaw := trx.rawData.getD {}

/-- `getRawData` of a header. -/
def BlockHeader.getRawData (header : BlockHeader) : BlockHeaderRaw := header.rawData.getD {}

/-- `getBlockHeader`: the default message where it is not set. -/
def Block.getBlockHeader (block : Block) : BlockHeader := block.blockHeader.getD {}

/-- The number of a block, zero when it has no header. -/
def Block.number (block : Block) : Int := block.getBlockHeader.getRawData.number

/-- Each contract of a block with the transaction it is in. -/
def Block.transactionContracts (block : Block) : List (Transaction × Contract) :=
  block.transactions.flatMap fun t => t.getRawData.contract.map fun c => (t, c)

/-- `AccountCreateContract`. -/
structure AccountCreateContract where
  ownerAddress : Bytes := []
  accountAddress : Bytes := []
  accountType : Int := 0
  deriving DecidableEq, Repr

/-- `AccountUpdateContract`. -/
structure AccountUpdateContract where
  accountName : Bytes := []
  ownerAddress : Bytes := []
  deriving DecidableEq, Repr

/-- `TransferContract`. -/
structure TransferContract where
  ownerAddress : Bytes := []
  toAddress : Bytes := []
  amount : Int := 0
  deriving DecidableEq, Repr

/-- `TransferAssetContract`. -/
structure TransferAssetContract where
  assetName : Bytes := []
  ownerAddress : Bytes := []
  toAddress : Bytes := []
  amount : Int := 0
  deriving DecidableEq, Repr

/-- `VoteAssetContract`. -/
structure VoteAssetContract where
  ownerAddress : Bytes := []
  deriving DecidableEq, Repr

/-- `VoteWitnessContract.Vote`. -/
structure Vote where
  voteAddress : Bytes := []
  voteCount : Int := 0
  deriving DecidableEq, Repr

/-- `VoteWitnessContract`. -/
structure VoteWitnessContract where
  ownerAddress : Bytes := []
  votes : List Vote := []
  deriving DecidableEq, Repr

/-- `WitnessCreateContract`. -/
structure WitnessCreateContract where
  ownerAddress : Bytes := []
  url : Bytes := []
  deriving DecidableEq, Repr

/-- `WitnessUpdateContract`. -/
structure WitnessUpdateContract where
  ownerAddress : Bytes := []
  updateUrl : Bytes := []
  deriving DecidableEq, Repr

/-- `AssetIssueContract.FrozenSupply`. -/
structure FrozenSupply where
  frozenAmount : Int := 0
  frozenDays : Int := 0
  deriving DecidableEq, Repr

/-- `AssetIssueContract`. -/
structure AssetIssueContract where
  ownerAddress : Bytes := []
  name : Bytes := []
  abbr : Bytes := []
  totalSupply : Int := 0
  frozenSupply : List FrozenSupply := []
  trxNum : Int := 0
  num : Int := 0
  startTime : Int := 0
  endTime : Int := 0
  voteScore : Int := 0
  description : Bytes := []
  url : Bytes := []
  deriving DecidableEq, Repr

/-- `ParticipateAssetIssueContract`. -/
structure ParticipateAssetIssueContract where
  ownerAddress : Bytes := []
  toAddress : Bytes := []
  assetName : Bytes := []
  amount : Int := 0
  deriving DecidableEq, Repr

/-- `DeployContract`. -/
structure DeployContract where
  ownerAddress : Bytes := []
  script : Bytes := []
  deriving DecidableEq, Repr

/-- `FreezeBalanceContract`. -/
structure FreezeBalanceContract where
  ownerAddress : Bytes := []
  frozenBalance : Int := 0
  frozenDuration : Int := 0
  deriving DecidableEq, Repr

/-- `UnfreezeBalanceContract`. -/
structure UnfreezeBalanceContract where
  ownerAddress : Bytes := []
  deriving DecidableEq, Repr

/-- `UnfreezeAssetContract`. -/
structure UnfreezeAssetContract where
  ownerAddress : Bytes := []
  deriving DecidableEq, Repr

/-- `WithdrawBalanceContract`. -/
structure WithdrawBalanceContract where
  ownerAddress : Bytes := []
  deriving DecidableEq, Repr

/-- `UpdateAssetContract`. -/
structure UpdateAssetContract where
  ownerAddress : Bytes := []
  description : Bytes := []
  url : Bytes := []
  newLimit : Int := 0
  newPublicLimit : Int := 0
  deriving DecidableEq, Repr

/-- The functions the program calls and does not define: the generated message
    code (`none` is `parseFrom` throwing on a malformed payload), `new String`
    with the platform's charset, and SHA-256. -/
class Codec where
  sha256 : Bytes → Bytes
  sha256_length : ∀ b, (sha256 b).length = 32
  newString : Bytes → String
  headerBytes : BlockHeaderRaw → Bytes
  transactionBytes : TransactionRaw → Bytes
  blockBytes : Block → Bytes
  accountCreateContract : Bytes → Option AccountCreateContract
  accountUpdateContract : Bytes → Option AccountUpdateContract
  transferContract : Bytes → Option TransferContract
  transferAssetContract : Bytes → Option TransferAssetContract
  voteAssetContract : Bytes → Option VoteAssetContract
  voteWitnessContract : Bytes → Option VoteWitnessContract
  witnessCreateContract : Bytes → Option WitnessCreateContract
  witnessUpdateContract : Bytes → Option WitnessUpdateContract
  assetIssueContract : Bytes → Option AssetIssueContract
  participateAssetIssueContract : Bytes → Option ParticipateAssetIssueContract
  deployContract : Bytes → Option DeployContract
  freezeBalanceContract : Bytes → Option FreezeBalanceContract
  unfreezeBalanceContract : Bytes → Option UnfreezeBalanceContract
  unfreezeAssetContract : Bytes → Option UnfreezeAssetContract
  withdrawBalanceContract : Bytes → Option WithdrawBalanceContract
  updateAssetContract : Bytes → Option UpdateAssetContract

/-- The exceptions the code that reads a block can throw: an unknown contract
    type, a malformed payload, `head` or `get` of something empty, and a partial
    function applied where it is not defined. -/
inductive Thrown where
  | unknownContract
  | invalidProtocolBuffer
  | noSuchElement
  | matchError
  deriving DecidableEq, Repr

/-- `parseFrom`, throwing where the decoder fails. -/
def parseFrom {α : Type} (decoded : Option α) : Except Thrown α :=
  match decoded with
  | some message => .ok message
  | none => .error .invalidProtocolBuffer

end Tronscan
