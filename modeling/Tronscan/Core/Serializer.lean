import Tronscan.Core.Encoding

/-!
# Contracts as JSON

`TransactionSerializer.serializeContract`, the JSON the explorer stores for a
transaction's first contract. Each contract type has its own encoder, which
names its fields in its own way: a transfer says `from` and `to` where a
participation says `ownerAddress` and `toAddress`.

## Main definitions

* `Json`: JSON values.
* `serializeContract`: The JSON of a contract, decoded by its declared type.
-/

namespace Tronscan

/-- JSON values. Every number the explorer prints is an integer, but those it
    reads may be `mantissa * 10 ^ exponent`. -/
inductive Json where
  | null
  | bool (b : Bool)
  | num (n : Int)
  | dec (mantissa exponent : Int)
  | str (s : String)
  | arr (items : List Json)
  | obj (fields : List (String × Json))

namespace TransactionSerializer

/-- `String.trim`: drop the characters up to the blank at both ends. -/
def trim (s : String) : String :=
  let blank := fun c : Char => decide (c.toNat ≤ 32)
  String.ofList ((s.toList.dropWhile blank).reverse.dropWhile blank).reverse

variable [Codec]

/-- An address as it is printed. -/
def address (bytes : Bytes) : Json := .str (encodeAddress bytes)

/-- Bytes that are printed as a text. -/
def text (bytes : Bytes) : Json := .str (decodeString bytes)

/-- The encoders that print the owner and nothing else. -/
def ownerOnly (ownerAddress : Bytes) : Json := .obj [("ownerAddress", address ownerAddress)]

/-- `encodeAssetIssueContract`. -/
def encodeAssetIssueContract (c : AssetIssueContract) : Json :=
  .obj [("ownerAddress", address c.ownerAddress),
    ("name", .str (trim (decodeString c.name))),
    ("abbr", .str (trim (decodeString c.abbr))),
    ("totalSupply", .num c.totalSupply),
    ("frozenSupply", .arr (c.frozenSupply.map fun frozen =>
      .obj [("amount", .num frozen.frozenAmount), ("days", .num frozen.frozenDays)])),
    ("trxNum", .num c.trxNum),
    ("num", .num c.num),
    ("startTime", .num c.startTime),
    ("endTime", .num c.endTime),
    ("voteScore", .num c.voteScore),
    ("description", text c.description),
    ("url", text c.url)]

/-- `encodeUpdateAssetContract`. -/
def encodeUpdateAssetContract (c : UpdateAssetContract) : Json :=
  .obj [("ownerAddress", address c.ownerAddress),
    ("newPublicLimit", .num c.newPublicLimit),
    ("newLimit", .num c.newLimit),
    ("description", text c.description),
    ("url", text c.url)]

/-- `encodeTransferContract`, whose fields have other names than those it is read
    by. -/
def encodeTransferContract (c : TransferContract) : Json :=
  .obj [("from", address c.ownerAddress), ("to", address c.toAddress), ("amount", .num c.amount)]

/-- `encodeTransferAssetContract`. -/
def encodeTransferAssetContract (c : TransferAssetContract) : Json :=
  .obj [("from", address c.ownerAddress), ("to", address c.toAddress), ("amount", .num c.amount),
    ("token", text c.assetName)]

/-- `encodeParticipateAssetIssueContract`. -/
def encodeParticipateAssetIssueContract (c : ParticipateAssetIssueContract) : Json :=
  .obj [("ownerAddress", address c.ownerAddress), ("toAddress", address c.toAddress),
    ("amount", .num c.amount), ("token", text c.assetName)]

/-- `encodeWitnessUpdateContract`. -/
def encodeWitnessUpdateContract (c : WitnessUpdateContract) : Json :=
  .obj [("ownerAddress", address c.ownerAddress), ("url", text c.updateUrl)]

/-- `encodeWitnessCreateContract`. -/
def encodeWitnessCreateContract (c : WitnessCreateContract) : Json :=
  .obj [("ownerAddress", address c.ownerAddress), ("url", text c.url)]

/-- `encodeVoteWitnessContract`. -/
def encodeVoteWitnessContract (c : VoteWitnessContract) : Json :=
  .obj [("ownerAddress", address c.ownerAddress),
    ("votes", .arr (c.votes.map fun vote =>
      .obj [("voteAddress", address vote.voteAddress), ("voteCount", .num vote.voteCount)]))]

/-- `encodeAccountUpdateContract`. -/
def encodeAccountUpdateContract (c : AccountUpdateContract) : Json :=
  .obj [("ownerAddress", address c.ownerAddress), ("name", text c.accountName)]

/-- `encodeAccountCreateContract`. -/
def encodeAccountCreateContract (c : AccountCreateContract) : Json :=
  .obj [("ownerAddress", address c.ownerAddress), ("accountAddress", address c.accountAddress),
    ("type", .num c.accountType)]

/-- `encodeFreezeBalanceContract`. -/
def encodeFreezeBalanceContract (c : FreezeBalanceContract) : Json :=
  .obj [("ownerAddress", address c.ownerAddress), ("frozenDuration", .num c.frozenDuration),
    ("frozenBalance", .num c.frozenBalance)]

/-- `encodeDeployContract`, whose script is printed in hexadecimal digits. -/
def encodeDeployContract (c : DeployContract) : Json :=
  .obj [("ownerAddress", address c.ownerAddress), ("script", .str (toHexString c.script))]

/-- The JSON of a contract, without its type. -/
def serializeContract (contract : Contract) : Except Thrown Json :=
  let bytes := contract.parameter
  match contract.type with
  | .accountCreateContract =>
      (parseFrom (Codec.accountCreateContract bytes)).map encodeAccountCreateContract
  | .transferContract => (parseFrom (Codec.transferContract bytes)).map encodeTransferContract
  | .transferAssetContract =>
      (parseFrom (Codec.transferAssetContract bytes)).map encodeTransferAssetContract
  | .voteAssetContract =>
      (parseFrom (Codec.voteAssetContract bytes)).map fun c => ownerOnly c.ownerAddress
  | .voteWitnessContract =>
      (parseFrom (Codec.voteWitnessContract bytes)).map encodeVoteWitnessContract
  | .assetIssueContract =>
      (parseFrom (Codec.assetIssueContract bytes)).map encodeAssetIssueContract
  | .deployContract => (parseFrom (Codec.deployContract bytes)).map encodeDeployContract
  | .participateAssetIssueContract =>
      (parseFrom (Codec.participateAssetIssueContract bytes)).map
        encodeParticipateAssetIssueContract
  | .witnessCreateContract =>
      (parseFrom (Codec.witnessCreateContract bytes)).map encodeWitnessCreateContract
  | .witnessUpdateContract =>
      (parseFrom (Codec.witnessUpdateContract bytes)).map encodeWitnessUpdateContract
  | .freezeBalanceContract =>
      (parseFrom (Codec.freezeBalanceContract bytes)).map encodeFreezeBalanceContract
  | .unfreezeBalanceContract =>
      (parseFrom (Codec.unfreezeBalanceContract bytes)).map fun c => ownerOnly c.ownerAddress
  | .accountUpdateContract =>
      (parseFrom (Codec.accountUpdateContract bytes)).map encodeAccountUpdateContract
  | .withdrawBalanceContract =>
      (parseFrom (Codec.withdrawBalanceContract bytes)).map fun c => ownerOnly c.ownerAddress
  | .unfreezeAssetContract =>
      (parseFrom (Codec.unfreezeAssetContract bytes)).map fun c => ownerOnly c.ownerAddress
  | .updateAssetContract =>
      (parseFrom (Codec.updateAssetContract bytes)).map encodeUpdateAssetContract
  | other => .ok (.obj [("type", .str other.name)])

end TransactionSerializer

end Tronscan
