import Tronscan.Api.Builder
import Tronscan.Core.Extract

/-!
# Blocks of the API

The two places where the API shows a block that it has from a node, and not from
the database: the latest block, and the answers of the node's own interface.

The hash of the parent is in the header of the block. What the database stores is
put together from it and the number, and these two show it as it is, the second
after a check of its length.

## Main definitions

* `Sha256Hash`: A hash, which has 32 bytes.
* `BlockModel.asJson`: The JSON of a row.
* `BlockApi.latest`: The latest block.
* `TronModelsSerializers.encodeBlock`: The JSON of a block.
-/

namespace Tronscan

/-- `Sha256Hash`: bytes, of which there are 32. -/
structure Sha256Hash where
  bytes : Bytes
  length_eq : bytes.length = 32

namespace Sha256Hash

/-- Other lengths throw. -/
def wrap (rawHashBytes : Bytes) : Option Sha256Hash :=
  if h : rawHashBytes.length = 32 then some ⟨rawHashBytes, h⟩ else none

/-- The hexadecimal digits of the bytes. -/
def toString (hash : Sha256Hash) : String := toHexString hash.bytes

end Sha256Hash

/-- The fields of the row, as circe derives them. -/
def BlockModel.asJson (block : BlockModel) : Json :=
  .obj [("number", .num block.number),
    ("hash", .str block.hash),
    ("size", .num block.size),
    ("timestamp", .num block.timestamp),
    ("txTrieRoot", .str block.txTrieRoot),
    ("parentHash", .str block.parentHash),
    ("witnessId", .num block.witnessId),
    ("witnessAddress", .str block.witnessAddress),
    ("nrOfTrx", .num block.nrOfTrx),
    ("confirmed", .bool block.confirmed)]

variable [Codec]

/-- The latest block of the node. -/
def BlockApi.latest [BuilderNode] : Option Json := do
  let block ← BuilderNode.getNowBlock
  let header := block.getBlockHeader.getRawData
  let model : BlockModel :=
    { number := header.number
      size := (Codec.blockBytes block).length
      hash := block.hash
      timestamp := header.timestamp
      txTrieRoot := Base58.encode58Check header.txTrieRoot
      -- The header's own bytes, without the number in front.
      parentHash := toHexString header.parentHash
      witnessId := header.witnessId
      witnessAddress := Base58.encode58Check header.witnessAddress
      nrOfTrx := block.transactions.length }
  return model.asJson

/-- The JSON of a block, unless the parent's hash has a wrong length or a
    transaction cannot be printed. -/
def TronModelsSerializers.encodeBlock [Signing] [Packing] (block : Block) : Option Json := do
  let header := block.getBlockHeader.getRawData
  let parentHash ← Sha256Hash.wrap header.parentHash
  let transactions ← block.transactions.mapM TransactionSerializer.serialize
  return .obj [("number", .num header.number),
    ("hash", .str block.hash),
    ("timestamp", .num header.timestamp),
    ("txTrieRoot", .str (toHexString header.txTrieRoot)),
    ("parentHash", .str parentHash.toString),
    ("witnessId", .num header.witnessId),
    ("witnessAddress", .str (encodeAddress header.witnessAddress)),
    ("transactions", .arr transactions)]

end Tronscan
