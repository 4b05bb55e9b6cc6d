import Tronscan.Core.Encoding

/-!
# A Codec from Tables

`Codec` leaves the generated message code and the hash function open. To replay
a history on fixed blocks they have to be filled in, and this module does so.

Encoding is the protobuf wire format for the fields the model keeps: a field at
its default is left out, numbers are varints, the rest is length-delimited.
Decoding and hashing are looked up in tables of known answers, so that a
history evaluates without computing a digest. An empty payload decodes to the
default message, as it does for every message type.

## Main definitions

* `Wire.varint`, `Wire.number`, `Wire.bytes`: The wire format.
* `Wire.blockHeaderRaw`, `Wire.transactionRaw`, `Wire.block`: The messages that
  are hashed or measured.
* `Codec.ofTables`: A codec that knows the given answers.
* `exampleCodec`: The one the worked histories use.
* `utf8Codec`: The same with UTF-8 for the platform's charset.

## Theorems

* `Wire.digest_length`: A digest from the table has 32 bytes.
* `utf8Codec_charset`: What is written as UTF-8 is read back.
-/

namespace Tronscan

namespace Wire

/-- The base-128 digits of a number, least significant first. -/
def varint : Nat → Nat → Bytes
  | 0, n => [UInt8.ofNat n]
  | fuel + 1, n =>
      if n < 128 then [UInt8.ofNat n] else UInt8.ofNat (n % 128 + 128) :: varint fuel (n / 128)

/-- The key of a field: its number and its wire type. -/
def key (field wireType : Nat) : Bytes := varint 9 (field * 8 + wireType)

/-- A 64-bit number, left out when it is zero. -/
def number (field : Nat) (n : Int) : Bytes :=
  if n = 0 then [] else key field 0 ++ varint 9 (n % 2 ^ 64).toNat

/-- A length-delimited field. -/
def message (field : Nat) (b : Bytes) : Bytes := key field 2 ++ varint 9 b.length ++ b

/-- A bytes field, left out when it is empty. -/
def bytes (field : Nat) (b : Bytes) : Bytes := if b = [] then [] else message field b

/-- The bytes of a header's raw data. -/
def blockHeaderRaw (header : BlockHeaderRaw) : Bytes :=
  number 1 header.timestamp ++ bytes 2 header.txTrieRoot ++ bytes 3 header.parentHash ++
    number 7 header.number ++ number 8 header.witnessId ++ bytes 9 header.witnessAddress

/-- The bytes of a contract, its parameter in an `Any`. -/
def contract (c : Contract) : Bytes :=
  number 1 c.type.value ++ bytes 2 (bytes 2 c.parameter)

/-- The bytes of the signed part of a transaction. -/
def transactionRaw (raw : TransactionRaw) : Bytes :=
  bytes 1 raw.refBlockBytes ++ bytes 4 raw.refBlockHash ++ number 8 raw.expiration ++
    bytes 10 raw.data ++ raw.contract.flatMap (fun c => message 11 (contract c)) ++
    number 14 raw.timestamp

/-- The bytes of a transaction. -/
def transaction (trx : Transaction) : Bytes :=
  (trx.rawData.map fun raw => message 1 (transactionRaw raw)).getD [] ++
    trx.signature.flatMap (message 2)

/-- The bytes of a header. -/
def blockHeader (header : BlockHeader) : Bytes :=
  (header.rawData.map fun raw => message 1 (blockHeaderRaw raw)).getD [] ++
    bytes 2 header.witnessSignature

/-- The bytes of a block. -/
def block (b : Block) : Bytes :=
  b.transactions.flatMap (fun trx => message 1 (transaction trx)) ++
    (b.blockHeader.map fun header => message 2 (blockHeader header)).getD []

/-- The answer a table has for an input. -/
def lookup {α β : Type} [DecidableEq α] (table : List (α × β)) (x : α) : Option β :=
  (table.find? fun entry => entry.1 = x).map (·.2)

/-- A digest from the table, cut or padded to its length. -/
def digest (digests : List (Bytes × Bytes)) (b : Bytes) : Bytes :=
  (((lookup digests b).getD []) ++ List.replicate 32 0).take 32

theorem digest_length (digests : List (Bytes × Bytes)) (b : Bytes) :
    (digest digests b).length = 32 := by
  rw [digest, List.length_take, List.length_append, List.length_replicate]
  omega

/-- A decoder that knows the given payloads and the empty one. -/
def decoder {α : Type} (table : List (Bytes × α)) (empty : α) (b : Bytes) : Option α :=
  if b = [] then some empty else lookup table b

end Wire

/-- The codec with the given digests and payloads. -/
@[reducible] def Codec.ofTables (digests : List (Bytes × Bytes)) (transfers : List (Bytes × TransferContract))
    (votes : List (Bytes × VoteWitnessContract)) : Codec where
  sha256 := Wire.digest digests
  sha256_length := Wire.digest_length digests
  newString b := String.ofList (b.map fun c => Char.ofNat c.toNat)
  headerBytes := Wire.blockHeaderRaw
  transactionBytes := Wire.transactionRaw
  blockBytes := Wire.block
  accountCreateContract := Wire.decoder [] {}
  accountUpdateContract := Wire.decoder [] {}
  transferContract := Wire.decoder transfers {}
  transferAssetContract := Wire.decoder [] {}
  voteAssetContract := Wire.decoder [] {}
  voteWitnessContract := Wire.decoder votes {}
  witnessCreateContract := Wire.decoder [] {}
  witnessUpdateContract := Wire.decoder [] {}
  assetIssueContract := Wire.decoder [] {}
  participateAssetIssueContract := Wire.decoder [] {}
  deployContract := Wire.decoder [] {}
  freezeBalanceContract := Wire.decoder [] {}
  unfreezeBalanceContract := Wire.decoder [] {}
  unfreezeAssetContract := Wire.decoder [] {}
  withdrawBalanceContract := Wire.decoder [] {}
  updateAssetContract := Wire.decoder [] {}

/-- SHA-256 of the headers and addresses in the worked histories. -/
def exampleDigests : List (Bytes × Bytes) := [
  ([],
    [227, 176, 196, 66, 152, 252, 28, 20, 154, 251, 244, 200, 153, 111, 185, 36, 39, 174,
      65, 228, 100, 155, 147, 76, 164, 149, 153, 27, 120, 82, 184, 85]),
  ([56, 1],
    [241, 161, 133, 11, 49, 70, 165, 2, 70, 79, 7, 28, 138, 51, 111, 210, 46, 181, 20, 93,
      255, 27, 36, 91, 218, 1, 62, 200, 154, 221, 132, 151]),
  ([56, 2],
    [32, 129, 155, 86, 216, 196, 12, 42, 122, 14, 76, 77, 166, 2, 5, 43, 105, 70, 215,
      108, 144, 204, 68, 153, 68, 85, 147, 204, 176, 198, 179, 92]),
  ([56, 3],
    [216, 50, 187, 228, 2, 206, 33, 132, 79, 156, 1, 116, 183, 241, 248, 193, 210, 216,
      222, 61, 121, 32, 98, 171, 76, 222, 126, 248, 155, 95, 193, 171]),
  ([56, 250, 1],
    [249, 159, 230, 38, 110, 114, 175, 12, 250, 16, 254, 214, 191, 90, 40, 54, 80, 231,
      165, 194, 198, 41, 248, 217, 101, 92, 73, 172, 126, 119, 16, 92]),
  ([227, 176, 196, 66, 152, 252, 28, 20, 154, 251, 244, 200, 153, 111, 185, 36, 39, 174, 65,
    228, 100, 155, 147, 76, 164, 149, 153, 27, 120, 82, 184, 85],
    [93, 246, 224, 226, 118, 19, 89, 211, 10, 130, 117, 5, 142, 41, 159, 204, 3, 129, 83,
      69, 69, 245, 92, 244, 62, 65, 152, 63, 93, 76, 148, 86]),
  ([65, 1, 1, 1, 1, 1, 1, 1, 1, 1, 1, 1, 1, 1, 1, 1, 1, 1, 1, 1, 1],
    [114, 229, 12, 210, 220, 202, 106, 248, 229, 98, 216, 184, 165, 217, 79, 231, 109, 51,
      25, 38, 141, 83, 166, 56, 130, 120, 117, 253, 120, 93, 23, 168]),
  ([114, 229, 12, 210, 220, 202, 106, 248, 229, 98, 216, 184, 165, 217, 79, 231, 109, 51,
    25, 38, 141, 83, 166, 56, 130, 120, 117, 253, 120, 93, 23, 168],
    [113, 141, 224, 218, 174, 60, 107, 105, 54, 132, 206, 13, 111, 61, 148, 200, 138, 222,
      130, 29, 214, 57, 218, 199, 65, 62, 137, 214, 93, 99, 195, 28]),
  ([65, 2, 2, 2, 2, 2, 2, 2, 2, 2, 2, 2, 2, 2, 2, 2, 2, 2, 2, 2, 2],
    [29, 65, 184, 160, 223, 20, 0, 221, 113, 216, 63, 45, 192, 153, 10, 56, 2, 190, 69,
      145, 59, 184, 13, 225, 195, 235, 224, 214, 197, 166, 59, 184]),
  ([29, 65, 184, 160, 223, 20, 0, 221, 113, 216, 63, 45, 192, 153, 10, 56, 2, 190, 69, 145,
    59, 184, 13, 225, 195, 235, 224, 214, 197, 166, 59, 184],
    [155, 237, 63, 141, 5, 0, 195, 137, 203, 109, 55, 175, 141, 223, 170, 38, 141, 39, 88,
      166, 92, 19, 166, 234, 175, 222, 33, 24, 9, 96, 190, 172]),
  ([90, 54, 8, 1, 18, 50, 18, 48, 10, 21, 65, 1, 1, 1, 1, 1, 1, 1, 1, 1, 1, 1, 1, 1, 1, 1,
    1, 1, 1, 1, 1, 18, 21, 65, 2, 2, 2, 2, 2, 2, 2, 2, 2, 2, 2, 2, 2, 2, 2, 2, 2, 2, 2, 2,
    24, 1],
    [173, 136, 205, 72, 110, 192, 82, 167, 27, 199, 53, 230, 189, 10, 70, 244, 66, 59, 82,
      101, 222, 135, 99, 13, 4, 107, 230, 22, 228, 160, 11, 198]),
  ([90, 56, 8, 4, 18, 52, 18, 50, 10, 21, 65, 1, 1, 1, 1, 1, 1, 1, 1, 1, 1, 1, 1, 1, 1, 1,
    1, 1, 1, 1, 1, 18, 25, 10, 21, 65, 2, 2, 2, 2, 2, 2, 2, 2, 2, 2, 2, 2, 2, 2, 2, 2, 2, 2,
    2, 2, 16, 1],
    [169, 208, 58, 214, 139, 120, 122, 89, 22, 27, 69, 228, 159, 203, 190, 140, 103, 73,
      96, 243, 90, 103, 153, 206, 172, 51, 88, 66, 72, 75, 117, 31]),
  ([26, 32, 0, 0, 0, 0, 0, 0, 0, 0, 154, 251, 244, 200, 153, 111, 185, 36, 39, 174, 65, 228,
    100, 155, 147, 76, 164, 149, 153, 27, 120, 82, 184, 85, 56, 1],
    [121, 180, 6, 187, 207, 1, 2, 71, 253, 28, 110, 186, 142, 147, 208, 21, 11, 39, 44,
      246, 25, 154, 239, 34, 224, 174, 106, 12, 34, 22, 57, 147]),
  ([8, 1, 26, 32, 0, 0, 0, 0, 0, 0, 0, 0, 154, 251, 244, 200, 153, 111, 185, 36, 39, 174,
    65, 228, 100, 155, 147, 76, 164, 149, 153, 27, 120, 82, 184, 85, 56, 1],
    [192, 164, 255, 158, 251, 100, 111, 210, 87, 50, 249, 46, 112, 66, 128, 163, 11, 99,
      147, 113, 173, 158, 52, 141, 245, 140, 43, 87, 193, 91, 144, 16]),
  ([26, 32, 0, 0, 0, 0, 0, 0, 0, 1, 253, 28, 110, 186, 142, 147, 208, 21, 11, 39, 44, 246,
    25, 154, 239, 34, 224, 174, 106, 12, 34, 22, 57, 147, 56, 2],
    [5, 200, 219, 103, 116, 186, 6, 189, 30, 111, 123, 127, 61, 134, 102, 21, 229, 88, 69,
      84, 168, 224, 2, 85, 118, 101, 92, 141, 155, 184, 37, 204]),
  ([26, 32, 0, 0, 0, 0, 0, 0, 0, 1, 87, 50, 249, 46, 112, 66, 128, 163, 11, 99, 147, 113,
    173, 158, 52, 141, 245, 140, 43, 87, 193, 91, 144, 16, 56, 2],
    [84, 132, 67, 213, 103, 119, 22, 215, 126, 194, 43, 110, 11, 209, 237, 155, 146, 137,
      126, 170, 221, 85, 162, 177, 193, 250, 231, 65, 69, 145, 35, 76])]

/-- The address that sends. -/
def exampleOwner : Bytes := 65 :: List.replicate 20 1

/-- The address that receives. -/
def exampleRecipient : Bytes := 65 :: List.replicate 20 2

/-- One TRX sun from the owner to the recipient. -/
def exampleTransfer : TransferContract :=
  { ownerAddress := exampleOwner, toAddress := exampleRecipient, amount := 1 }

/-- The bytes of the transfer. -/
def exampleTransferBytes : Bytes :=
  Wire.bytes 1 exampleOwner ++ Wire.bytes 2 exampleRecipient ++ Wire.number 3 1

/-- A vote of the owner for the recipient. -/
def exampleVote : VoteWitnessContract :=
  { ownerAddress := exampleOwner
    votes := [{ voteAddress := exampleRecipient, voteCount := 1 }] }

/-- The bytes of the vote. -/
def exampleVoteBytes : Bytes :=
  Wire.bytes 1 exampleOwner ++ Wire.message 2 (Wire.bytes 1 exampleRecipient ++ Wire.number 2 1)

/-- The codec of the worked histories. -/
@[reducible] def exampleCodec : Codec :=
  Codec.ofTables exampleDigests [(exampleTransferBytes, exampleTransfer)]
    [(exampleVoteBytes, exampleVote)]

/-- `new String` where the platform's charset is UTF-8. What is no UTF-8 is left out
    altogether. -/
def newUtf8String (bytes : Bytes) : String := (String.fromUTF8? ⟨bytes.toArray⟩).getD ""

theorem newUtf8String_encodeString (s : String) : newUtf8String (encodeString s) = s := by
  have hbytes : (⟨(encodeString s).toArray⟩ : ByteArray) = s.toUTF8 := by
    unfold encodeString
    rw [Array.toArray_toList]
  have hread : String.fromUTF8? s.toUTF8 = some s := dif_pos s.isValidUTF8
  unfold newUtf8String
  rw [hbytes, hread, Option.getD_some]

/-- The codec of the worked histories on a platform whose charset is UTF-8. -/
@[reducible] def utf8Codec : Codec :=
  { exampleCodec with newString := newUtf8String }

theorem utf8Codec_charset (s : String) : @decodeString utf8Codec (encodeString s) = s :=
  newUtf8String_encodeString s

/-- A block with a number and nothing else. -/
def emptyBlock (n : Int) : Block :=
  { blockHeader := some { rawData := some { number := n } } }

/-- The transaction with the transfer. -/
def exampleTransaction : Transaction :=
  { rawData := some { contract := [{ type := .transferContract
                                     parameter := exampleTransferBytes }] } }

/-- The transaction with the vote. -/
def voteTransaction : Transaction :=
  { rawData := some { contract := [{ type := .voteWitnessContract
                                     parameter := exampleVoteBytes }] } }

/-- A block with the transfer. -/
def transferBlock (n : Int) : Block :=
  { emptyBlock n with transactions := [exampleTransaction] }

/-- A block on top of another. Blocks with different times are on different
    branches. -/
def childBlock (parent : Block) (timestamp : Int) (transactions : List Transaction) : Block :=
  { transactions := transactions
    blockHeader := some { rawData := some {
      timestamp := timestamp
      parentHash := @Block.hashBytes exampleCodec parent
      number := parent.number + 1 } } }

end Tronscan
