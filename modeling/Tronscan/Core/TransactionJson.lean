import Tronscan.Core.Signature
import Tronscan.Core.Serializer
import Tronscan.Core.Wire
import Tronscan.Lib.Base64
import Tronscan.Lib.Traverse

/-!
# Transactions as JSON

`TransactionSerializer.serialize`, which prints a transaction with its contracts
and its signatures, and says of each signature who made it.

The signer is not part of a signature and is recovered from it and the hash of
the transaction. Note which signature the code recovers the signer from.

## Main definitions

* `deepMerge`: Fields added to a JSON object.
* `serializeContractWithType`: The JSON of a contract, with its type.
* `serializeSignature`: The JSON of a signature.
* `serialize`: The JSON of a transaction.
* `Signing.ofTables`: A way of reading signatures that knows the given answers.

## Theorems

* `serialize_eq_some`: What a transaction is printed as.
* `exists_serialize_iff`: When it is printed at all.
-/

namespace Tronscan

/-- The rest of the generated message code: the size of a transaction and the
    bytes of the contracts the API builds. -/
class Packing where
  serializedSize : Transaction → Int
  transferContract : TransferContract → Bytes
  transferAssetContract : TransferAssetContract → Bytes
  accountCreateContract : AccountCreateContract → Bytes
  accountUpdateContract : AccountUpdateContract → Bytes
  withdrawBalanceContract : WithdrawBalanceContract → Bytes

namespace TransactionSerializer

/-- `deepMerge` with an object none of whose fields is an object. -/
def deepMerge (json : Json) (fields : List (String × Json)) : Json :=
  match json with
  | .obj old => .obj (fields ++ old.filter fun field => field.1 ∉ fields.map (·.1))
  | _ => .obj fields

variable [Codec]

/-- `serializeContract` with `includeType`. -/
def serializeContractWithType (contract : Contract) : Except Thrown Json :=
  (serializeContract contract).map fun contractJson =>
    deepMerge contractJson
      [("contractType", .str contract.type.name), ("contractTypeId", .num contract.type.value)]

variable [Signing]

/-- The entry of a signature. The address is read off the transaction's first one. -/
def serializeSignature (transaction : Transaction) (signature : Bytes) : Option Json := do
  let bytes ← Crypto.getBase64FromByteString signature
  -- Whatever the signature, the address is that of the first.
  let first ← transaction.signature[0]?
  let firstBase64 ← Crypto.getBase64FromByteString first
  let address ← ECKey.signatureToAddress transaction.hashBytes firstBase64
  return .obj [("bytes", .str bytes), ("address", .str (encodeAddress address))]

variable [Packing]

/-- The JSON of a transaction, `none` when a payload or a signature throws. -/
def serialize (transaction : Transaction) : Option Json := do
  let contracts ← transaction.getRawData.contract.mapM fun contract =>
    (serializeContractWithType contract).toOption
  let signatures ← transaction.signature.mapM (serializeSignature transaction)
  return .obj [("hash", .str transaction.hash),
    ("timestamp", .num transaction.getRawData.timestamp),
    ("contracts", .arr contracts),
    ("data", .str (decodeString transaction.getRawData.data)),
    ("bandwidth", .num (Packing.serializedSize transaction)),
    ("signatures", .arr signatures)]

end TransactionSerializer

open TransactionSerializer

/-- A field of a JSON object. -/
def Json.field (json : Json) (key : String) : Option Json :=
  match json with
  | .obj fields => (fields.find? fun field => decide (field.1 = key)).map (·.2)
  | _ => none

section Serialize

variable [Codec]

/-- The payloads of the contracts are of the declared types. -/
def Serializable (transaction : Transaction) : Prop :=
  ∀ contract ∈ transaction.getRawData.contract, ∃ json, serializeContract contract = .ok json

theorem exists_serializeContractWithType_iff {contract : Contract} :
    (∃ json, (serializeContractWithType contract).toOption = some json) ↔
      ∃ json, serializeContract contract = .ok json := by
  unfold serializeContractWithType
  cases serializeContract contract with
  | error e => exact iff_of_false (fun ⟨_, h⟩ => by cases h) (fun ⟨_, h⟩ => by cases h)
  | ok json => exact iff_of_true ⟨_, rfl⟩ ⟨json, rfl⟩

variable [Signing] [Packing]

/-- What a transaction is printed as has the entries of its signatures, in their order. -/
theorem serialize_eq_some {transaction : Transaction} {json : Json}
    (h : serialize transaction = some json) :
    ∃ signatures, transaction.signature.mapM (serializeSignature transaction) = some signatures ∧
      json.field "signatures" = some (.arr signatures) := by
  unfold serialize at h
  rcases Option.bind_eq_some_iff.mp h with ⟨contracts, _, h⟩
  rcases Option.bind_eq_some_iff.mp h with ⟨signatures, hsignatures, h⟩
  refine ⟨signatures, hsignatures, ?_⟩
  rw [← Option.some.inj h]
  rfl

/-- A transaction is printed when its contracts and the entries of its signatures are. -/
theorem exists_serialize_iff {transaction : Transaction} :
    (∃ json, serialize transaction = some json) ↔ Serializable transaction ∧
      ∀ signature ∈ transaction.signature,
        ∃ entry, serializeSignature transaction signature = some entry := by
  -- The contracts come first, and one that throws leaves nothing.
  have hcontracts : Serializable transaction ↔
      ∃ contracts, transaction.getRawData.contract.mapM
        (fun contract => (serializeContractWithType contract).toOption) = some contracts := by
    rw [Lib.exists_mapM_some_iff]
    exact forall₂_congr fun contract _ => exists_serializeContractWithType_iff.symm
  rw [hcontracts, ← Lib.exists_mapM_some_iff]
  unfold serialize
  constructor
  · rintro ⟨json, h⟩
    rcases Option.bind_eq_some_iff.mp h with ⟨contracts, hc, h⟩
    rcases Option.bind_eq_some_iff.mp h with ⟨entries, he, _⟩
    exact ⟨⟨contracts, hc⟩, entries, he⟩
  · rintro ⟨⟨contracts, hc⟩, entries, he⟩
    rw [hc, he]
    exact ⟨_, rfl⟩

end Serialize

/-! ## A signed transaction -/

/-- The signatures whose keys and hashes are given, with the prefix of the main net. -/
@[reducible] def Signing.ofTables (keys : List ((Int × ECDSASignature × Bytes) × Bytes))
    (hashes : List (Bytes × Bytes)) : Signing where
  base64Encode bytes := String.ofList (Lib.Base64.encode bytes)
  base64Decode s := Lib.Base64.decode s.toList
  base64Decode_encode bytes := by rw [String.toList_ofList, Lib.Base64.decode_encode]
  recoverPubBytesFromSignature recId sig hash := Wire.lookup keys (recId, sig, hash)
  sha3 bytes := (Wire.lookup hashes bytes).getD []
  prefixByte := 65

/-- The bytes of the contracts and the sizes of transactions on the wire. -/
@[reducible] def examplePacking : Packing where
  serializedSize transaction := (Wire.transaction transaction).length
  transferContract c :=
    Wire.bytes 1 c.ownerAddress ++ Wire.bytes 2 c.toAddress ++ Wire.number 3 c.amount
  transferAssetContract c := Wire.bytes 1 c.assetName ++ Wire.bytes 2 c.ownerAddress ++
    Wire.bytes 3 c.toAddress ++ Wire.number 4 c.amount
  accountCreateContract c := Wire.bytes 1 c.ownerAddress ++ Wire.bytes 2 c.accountAddress ++
    Wire.number 3 c.accountType
  accountUpdateContract c := Wire.bytes 1 c.accountName ++ Wire.bytes 2 c.ownerAddress
  withdrawBalanceContract c := Wire.bytes 1 c.ownerAddress

/-- The public key of 1, in bytes. -/
def firstKey : Bytes :=
  [4, 121, 190, 102, 126, 249, 220, 187, 172, 85, 160, 98, 149, 206, 135, 11, 7, 2, 155, 252, 219,
    45, 206, 40, 217, 89, 242, 129, 91, 22, 248, 23, 152, 72, 58, 218, 119, 38, 163, 196, 101, 93,
    164, 251, 252, 14, 17, 8, 168, 253, 23, 180, 72, 166, 133, 84, 25, 156, 71, 208, 143, 251, 16,
    212, 184]

/-- The hash of the first key. -/
def firstKeyHash : Bytes :=
  [192, 166, 196, 36, 172, 113, 87, 174, 64, 131, 152, 223, 126, 95, 69, 82, 9, 26, 105, 18, 93,
    93, 252, 183, 184, 194, 101, 144, 41, 57, 91, 223]

/-- The public key of 2, in bytes. -/
def secondKey : Bytes :=
  [4, 198, 4, 127, 148, 65, 237, 125, 109, 48, 69, 64, 110, 149, 192, 124, 216, 92, 119, 142, 75,
    140, 239, 60, 167, 171, 172, 9, 185, 92, 112, 158, 229, 26, 225, 104, 254, 166, 61, 195, 57,
    163, 197, 132, 25, 70, 108, 234, 238, 247, 246, 50, 101, 50, 102, 208, 225, 35, 100, 49, 169,
    80, 207, 229, 42]

/-- The hash of the second key. -/
def secondKeyHash : Bytes :=
  [238, 223, 26, 156, 104, 179, 244, 168, 177, 161, 3, 43, 43, 90, 213, 196, 121, 92, 2, 101, 20,
    248, 49, 124, 122, 33, 94, 33, 141, 204, 214, 207]

/-- The address of the first key. -/
def firstSigner : Bytes := 65 :: firstKeyHash.drop 12

/-- The address of the second key. -/
def secondSigner : Bytes := 65 :: secondKeyHash.drop 12

/-- A signature of the transfer by the first key. -/
def firstSignature : ECDSASignature where
  r := 55066263022277343669578718895168534326250603453777594175500187360389116729240
  s := 17766004601456814924008077527855999058998994843075336382634323410789941240349
  v := 27

/-- A signature of the transfer by the second key. -/
def secondSignature : ECDSASignature where
  r := 89565891926547004231252920425935692360644145829622209833684329913297188986597
  s := 13019718097478642146682107237935470800599559384733628745948816367738520494983
  v := 27

/-- SHA-256 of the addresses. -/
def signerDigests : List (Bytes × Bytes) := [
  (firstSigner,
    [109, 214, 231, 47, 255, 62, 72, 110, 201, 195, 198, 6, 67, 72, 96, 162, 160, 37, 33, 170, 33,
      120, 49, 254, 213, 84, 47, 31, 52, 45, 215, 113]),
  ([109, 214, 231, 47, 255, 62, 72, 110, 201, 195, 198, 6, 67, 72, 96, 162, 160, 37, 33, 170, 33,
    120, 49, 254, 213, 84, 47, 31, 52, 45, 215, 113],
    [177, 100, 251, 31, 57, 90, 29, 193, 188, 124, 136, 171, 90, 215, 40, 111, 63, 212, 197, 78, 242,
      136, 65, 113, 217, 164, 202, 196, 129, 120, 180, 225]),
  (secondSigner,
    [249, 70, 91, 112, 13, 30, 221, 134, 38, 234, 83, 59, 167, 42, 81, 232, 219, 244, 100, 157, 106,
      77, 238, 73, 158, 245, 72, 24, 148, 130, 62, 1]),
  ([249, 70, 91, 112, 13, 30, 221, 134, 38, 234, 83, 59, 167, 42, 81, 232, 219, 244, 100, 157, 106,
    77, 238, 73, 158, 245, 72, 24, 148, 130, 62, 1],
    [169, 148, 105, 150, 202, 64, 26, 139, 17, 54, 106, 10, 136, 252, 189, 26, 68, 131, 167, 213, 211,
      178, 241, 38, 254, 177, 183, 78, 166, 152, 129, 135])]

/-- The codec of the worked histories, with the digests of the signers. -/
@[reducible] def signersCodec : Codec :=
  Codec.ofTables (exampleDigests ++ signerDigests) [(exampleTransferBytes, exampleTransfer)]
    [(exampleVoteBytes, exampleVote)]

/-- What the two signatures of the transfer are read as. -/
@[reducible] def exampleSigning : Signing :=
  let hash := @Transaction.hashBytes signersCodec exampleTransaction
  Signing.ofTables [((0, firstSignature, hash), firstKey), ((0, secondSignature, hash), secondKey)]
    [(firstKey.drop 1, firstKeyHash), (secondKey.drop 1, secondKeyHash)]

end Tronscan
