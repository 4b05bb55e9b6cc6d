import Tronscan.Core.Decoding
import Tronscan.Core.TransactionJson
import Tronscan.Api.SuperRepresentative

/-!
# Building Transactions

`TransactionBuilderApi.handleTransaction` and the decoders of its five endpoints,
with what they use of `TransactionBuilder`.

A decoder is a `for` over the fields of a JSON object, where the first field that
circe does not accept ends it with a failure. The addresses are decoded behind
its `yield`, where there are no failures left to return and only exceptions.

What circe does with a value is taken from outside: all that is known is that it
takes strings and nothing else for a `String`, and the numbers of 64 bits for a
`Long`. The node, the clock and the signing of a hash are taken from outside too.

## Main definitions

* `Circe`, `BuilderNode`: What is taken from outside.
* `ACursor`: Where a decoder stands in a JSON value.
* `Decoder`: A failure, a value, or an exception.
* `Endpoint`: The five endpoints, with their messages and decoders.
* `handleTransaction`: The answer to a request.

## Theorems

* `Outcome.field`, `Outcome.build`: How a decoder ends, field by field.
-/

namespace Tronscan

/-- What a decoder says where it fails. -/
structure DecodingFailure where
  message : String
  history : List String

/-- What circe does with a value, and what it says of one it does not accept. -/
class Circe where
  decodeString : Json → Except String String
  decodeLong : Json → Except String Int
  decodeBoolean : Json → Except String Bool
  /-- What is said of a field that is not there. -/
  failedCursor : String
  failureToString : DecodingFailure → String
  decodeString_ok : ∀ json s, decodeString json = .ok s ↔ json = .str s
  decodeLong_num : ∀ n : Int, -2 ^ 63 ≤ n → n < 2 ^ 63 → decodeLong (.num n) = .ok n

/-- A place in a JSON value, and the fields that lead there. -/
structure ACursor where
  value : Option Json
  history : List String := []

/-- `Right` is a value, `Left` a failure, and `none` an exception. -/
abbrev Decoder (α : Type) := ExceptT DecodingFailure Option α

/-- The cursor at the top of a document. -/
def Json.hcursor (json : Json) : ACursor := { value := some json }

namespace ACursor

/-- Go down to a field, keeping the way there. A field that is not there leaves
    the cursor without a value. -/
def downField (c : ACursor) (key : String) : ACursor :=
  { value := c.value.bind (·.field key), history := key :: c.history }

variable [Circe] {α : Type}

/-- `c.as[A]` -/
def as (c : ACursor) (decode : Json → Except String α) : Except DecodingFailure α :=
  match c.value with
  | some json => (decode json).mapError (⟨·, c.history⟩)
  | none => .error ⟨Circe.failedCursor, c.history⟩

/-- `c.as[Option[A]]` -/
def asOption (c : ACursor) (decode : Json → Except String α) :
    Except DecodingFailure (Option α) :=
  match c.value with
  | some .null => .ok none
  | some json => ((decode json).mapError (⟨·, c.history⟩)).map some
  | none => .ok none

end ACursor

namespace TransactionSerializer

variable [Codec] [Circe]

/-- `decodeTransferContract`. -/
def decodeTransferContract (c : ACursor) : Decoder TransferContract := do
  let ownerAddress ← (c.downField "ownerAddress").as Circe.decodeString
  let toAddress ← (c.downField "toAddress").as Circe.decodeString
  let amount ← (c.downField "amount").as Circe.decodeLong
  return {
    ownerAddress := ← decodeAddress ownerAddress
    toAddress := ← decodeAddress toAddress
    amount := amount }

/-- `decodeTransferAssetContract`. -/
def decodeTransferAssetContract (c : ACursor) : Decoder TransferAssetContract := do
  let ownerAddress ← (c.downField "ownerAddress").as Circe.decodeString
  let assetName ← (c.downField "assetName").as Circe.decodeString
  let toAddress ← (c.downField "toAddress").as Circe.decodeString
  let amount ← (c.downField "amount").as Circe.decodeLong
  return {
    ownerAddress := ← decodeAddress ownerAddress
    toAddress := ← decodeAddress toAddress
    assetName := encodeString assetName
    amount := amount }

/-- `decodeAccountUpdateContract`, whose name is a text and not an address. -/
def decodeAccountUpdateContract (c : ACursor) : Decoder AccountUpdateContract := do
  let ownerAddress ← (c.downField "ownerAddress").as Circe.decodeString
  let name ← (c.downField "accountName").as Circe.decodeString
  return {
    ownerAddress := ← decodeAddress ownerAddress
    accountName := encodeString name }

/-- The type is that of a normal account, whatever the JSON says. -/
def decodeAccountCreateContract (c : ACursor) : Decoder AccountCreateContract := do
  let ownerAddress ← (c.downField "ownerAddress").as Circe.decodeString
  let accountAddress ← (c.downField "accountAddress").as Circe.decodeString
  return {
    ownerAddress := ← decodeAddress ownerAddress
    accountAddress := ← decodeAddress accountAddress
    accountType := 0 }

/-- `decodeWithdrawBalanceContract`. -/
def decodeWithdrawBalanceContract (c : ACursor) : Decoder WithdrawBalanceContract := do
  let ownerAddress ← (c.downField "ownerAddress").as Circe.decodeString
  return { ownerAddress := ← decodeAddress ownerAddress }

end TransactionSerializer

open TransactionSerializer

/-- The endpoints, each a message type with an encoder and a decoder. -/
inductive Endpoint where
  | transfer
  | transferAsset
  | accountCreate
  | accountUpdate
  | withdrawBalance
  deriving DecidableEq

namespace Endpoint

/-- The type `handleTransaction` is called with. -/
@[reducible] def Message : Endpoint → Type
  | .transfer => TransferContract
  | .transferAsset => TransferAssetContract
  | .accountCreate => AccountCreateContract
  | .accountUpdate => AccountUpdateContract
  | .withdrawBalance => WithdrawBalanceContract

section Codec

variable [Codec]

/-- The encoder that prints the contract of an endpoint back. -/
def contractEncoder : (e : Endpoint) → e.Message → Json
  | .transfer => encodeTransferContract
  | .transferAsset => encodeTransferAssetContract
  | .accountCreate => encodeAccountCreateContract
  | .accountUpdate => encodeAccountUpdateContract
  | .withdrawBalance => fun c => ownerOnly c.ownerAddress

/-- The decoder an endpoint reads its contract with. -/
def contractDecoder [Circe] : (e : Endpoint) → ACursor → Decoder e.Message
  | .transfer => decodeTransferContract
  | .transferAsset => decodeTransferAssetContract
  | .accountCreate => decodeAccountCreateContract
  | .accountUpdate => decodeAccountUpdateContract
  | .withdrawBalance => decodeWithdrawBalanceContract

end Codec

/-- The contract with a message packed into it. -/
def transactionContract [Packing] : (e : Endpoint) → e.Message → Contract
  | .transfer, c => { type := .transferContract, parameter := Packing.transferContract c }
  | .transferAsset, c =>
      { type := .transferAssetContract, parameter := Packing.transferAssetContract c }
  | .accountCreate, c =>
      { type := .accountCreateContract, parameter := Packing.accountCreateContract c }
  | .accountUpdate, c =>
      { type := .accountUpdateContract, parameter := Packing.accountUpdateContract c }
  | .withdrawBalance, c =>
      { type := .withdrawBalanceContract, parameter := Packing.withdrawBalanceContract c }

end Endpoint

/-- What a node answers to a broadcast. -/
structure BroadcastResult where
  result : Bool
  code : String
  message : Bytes

/-- The node, the clock, and the signing of a hash with a private key. `none` is an
    exception. -/
class BuilderNode where
  getNowBlock : Option Block
  now : Int
  sign : Bytes → Bytes → Option ECDSASignature
  broadcastTransaction : Transaction → Option BroadcastResult

/-- What `handleTransaction` is given: the contract, and the optional fields of
    the request. -/
structure TransactionAction where
  contract : Contract
  broadcast : Bool
  key : Option String := none
  data : Option String := none

/-- The answers of an endpoint. -/
inductive BuilderAnswer where
  | ok (json : Json)
  | badRequest (json : Json)

namespace TransactionBuilder

/-- A transaction of one contract, and nothing else set. -/
def buildTransactionWithContract (contract : Contract) : Transaction :=
  { rawData := some { contract := [contract] } }

variable [Codec] [BuilderNode]

/-- A reference to the latest block, five minutes to go, and the time. -/
def setReference (transaction : Transaction) : Option Transaction := do
  let latestBlock ← BuilderNode.getNowBlock
  let raw ← transaction.rawData
  let header := latestBlock.getBlockHeader.getRawData
  return { transaction with
    rawData := some { raw with
      refBlockHash := (latestBlock.rawHash.drop 8).take 8
      refBlockBytes := (fromLong header.number).drop 6
      expiration := header.timestamp + 60 * 5 * 1000
      timestamp := BuilderNode.now } }

/-- The transaction with one signature more. -/
def sign (transaction : Transaction) (pk : Bytes) : Option Transaction := do
  let signature ← BuilderNode.sign pk transaction.hashBytes
  return { transaction with signature := transaction.signature ++ [signature.toByteArray] }

end TransactionBuilder

namespace TransactionBuilderApi

open TransactionBuilder

variable [Codec] [Circe] [Packing]

/-- The request in a body. What it does not say about the data is not a failure. -/
def transactionRequest (e : Endpoint) (json : Json) : Decoder TransactionAction := do
  let contract ← e.contractDecoder (json.hcursor.downField "contract")
  let broadcast ← (json.hcursor.downField "broadcast").asOption Circe.decodeBoolean
  let key ← (json.hcursor.downField "key").asOption Circe.decodeString
  -- `data` is read with `toOption`, where a failure is nothing.
  return {
    contract := e.transactionContract contract
    broadcast := broadcast.getD false
    key := key
    data := ((json.hcursor.downField "data").as Circe.decodeString).toOption }

variable [Signing] [BuilderNode]

/-- The transaction that is asked for, built. -/
def buildTransaction (action : TransactionAction) : Option Transaction := do
  let transaction ← setReference (buildTransactionWithContract action.contract)
  let transaction := match action.data with
    | some data => { transaction with
        rawData := some { transaction.getRawData with data := encodeString data } }
    | none => transaction
  match action.key with
  | some key => sign transaction (← fromHexString key)
  | none => return transaction

/-- The answer to a request. -/
def handleTransaction (e : Endpoint) (json : Json) : Option BuilderAnswer := do
  match ← (transactionRequest e json).run with
  | .error failure =>
      -- The source says `success` here too.
      return .badRequest (.obj [("message", .str (Circe.failureToString failure)),
        ("success", .bool true)])
  | .ok action =>
      let transaction ← buildTransaction action
      let serializedTransaction ← serialize transaction
      if action.broadcast then
        let result ← BuilderNode.broadcastTransaction transaction
        return .ok (.obj [("transaction", serializedTransaction), ("success", .bool result.result),
          ("result", .obj [("code", .str result.code),
            ("message", .str (decodeString result.message))])])
      else
        return .ok (.obj [("transaction", serializedTransaction), ("success", .bool true)])

end TransactionBuilderApi

/-! ## How a decoder ends -/

/-- A decoder ends with a failure unless what it reads is accepted, and then with a
    value if there is one to build. -/
structure Outcome {α : Type} (d : Decoder α) (accepted built : Prop) : Prop where
  right : (∃ v, d.run = some (.ok v)) ↔ accepted ∧ built
  left : (∃ failure, d.run = some (.error failure)) ↔ ¬ accepted

namespace Outcome

variable {α β : Type}

theorem value (v : α) : Outcome (pure v : Decoder α) True True where
  right := iff_of_true ⟨v, rfl⟩ ⟨trivial, trivial⟩
  left := iff_of_false (fun ⟨_, h⟩ => by cases h) (fun h => h trivial)

/-- Building is the last part, where nothing is read any more. -/
theorem build {o : Option β} {d : β → Decoder α} {built : β → Prop}
    (h : ∀ b, Outcome (d b) True (built b)) :
    Outcome (liftM o >>= d) True (∃ b, o = some b ∧ built b) := by
  cases o with
  | none =>
      refine ⟨iff_of_false (fun ⟨_, h⟩ => by cases h) ?_, iff_of_false (fun ⟨_, h⟩ => by cases h) ?_⟩
      · rintro ⟨_, b, hb, _⟩
        cases hb
      · exact fun h => h trivial
  | some b =>
      refine ⟨(h b).right.trans ?_, (h b).left⟩
      constructor
      · rintro ⟨_, hbuilt⟩
        exact ⟨trivial, b, rfl, hbuilt⟩
      · rintro ⟨_, b', hb, hbuilt⟩
        cases hb
        exact ⟨trivial, hbuilt⟩

/-- A field that is not accepted ends the decoder. -/
theorem field {r : Except DecodingFailure β} {d : β → Decoder α} {accepted : Prop}
    {built : β → Prop} (h : ∀ b, Outcome (d b) accepted (built b)) :
    Outcome (liftM r >>= d) ((∃ b, r = .ok b) ∧ accepted) (∃ b, r = .ok b ∧ built b) := by
  cases r with
  | error failure =>
      have hno : ¬ ∃ b, (Except.error failure : Except DecodingFailure β) = .ok b := by
        rintro ⟨_, hb⟩
        cases hb
      refine ⟨iff_of_false (fun ⟨_, h⟩ => by cases h) ?_, iff_of_true ⟨failure, rfl⟩ ?_⟩
      · exact fun h => hno h.1.1
      · exact fun h => hno h.1
  | ok b =>
      have hyes : ∃ b', (Except.ok b : Except DecodingFailure β) = .ok b' := ⟨b, rfl⟩
      refine ⟨(h b).right.trans ?_, (h b).left.trans ?_⟩
      · constructor
        · rintro ⟨haccepted, hbuilt⟩
          exact ⟨⟨hyes, haccepted⟩, b, rfl, hbuilt⟩
        · rintro ⟨⟨_, haccepted⟩, b', hb, hbuilt⟩
          cases hb
          exact ⟨haccepted, hbuilt⟩
      · rw [and_iff_right hyes]

/-- What is built behind a field only matters where all fields are accepted. -/
theorem congr {d : Decoder α} {a a' b b' : Prop} (h : Outcome d a b) (ha : a ↔ a')
    (hb : a → (b ↔ b')) : Outcome d a' b' where
  right := by rw [h.right, ← ha, and_congr_right_iff]; exact hb
  left := by rw [h.left, ha]

/-- What is accepted and cannot be built is an exception. -/
theorem throws {d : Decoder α} {accepted built : Prop} (h : Outcome d accepted built)
    (haccepted : accepted) (hbuilt : ¬ built) : d.run = none := by
  rcases hrun : d.run with _ | failure | v
  · rfl
  · exact absurd haccepted (h.left.mp ⟨failure, hrun⟩)
  · exact absurd (h.right.mp ⟨v, hrun⟩).2 hbuilt

end Outcome

/-- A field that is read hands its value on. -/
theorem run_field {α β : Type} {r : Except DecodingFailure β} {b : β} (d : β → Decoder α)
    (h : r = .ok b) : (liftM r >>= d : Decoder α).run = (d b).run := by
  rw [h]
  rfl

/-- So does what is built. -/
theorem run_build {α β : Type} {o : Option β} {b : β} (d : β → Decoder α) (h : o = some b) :
    (liftM o >>= d : Decoder α).run = (d b).run := by
  rw [h]
  rfl

/-! ## The fields of the endpoints -/

/-- What a decoder takes a field for. An address is a string first. -/
inductive FieldType where
  | address
  | text
  | long
  deriving DecidableEq

/-- Whether circe accepts a value. -/
def FieldType.Accepts [Circe] : FieldType → Json → Prop
  | .address, json | .text, json => ∃ s, Circe.decodeString json = .ok s
  | .long, json => ∃ n, Circe.decodeLong json = .ok n

/-- The fields an endpoint reads, none of which is optional. -/
def Endpoint.requiredFields : Endpoint → List (String × FieldType)
  | .transfer => [("ownerAddress", .address), ("toAddress", .address), ("amount", .long)]
  | .transferAsset =>
      [("ownerAddress", .address), ("assetName", .text), ("toAddress", .address), ("amount", .long)]
  | .accountCreate => [("ownerAddress", .address), ("accountAddress", .address)]
  | .accountUpdate => [("ownerAddress", .address), ("accountName", .text)]
  | .withdrawBalance => [("ownerAddress", .address)]

namespace Endpoint

variable [Codec] [Circe]

/-- Every required field is present and accepted. -/
def Accepted (e : Endpoint) (c : ACursor) : Prop :=
  ∀ field ∈ e.requiredFields, ∃ json,
    (c.downField field.1).value = some json ∧ field.2.Accepts json

/-- Every address field is a string with an address in it. -/
def AddressesDecode (e : Endpoint) (c : ACursor) : Prop :=
  ∀ field ∈ e.requiredFields, field.2 = .address → ∃ s p,
    (c.downField field.1).value = some (.str s) ∧ Base58.decode58Check s = some (some p)

end Endpoint

section Fields

variable [Circe]

theorem as_ok_iff {c : ACursor} {α : Type} {decode : Json → Except String α} {v : α} :
    c.as decode = .ok v ↔ ∃ json, c.value = some json ∧ decode json = .ok v := by
  unfold ACursor.as
  rcases c.value with _ | json
  · exact iff_of_false (fun h => by cases h) (fun ⟨_, h, _⟩ => by cases h)
  · simp only [Option.some.injEq, exists_eq_left']
    cases decode json with
    | error message => exact iff_of_false (fun h => by cases h) (fun h => by cases h)
    | ok w => simp only [Except.mapError, Except.ok.injEq]

theorem exists_as_ok_iff {c : ACursor} {α : Type} {decode : Json → Except String α} :
    (∃ v, c.as decode = .ok v) ↔ ∃ json, c.value = some json ∧ ∃ v, decode json = .ok v := by
  simp only [as_ok_iff]
  constructor
  · rintro ⟨v, json, hjson, hv⟩
    exact ⟨json, hjson, v, hv⟩
  · rintro ⟨json, hjson, v, hv⟩
    exact ⟨v, json, hjson, hv⟩

theorem as_string_iff {c : ACursor} {s : String} :
    c.as Circe.decodeString = .ok s ↔ c.value = some (.str s) := by
  rw [as_ok_iff]
  simp only [Circe.decodeString_ok, exists_eq_right]

end Fields

theorem decodeAddress_eq_some_iff [Codec] {s : String} {p : Bytes} :
    decodeAddress s = some p ↔ Base58.decode58Check s = some (some p) :=
  Option.join_eq_some_iff

/-- Every decoder fails unless its fields are accepted, and throws where an address
    does not decode. -/
theorem contractDecoder_outcome [Codec] [Circe] (e : Endpoint) (c : ACursor) :
    Outcome (e.contractDecoder c) (e.Accepted c) (e.AddressesDecode c) := by
  unfold Endpoint.Accepted Endpoint.AddressesDecode
  -- The fields are read in the order of the source, and the addresses built last.
  cases e with
  | transfer =>
      refine (Outcome.field fun _ => .field fun _ => .field fun _ => .build fun _ => .build fun _ =>
        .value _ : Outcome (decodeTransferContract c) _ _).congr ?_ ?_
      · simp [Endpoint.requiredFields, FieldType.Accepts, exists_as_ok_iff]
      · rintro ⟨⟨s, hs⟩, ⟨t, ht⟩, ⟨n, hn⟩, _⟩
        simp [Endpoint.requiredFields, hs, ht, hn, as_string_iff.mp hs, as_string_iff.mp ht,
          decodeAddress_eq_some_iff]
  | transferAsset =>
      refine (Outcome.field fun _ => .field fun _ => .field fun _ => .field fun _ => .build fun _ =>
        .build fun _ => .value _ : Outcome (decodeTransferAssetContract c) _ _).congr ?_ ?_
      · simp [Endpoint.requiredFields, FieldType.Accepts, exists_as_ok_iff]
      · rintro ⟨⟨s, hs⟩, ⟨a, ha⟩, ⟨t, ht⟩, ⟨n, hn⟩, _⟩
        simp [Endpoint.requiredFields, hs, ha, ht, hn, as_string_iff.mp hs, as_string_iff.mp ht,
          decodeAddress_eq_some_iff]
  | accountCreate =>
      refine (Outcome.field fun _ => .field fun _ => .build fun _ => .build fun _ =>
        .value _ : Outcome (decodeAccountCreateContract c) _ _).congr ?_ ?_
      · simp [Endpoint.requiredFields, FieldType.Accepts, exists_as_ok_iff]
      · rintro ⟨⟨s, hs⟩, ⟨t, ht⟩, _⟩
        simp [Endpoint.requiredFields, hs, ht, as_string_iff.mp hs, as_string_iff.mp ht,
          decodeAddress_eq_some_iff]
  | accountUpdate =>
      refine (Outcome.field fun _ => .field fun _ => .build fun _ =>
        .value _ : Outcome (decodeAccountUpdateContract c) _ _).congr ?_ ?_
      · simp [Endpoint.requiredFields, FieldType.Accepts, exists_as_ok_iff]
      · rintro ⟨⟨s, hs⟩, ⟨a, ha⟩, _⟩
        simp [Endpoint.requiredFields, hs, ha, as_string_iff.mp hs, decodeAddress_eq_some_iff]
  | withdrawBalance =>
      refine (Outcome.field fun _ => .build fun _ =>
        .value _ : Outcome (decodeWithdrawBalanceContract c) _ _).congr ?_ ?_
      · simp [Endpoint.requiredFields, FieldType.Accepts, exists_as_ok_iff]
      · rintro ⟨⟨s, hs⟩, _⟩
        simp [Endpoint.requiredFields, hs, as_string_iff.mp hs, decodeAddress_eq_some_iff]

end Tronscan
