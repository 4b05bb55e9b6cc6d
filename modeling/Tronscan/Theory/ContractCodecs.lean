import Tronscan.Api.Builder
import Tronscan.Theory.AddressCodec

/-!
# Contracts There and Back

Five contract types have an encoder and a decoder, but these are not the two
halves of one format. The encoder prints for the explorer, which says `from` and
`to`, and the decoder reads what the builder's requests say, which is
`ownerAddress` and `toAddress`, as it is documented.

Under the names of the requests, though, the values are the same, and nothing is
lost except the type of an account, which is always that of a normal one.

## Main definitions

* `requestJson`: The JSON of a contract under the names a request has.
* `Endpoint.WellFormed`: The messages one would expect to be read back.
* `Endpoint.received`: What is read of a message.
* `exampleCirce`: A filling of the JSON library.

## Theorems

* `contractDecoder_requestJson`: A decoder reads what the encoder printed, renamed.
* `contractCodec_spec`: And what it makes of it otherwise.
* `not_roundTrips_transfer`: A transfer is not read back as it was printed.
-/

namespace Tronscan

open TransactionSerializer

/-- The names of the explorer that a request has others for. -/
def requestNames : List (String × String) :=
  [("from", "ownerAddress"), ("to", "toAddress"), ("token", "assetName"), ("name", "accountName")]

/-- The name a request has for a printed field. -/
def requestName (name : String) : String :=
  ((requestNames.find? fun names => decide (names.1 = name)).map (·.2)).getD name

/-- The same fields under the names a request has. -/
def requestJson : Json → Json
  | .obj fields => .obj (fields.map fun field => (requestName field.1, field.2))
  | json => json

namespace Endpoint

/-- The addresses are not empty, the amount is a number of 64 bits, and the text is
    UTF-8. -/
def WellFormed : (e : Endpoint) → e.Message → Prop
  | .transfer, c => c.ownerAddress ≠ [] ∧ c.toAddress ≠ [] ∧ IsLong c.amount
  | .transferAsset, c =>
      c.ownerAddress ≠ [] ∧ c.toAddress ≠ [] ∧ IsLong c.amount ∧ IsUtf8 c.assetName
  | .accountCreate, c => c.ownerAddress ≠ [] ∧ c.accountAddress ≠ []
  | .accountUpdate, c => c.ownerAddress ≠ [] ∧ IsUtf8 c.accountName
  | .withdrawBalance, c => c.ownerAddress ≠ []

/-- What is read of a message. An account is read as a normal one. -/
def received : (e : Endpoint) → e.Message → e.Message
  | .accountCreate, c => { c with accountType := 0 }
  | .transfer, c => c
  | .transferAsset, c => c
  | .accountUpdate, c => c
  | .withdrawBalance, c => c

end Endpoint

section Fields

variable [Circe] {json : Json} {key : String}

theorem as_str {s : String} (h : json.field key = some (.str s)) :
    (json.hcursor.downField key).as Circe.decodeString = .ok s :=
  as_string_iff.mpr h

theorem as_num {n : Int} (h : json.field key = some (.num n)) (hn : IsLong n) :
    (json.hcursor.downField key).as Circe.decodeLong = .ok n :=
  as_ok_iff.mpr ⟨_, h, Circe.decodeLong_num n hn.1 hn.2⟩

end Fields

section Codecs

variable [Codec]

theorem decodeAddress_encodeAddress {p : Bytes} (hp : p ≠ []) :
    decodeAddress (encodeAddress p) = some p :=
  decodeAddress_eq_some_iff.mpr (base58Check_bijective.1 p hp)

variable [Circe]

/-- Under the names a request has, a message is read back. -/
theorem contractDecoder_requestJson (hcharset : ∀ s, decodeString (encodeString s) = s)
    (e : Endpoint) (v : e.Message) (h : e.WellFormed v) :
    (e.contractDecoder (requestJson (e.contractEncoder v)).hcursor).run =
      some (.ok (e.received v)) := by
  cases e with
  | transfer =>
      rcases h with ⟨howner, hto, hlong⟩
      have hjson : requestJson (encodeTransferContract v) = .obj
          [("ownerAddress", address v.ownerAddress), ("toAddress", address v.toAddress),
            ("amount", .num v.amount)] := rfl
      simp only [Endpoint.contractDecoder, Endpoint.contractEncoder, hjson, decodeTransferContract]
      rw [run_field _ (as_str rfl), run_field _ (as_str rfl), run_field _ (as_num rfl hlong),
        run_build _ (decodeAddress_encodeAddress howner),
        run_build _ (decodeAddress_encodeAddress hto)]
      rfl
  | transferAsset =>
      rcases h with ⟨howner, hto, hlong, htext⟩
      have hjson : requestJson (encodeTransferAssetContract v) = .obj
          [("ownerAddress", address v.ownerAddress), ("toAddress", address v.toAddress),
            ("amount", .num v.amount), ("assetName", text v.assetName)] := rfl
      simp only [Endpoint.contractDecoder, Endpoint.contractEncoder, hjson,
        decodeTransferAssetContract]
      rw [run_field _ (as_str rfl), run_field _ (as_str rfl), run_field _ (as_str rfl),
        run_field _ (as_num rfl hlong), run_build _ (decodeAddress_encodeAddress howner),
        run_build _ (decodeAddress_encodeAddress hto), encodeString_decodeString hcharset htext]
      rfl
  | accountCreate =>
      rcases h with ⟨howner, haccount⟩
      have hjson : requestJson (encodeAccountCreateContract v) = .obj
          [("ownerAddress", address v.ownerAddress), ("accountAddress", address v.accountAddress),
            ("type", .num v.accountType)] := rfl
      simp only [Endpoint.contractDecoder, Endpoint.contractEncoder, hjson,
        decodeAccountCreateContract]
      rw [run_field _ (as_str rfl), run_field _ (as_str rfl),
        run_build _ (decodeAddress_encodeAddress howner),
        run_build _ (decodeAddress_encodeAddress haccount)]
      rfl
  | accountUpdate =>
      rcases h with ⟨howner, htext⟩
      have hjson : requestJson (encodeAccountUpdateContract v) = .obj
          [("ownerAddress", address v.ownerAddress), ("accountName", text v.accountName)] := rfl
      simp only [Endpoint.contractDecoder, Endpoint.contractEncoder, hjson,
        decodeAccountUpdateContract]
      rw [run_field _ (as_str rfl), run_field _ (as_str rfl),
        run_build _ (decodeAddress_encodeAddress howner), encodeString_decodeString hcharset htext]
      rfl
  | withdrawBalance =>
      have hjson : requestJson (ownerOnly v.ownerAddress) = .obj
          [("ownerAddress", address v.ownerAddress)] := rfl
      simp only [Endpoint.contractDecoder, Endpoint.contractEncoder, hjson,
        decodeWithdrawBalanceContract]
      rw [run_field _ (as_str rfl), run_build _ (decodeAddress_encodeAddress h)]
      rfl

/-- The decoder of an endpoint makes of the encoder's JSON what was encoded. -/
def RoundTrips (e : Endpoint) (v : e.Message) : Prop :=
  (e.contractDecoder (e.contractEncoder v).hcursor).run = some (.ok v)

/-- Under the names a request has, a message is read back, an account as a normal
    one. Under those of the explorer that is so of the two endpoints that have no
    others, and the rest fail. -/
theorem contractCodec_spec (hcharset : ∀ s, decodeString (encodeString s) = s) (e : Endpoint)
    (v : e.Message) (h : e.WellFormed v) :
    (e.contractDecoder (requestJson (e.contractEncoder v)).hcursor).run =
      some (.ok (e.received v)) ∧
    (e = .accountCreate ∨ e = .withdrawBalance →
      (e.contractDecoder (e.contractEncoder v).hcursor).run = some (.ok (e.received v))) ∧
    (e = .transfer ∨ e = .transferAsset ∨ e = .accountUpdate →
      ∃ failure, (e.contractDecoder (e.contractEncoder v).hcursor).run = some (.error failure)) := by
  have hrequest := contractDecoder_requestJson hcharset e v h
  refine ⟨hrequest, ?_, ?_⟩
  · -- No name of theirs is another in a request.
    rintro (rfl | rfl)
    · exact hrequest
    · exact hrequest
  · intro he
    rw [(contractDecoder_outcome e _).left]
    intro haccepted
    -- The first two have `from` for the owner, and the third `name` for the account's name.
    rcases he with rfl | rfl | rfl
    · rcases haccepted ("ownerAddress", .address) (by decide) with ⟨_, hfield, _⟩
      cases hfield
    · rcases haccepted ("ownerAddress", .address) (by decide) with ⟨_, hfield, _⟩
      cases hfield
    · rcases haccepted ("accountName", .text) (by decide) with ⟨_, hfield, _⟩
      cases hfield

end Codecs

/-! ## A transfer -/

/-- The decoders of circe, without numbers in strings. -/
@[reducible] def exampleCirce : Circe where
  decodeString json := match json with
    | .str s => .ok s
    | _ => .error "String"
  decodeLong json := match json with
    | .num n => if -2 ^ 63 ≤ n ∧ n < 2 ^ 63 then .ok n else .error "Long"
    | _ => .error "Long"
  decodeBoolean json := match json with
    | .bool b => .ok b
    | _ => .error "Boolean"
  failedCursor := "Attempt to decode value on failed cursor"
  failureToString failure := failure.message
  decodeString_ok json s := by
    cases json <;> simp
  decodeLong_num n hlow hhigh := if_pos ⟨hlow, hhigh⟩

theorem exampleTransfer_wellFormed : Endpoint.transfer.WellFormed exampleTransfer := by
  refine ⟨by decide, by decide, ?_⟩
  unfold IsLong
  decide

theorem contractCodec_spec_transfer :
    Endpoint.transfer.WellFormed exampleTransfer ∧
    (@Endpoint.contractDecoder utf8Codec exampleCirce .transfer
      (requestJson (@Endpoint.contractEncoder utf8Codec .transfer exampleTransfer)).hcursor).run =
        some (.ok exampleTransfer) :=
  ⟨exampleTransfer_wellFormed, (@contractCodec_spec utf8Codec exampleCirce utf8Codec_charset
    .transfer exampleTransfer exampleTransfer_wellFormed).1⟩

/-- A transfer is not read back from the JSON it was printed as. -/
theorem not_roundTrips_transfer : Endpoint.transfer.WellFormed exampleTransfer ∧
    ¬ @RoundTrips utf8Codec exampleCirce .transfer exampleTransfer := by
  refine ⟨exampleTransfer_wellFormed, fun h => ?_⟩
  rcases (@contractCodec_spec utf8Codec exampleCirce utf8Codec_charset .transfer exampleTransfer
    exampleTransfer_wellFormed).2.2 (Or.inl rfl) with ⟨failure, hfailure⟩
  unfold RoundTrips at h
  rw [hfailure] at h
  cases h

end Tronscan
