import Tronscan.Theory.ContractCodecs

/-!
# Malformed Requests

A request that a decoder fails on is answered with `BadRequest`. So a decoder is
to fail on everything it cannot make a contract of, and it does so as long as it
reads. What is wrong with an address it only finds out when it has read
everything, and there it throws: `decode58Check` an `IllegalArgumentException`
at a character that is not in the alphabet, and `copyFrom` a
`NullPointerException` where the checksum is wrong.

## Main definitions

* `Malformed`: A request that is not to be accepted.
* `RejectsMalformed`: A decoder accepts what it should and fails otherwise, and a
  malformed request is a bad one.

## Theorems

* `transactionRequest_left`: A request fails when its contract does, or what comes
  with it.
* `rejectsMalformed_iff`: A malformed request is rejected unless only an address in
  it does not decode.
* `not_rejectsMalformed_address`: The request with such an address.
-/

namespace Tronscan

open TransactionBuilderApi

section Requests

variable [Codec] [Circe]

/-- The contract in a body. -/
abbrev contractOf (json : Json) : ACursor := json.hcursor.downField "contract"

/-- The optional fields of a request are of their types. -/
def OptionsAccepted (json : Json) : Prop :=
  (∃ broadcast, (json.hcursor.downField "broadcast").asOption Circe.decodeBoolean = .ok broadcast) ∧
    ∃ key, (json.hcursor.downField "key").asOption Circe.decodeString = .ok key

/-- A contract that a decoder is to make something of. -/
def Buildable (e : Endpoint) (json : Json) : Prop :=
  e.Accepted (contractOf json) ∧ e.AddressesDecode (contractOf json)

/-- A request that is not to be accepted. -/
def Malformed (e : Endpoint) (json : Json) : Prop :=
  ¬ (Buildable e json ∧ OptionsAccepted json)

variable [Packing] {e : Endpoint} {json : Json}

/-- A failure of the contract is one of the request. -/
theorem transactionRequest_contract {failure : DecodingFailure}
    (h : (e.contractDecoder (contractOf json)).run = some (.error failure)) :
    (transactionRequest e json).run = some (.error failure) := by
  unfold transactionRequest
  rw [ExceptT.run_bind, h]
  rfl

/-- With a contract, a request fails where its options do. -/
theorem transactionRequest_options {v : e.Message}
    (h : (e.contractDecoder (contractOf json)).run = some (.ok v)) :
    (∃ failure, (transactionRequest e json).run = some (.error failure)) ↔
      ¬ OptionsAccepted json := by
  unfold transactionRequest
  rw [ExceptT.run_bind, h]
  refine (Outcome.field fun _ => .field fun _ => .value _ :
    Outcome (_ : Decoder TransactionAction) _ _).left.trans ?_
  rw [and_true]
  rfl

theorem transactionRequest_throws (h : (e.contractDecoder (contractOf json)).run = none) :
    (transactionRequest e json).run = none := by
  unfold transactionRequest
  rw [ExceptT.run_bind, h]
  rfl

variable [Signing] [BuilderNode]

theorem handleTransaction_left
    (h : ∃ failure, (transactionRequest e json).run = some (.error failure)) :
    ∃ answer, handleTransaction e json = some (.badRequest answer) := by
  rcases h with ⟨failure, h⟩
  unfold handleTransaction
  rw [h]
  exact ⟨_, rfl⟩

/-- The decoder makes a contract of what there is one in, and fails on everything
    else. A malformed request is answered with `BadRequest`. -/
structure RejectsMalformed (e : Endpoint) (json : Json) : Prop where
  right : (∃ v, (e.contractDecoder (contractOf json)).run = some (.ok v)) ↔ Buildable e json
  left : (∃ failure, (e.contractDecoder (contractOf json)).run = some (.error failure)) ↔
    ¬ Buildable e json
  badRequest : Malformed e json → ∃ answer, handleTransaction e json = some (.badRequest answer)

/-- Malformed requests are rejected, those excepted whose fields are all accepted
    but do not all hold an address where they should. -/
theorem rejectsMalformed_iff (e : Endpoint) (json : Json) :
    RejectsMalformed e json ↔
      ¬ e.Accepted (contractOf json) ∨ e.AddressesDecode (contractOf json) := by
  have houtcome := contractDecoder_outcome e (contractOf json)
  constructor
  · intro h
    by_cases haccepted : e.Accepted (contractOf json)
    · refine Or.inr (Classical.byContradiction fun hdecode => ?_)
      -- The decoder would have to fail, and has nothing to fail on.
      exact houtcome.left.mp (h.left.mpr fun hbuildable => hdecode hbuildable.2) haccepted
    · exact Or.inl haccepted
  · intro h
    have hleft : ¬ e.Accepted (contractOf json) ↔ ¬ Buildable e json := by
      rcases h with h | h
      · exact iff_of_true h fun hbuildable => h hbuildable.1
      · exact not_congr (and_iff_left h).symm
    refine ⟨houtcome.right, houtcome.left.trans hleft, fun hmalformed => ?_⟩
    by_cases hbuildable : Buildable e json
    · rcases houtcome.right.mpr hbuildable with ⟨v, hv⟩
      refine handleTransaction_left ((transactionRequest_options hv).mpr fun hoptions => ?_)
      exact hmalformed ⟨hbuildable, hoptions⟩
    · rcases houtcome.left.mpr (hleft.mpr hbuildable) with ⟨failure, hfailure⟩
      exact handleTransaction_left ⟨failure, transactionRequest_contract hfailure⟩

end Requests

/-! ## An address that is none -/

/-- A withdrawal by an address too short to have a checksum. -/
def shortAddress : Json := .obj [("contract", .obj [("ownerAddress", .str "1")])]

/-- A node that does not answer. -/
@[reducible] def silentNode : BuilderNode where
  getNowBlock := none
  now := 0
  sign _ _ := none
  broadcastTransaction _ := none

theorem shortAddress_accepted :
    @Endpoint.Accepted exampleCirce .withdrawBalance (contractOf shortAddress) := by
  intro field hfield
  rcases List.mem_singleton.mp hfield with rfl
  exact ⟨.str "1", rfl, "1", rfl⟩

theorem shortAddress_undecodable :
    ¬ @Endpoint.AddressesDecode utf8Codec .withdrawBalance (contractOf shortAddress) := by
  intro h
  have hnull : @Base58.decode58Check utf8Codec "1" = some none := by decide +kernel
  rcases h ("ownerAddress", .address) (by decide) rfl with ⟨s, p, hs, hp⟩
  cases hs
  rw [hnull] at hp
  cases hp

/-- A withdrawal by an address that is none is not answered at all. -/
theorem not_rejectsMalformed_address :
    @Malformed utf8Codec exampleCirce .withdrawBalance shortAddress ∧
    @handleTransaction utf8Codec exampleCirce examplePacking exampleSigning silentNode
      .withdrawBalance shortAddress = none ∧
    ¬ @RejectsMalformed utf8Codec exampleCirce examplePacking exampleSigning silentNode
      .withdrawBalance shortAddress := by
  have hthrows := (@contractDecoder_outcome utf8Codec exampleCirce .withdrawBalance
    (contractOf shortAddress)).throws shortAddress_accepted shortAddress_undecodable
  refine ⟨fun h => shortAddress_undecodable h.1.2, ?_, ?_⟩
  · unfold handleTransaction
    rw [@transactionRequest_throws utf8Codec exampleCirce examplePacking .withdrawBalance
      shortAddress hthrows]
    rfl
  · -- The decoder ought to fail, and throws.
    rintro ⟨_, hleft, _⟩
    rcases hleft.mpr fun hbuildable => shortAddress_undecodable hbuildable.2 with ⟨failure, hfail⟩
    rw [hthrows] at hfail
    cases hfail

end Tronscan
