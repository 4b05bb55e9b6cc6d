import Tronscan.Theory.Signers
import Tronscan.Theory.SignedKeys
import Tronscan.Theory.BuilderRequests

/-!
# Signatures of the Builder

From the private key in a request to the address that the answer prints next to the
signature. The builder hashes what is to be signed, makes a signature of the hash, and
writes it to the wire; the printer hashes the transaction again, reads the signature
back from the wire by way of a string, and recovers the key from it.

A signature is not part of what is hashed. So a transaction can be signed again, by
anybody and in any order, and the signatures that are there stay what they were.

## Main definitions

* `Outside`: What is left outside.
* `LawfulSigner`: What is documented of the signer of the library.
* `Recoverable`: A signature that `ECKey.sign` finds a selector for.
* `signAll`: One signature after the other.

## Theorems

* `sign_spec`: What signing adds, and that it is the key's.
* `signAll_signedBy`: Every key that has signed is found again.
* `handleTransaction_signed`: The answer to a request shows the key it came with.
-/

namespace Tronscan

open TransactionBuilder TransactionBuilderApi TransactionSerializer

/-- What is left outside where keys sign and are recovered on the curve. The signing of
    the node and the recovery that come with the others are not used. -/
class Outside where
  curve : Curve
  signing : Signing
  node : BuilderNode

instance Outside.toCurve [Outside] : Curve := Outside.curve

/-- Signatures are read with the keys recovered by `ECKey`. -/
instance Outside.toSigning [Outside] : Signing := Outside.signing.onCurve

/-- `TransactionBuilder.sign` signs with `ECKey`. -/
instance Outside.toNode [Outside] : BuilderNode :=
  { Outside.node with sign := fun pk hash => ((ECKey.fromPrivateBytes pk).sign hash).toOption }

/-- What is documented of the signer: it makes a signature for every key. -/
class LawfulSigner [Curve] : Prop where
  generated : ∀ d : Int, 0 < d → d < Curve.n → ∀ messageHash : Bytes, messageHash.length = 32 →
    ∃ k x y, Generated d messageHash k x y

/-- The private key is in the range. -/
def IsPrivateKey [Curve] (pk : Bytes) : Prop :=
  0 < BigInteger.ofMagnitude pk ∧ BigInteger.ofMagnitude pk < Curve.n

/-- The first number of the signature is a coordinate. -/
def Recoverable [Curve] (pk messageHash : Bytes) : Prop :=
  ∃ P z, Curve.affine P =
    some ((Curve.generateSignature (BigInteger.ofMagnitude pk) messageHash).1.toNat, z)

/-- One signature after the other. -/
def signAll [Codec] [BuilderNode] (transaction : Transaction) (pks : List Bytes) :
    Option Transaction :=
  pks.foldlM TransactionBuilder.sign transaction

section Keys

variable [Curve] [LawfulCurve] [LawfulSigner] {pk messageHash : Bytes}

/-- A key signs a hash if its signature is recoverable, and then it is recovered. -/
theorem sign_hash (hpk : IsPrivateKey pk) (hhash : messageHash.length = 32) :
    (∀ signature, (ECKey.fromPrivateBytes pk).sign messageHash = .ok signature →
      ECKey.Recovers (ECKey.fromPrivateBytes pk) messageHash signature) ∧
    ((∃ signature, (ECKey.fromPrivateBytes pk).sign messageHash = .ok signature) ↔
      Recoverable pk messageHash) := by
  obtain ⟨k, x, y, h⟩ := LawfulSigner.generated _ hpk.1 hpk.2 messageHash hhash
  have hx : (Curve.generateSignature (BigInteger.ofMagnitude pk) messageHash).1.toNat =
      x % Curve.n := by
    rw [h.r_eq, Int.toNat_natCast]
  by_cases hpoint : ∃ P z, Curve.affine P = some (x % Curve.n, z)
  · obtain ⟨signature, hsign, hrecovers⟩ := ECKey.sign_of_coordinate hhash h hpk.1.le hpoint
    refine ⟨fun other hother => ?_, iff_of_true ⟨signature, hsign⟩ ?_⟩
    · cases hsign.symm.trans hother
      exact hrecovers
    · rw [Recoverable, hx]
      exact hpoint
  · have hthrow := ECKey.sign_of_no_coordinate hhash h hpoint
    have hnever : ¬ ∃ signature, (ECKey.fromPrivateBytes pk).sign messageHash = .ok signature := by
      rintro ⟨signature, hsign⟩
      cases hthrow.symm.trans hsign
    refine ⟨fun signature hsign => absurd ⟨signature, hsign⟩ hnever, iff_of_false hnever ?_⟩
    rw [Recoverable, hx]
    exact hpoint

end Keys

section Transactions

variable [Codec] [Outside] [LawfulCurve] [LawfulSigner]

omit [Codec] [LawfulCurve] [LawfulSigner] in
/-- A signature that recovers its key is read with the key. -/
theorem recoverKeyBytes_of_recovers {key : ECKey} {messageHash : Bytes}
    (hhash : messageHash.length = 32) {signature : ECDSASignature}
    (h : ECKey.Recovers key messageHash signature) :
    ECKey.recoverKeyBytes messageHash signature = some (Curve.getEncoded key.pub) := by
  obtain ⟨hlow, hhigh⟩ := h.selector
  rw [Int8.le_iff_toInt_le] at hlow hhigh
  have hlow27 : (27 : Int8).toInt = 27 := rfl
  have hhigh30 : (30 : Int8).toInt = 30 := rfl
  have hrecover : Signing.recoverPubBytesFromSignature (signature.v.toInt - 27) signature
      messageHash = some (Curve.getEncoded key.pub) := by
    simp only [Signing.recoverPubBytesFromSignature, h.recovers]
  unfold ECKey.recoverKeyBytes
  dsimp only
  rw [if_neg (not_not.mpr hhash), if_neg (by omega), if_neg (by omega), hrecover]

/-- What signing adds to a transaction, and that it is the key's. -/
theorem sign_spec (transaction : Transaction) {pk : Bytes} (hpk : IsPrivateKey pk) :
    (∀ signed, sign transaction pk = some signed →
      ∃ signature, signed = { transaction with signature := transaction.signature ++ [signature] } ∧
        signedBy transaction signature = some (ECKey.fromPrivateBytes pk).getAddress) ∧
    ((∃ signed, sign transaction pk = some signed) ↔ Recoverable pk transaction.hashBytes) := by
  have hhash : transaction.hashBytes.length = 32 := Codec.sha256_length _
  obtain ⟨hrecovers, hexists⟩ := sign_hash hpk hhash
  unfold sign
  change (∀ signed, ((ECKey.fromPrivateBytes pk).sign transaction.hashBytes).toOption >>= _ =
    some signed → _) ∧ ((∃ signed, ((ECKey.fromPrivateBytes pk).sign
      transaction.hashBytes).toOption >>= _ = some signed) ↔ _)
  rw [← hexists]
  rcases hsign : (ECKey.fromPrivateBytes pk).sign transaction.hashBytes with e | signature
  · refine ⟨fun signed h => (by cases h), iff_of_false ?_ ?_⟩
    · rintro ⟨_, h⟩
      cases h
    · rintro ⟨_, h⟩
      cases h
  · refine ⟨fun signed h => ?_, iff_of_true ⟨_, rfl⟩ ⟨_, rfl⟩⟩
    cases h
    have h := hrecovers signature hsign
    refine ⟨signature.toByteArray, rfl, ?_⟩
    rw [signer_toByteArray transaction h.fits h.selector, recoverKeyBytes_of_recovers hhash h]
    rfl

/-- Every key that has signed is found again, and nothing else has changed. It takes
    that all the signatures are recoverable, of the one hash that there is. -/
theorem signAll_signedBy (transaction : Transaction) {pks : List Bytes}
    (hpks : ∀ pk ∈ pks, IsPrivateKey pk) :
    ((∃ signed, signAll transaction pks = some signed) ↔
      ∀ pk ∈ pks, Recoverable pk transaction.hashBytes) ∧
    ∀ signed, signAll transaction pks = some signed → ∃ signatures,
      signed = { transaction with signature := transaction.signature ++ signatures } ∧
      (∀ signature, signedBy signed signature = signedBy transaction signature) ∧
      List.Forall₂ (fun pk signature =>
        signedBy signed signature = some (ECKey.fromPrivateBytes pk).getAddress) pks signatures := by
  induction pks generalizing transaction with
  | nil =>
      refine ⟨iff_of_true ⟨transaction, rfl⟩ fun pk hpk => absurd hpk List.not_mem_nil, ?_⟩
      rintro signed h
      cases h
      exact ⟨[], by rw [List.append_nil], fun _ => rfl, .nil⟩
  | cons pk pks ih =>
      rw [List.forall_mem_cons] at hpks
      obtain ⟨hadded, hexists⟩ := sign_spec transaction hpks.1
      rw [List.forall_mem_cons, ← hexists]
      rcases hsign : sign transaction pk with _ | signed
      · have hnone : signAll transaction (pk :: pks) = none := by
          rw [signAll, List.foldlM_cons, hsign]
          rfl
        rw [hnone]
        refine ⟨iff_of_false (fun ⟨_, h⟩ => by cases h) (fun ⟨⟨_, h⟩, _⟩ => by cases h), ?_⟩
        rintro _ h
        cases h
      · have hrest : signAll transaction (pk :: pks) = signAll signed pks := by
          rw [signAll, List.foldlM_cons, hsign]
          rfl
        obtain ⟨signature, rfl, hsignedBy⟩ := hadded signed hsign
        obtain ⟨hexists', hall⟩ := ih { transaction with
          signature := transaction.signature ++ [signature] } hpks.2
        rw [hrest]
        refine ⟨hexists'.trans (and_iff_right ⟨_, rfl⟩).symm, fun signed' h => ?_⟩
        obtain ⟨signatures, rfl, hsame, hforall⟩ := hall signed' h
        refine ⟨signature :: signatures, ?_, hsame, .cons ((hsame signature).trans hsignedBy) hforall⟩
        simp only [List.append_assoc, List.cons_append, List.nil_append]

variable {action : TransactionAction} {key : String} {pk : Bytes} {unsigned : Transaction}

omit [LawfulCurve] [LawfulSigner] in
/-- With a key, what is built without it is signed at the end. -/
theorem buildTransaction_eq (hkey : action.key = some key) (hdecode : fromHexString key = some pk)
    (hunsigned : buildTransaction { action with key := none } = some unsigned) :
    buildTransaction action = sign unsigned pk ∧ unsigned.signature = [] := by
  rcases Option.bind_eq_some_iff.mp hunsigned with ⟨referring, hreferring, hdata⟩
  have hempty : referring.signature = [] := by
    rcases Option.bind_eq_some_iff.mp hreferring with ⟨block, -, hreferring⟩
    rcases Option.bind_eq_some_iff.mp hreferring with ⟨raw, -, hreferring⟩
    cases hreferring
    rfl
  constructor
  · unfold buildTransaction
    rw [hkey]
    dsimp only
    rw [hreferring, Option.bind_eq_bind, Option.bind_some, hdecode, Option.bind_eq_bind,
      Option.bind_some, Option.some.inj hdata]
  · rw [← Option.some.inj hdata]
    cases action.data with
    | none => exact hempty
    | some data => exact hempty

variable [Circe] [Packing]

/-- The transaction in an answer is shown with its hash and with one signature. Whoever
    checks the signature against the hash finds the address that is shown next to it. -/
def ShowsSigner (answer : Json) (hash address : Bytes) : Prop :=
  ∃ printed bytes, answer.field "transaction" = some printed ∧
    printed.field "hash" = some (.str (toHexString hash)) ∧
    printed.field "signatures" = some (.arr [.obj [("bytes", .str bytes),
      ("address", .str (encodeAddress address))]]) ∧
    ECKey.signatureToAddress hash bytes = some address

omit [LawfulCurve] [LawfulSigner] in
/-- A request is answered when its transaction is built and printed. -/
theorem handleTransaction_spec {e : Endpoint} {json : Json}
    (hrequest : (transactionRequest e json).run = some (.ok action))
    (hbroadcast : ∀ transaction, (BuilderNode.broadcastTransaction transaction).isSome) :
    ((∃ answer, handleTransaction e json = some (.ok answer)) ↔
      ∃ transaction printed, buildTransaction action = some transaction ∧
        serialize transaction = some printed) ∧
    ∀ answer, handleTransaction e json = some (.ok answer) →
      ∃ transaction printed, buildTransaction action = some transaction ∧
        serialize transaction = some printed ∧ answer.field "transaction" = some printed := by
  unfold handleTransaction
  rw [hrequest, Option.bind_eq_bind, Option.bind_some]
  dsimp only
  rcases hbuild : buildTransaction action with _ | transaction
  · refine ⟨iff_of_false (fun ⟨_, h⟩ => by cases h) (fun ⟨_, _, h, _⟩ => by cases h), ?_⟩
    rintro _ h
    cases h
  · rw [Option.bind_eq_bind, Option.bind_some]
    rcases hserialize : serialize transaction with _ | printed
    · refine ⟨iff_of_false (fun ⟨_, h⟩ => by cases h) (fun ⟨_, _, rfl, h⟩ => ?_), ?_⟩
      · rw [hserialize] at h
        cases h
      · rintro _ h
        cases h
    · rw [Option.bind_eq_bind, Option.bind_some]
      obtain ⟨result, hresult⟩ := Option.isSome_iff_exists.mp (hbroadcast transaction)
      rw [hresult]
      split
      · refine ⟨iff_of_true ⟨_, rfl⟩ ⟨transaction, printed, rfl, hserialize⟩, ?_⟩
        rintro _ h
        cases h
        exact ⟨transaction, printed, rfl, hserialize, rfl⟩
      · refine ⟨iff_of_true ⟨_, rfl⟩ ⟨transaction, printed, rfl, hserialize⟩, ?_⟩
        rintro _ h
        cases h
        exact ⟨transaction, printed, rfl, hserialize, rfl⟩

omit [LawfulCurve] [LawfulSigner] [Circe] in
theorem serialize_hash {transaction : Transaction} {printed : Json}
    (h : serialize transaction = some printed) :
    printed.field "hash" = some (.str (toHexString transaction.hashBytes)) := by
  unfold serialize at h
  rcases Option.bind_eq_some_iff.mp h with ⟨contracts, -, h⟩
  rcases Option.bind_eq_some_iff.mp h with ⟨signatures, -, h⟩
  cases h
  rfl

/-- A request with a key is answered when the signature is recoverable, and the answer
    shows the address of the key. -/
theorem handleTransaction_signed {e : Endpoint} {json : Json}
    (hrequest : (transactionRequest e json).run = some (.ok action))
    (hkey : action.key = some key) (hdecode : fromHexString key = some pk) (hpk : IsPrivateKey pk)
    (hunsigned : buildTransaction { action with key := none } = some unsigned)
    (hbroadcast : ∀ transaction, (BuilderNode.broadcastTransaction transaction).isSome) :
    ((∃ answer, handleTransaction e json = some (.ok answer)) ↔
      Recoverable pk unsigned.hashBytes ∧ Serializable unsigned) ∧
    ∀ answer, handleTransaction e json = some (.ok answer) →
      ShowsSigner answer unsigned.hashBytes (ECKey.fromPrivateBytes pk).getAddress := by
  obtain ⟨hbuild, hempty⟩ := buildTransaction_eq hkey hdecode hunsigned
  obtain ⟨hadded, hexists⟩ := sign_spec unsigned hpk
  obtain ⟨hanswered, hanswer⟩ := handleTransaction_spec hrequest hbroadcast
  simp only [hempty, List.nil_append] at hadded
  constructor
  · rw [hanswered, ← hexists, hbuild]
    constructor
    · rintro ⟨signed, printed, hsign, hprinted⟩
      obtain ⟨signature, rfl, -⟩ := hadded signed hsign
      exact ⟨⟨_, hsign⟩, (exists_serialize_iff.mp ⟨printed, hprinted⟩).1⟩
    · rintro ⟨⟨signed, hsign⟩, hcontracts⟩
      obtain ⟨signature, rfl, hsignedBy⟩ := hadded signed hsign
      have hsigned : ∀ own ∈ [signature],
          ∃ address, signedBy { unsigned with signature := [signature] } own = some address :=
        List.forall_mem_singleton.mpr ⟨_, hsignedBy⟩
      have hcontracts' : Serializable { unsigned with signature := [signature] } := hcontracts
      obtain ⟨printed, hprinted⟩ := exists_serialize hsigned hcontracts'
      exact ⟨_, printed, hsign, hprinted⟩
  · intro answer h
    obtain ⟨signed, printed, hsign, hprinted, hfield⟩ := hanswer answer h
    rw [hbuild] at hsign
    obtain ⟨signature, rfl, hsignedBy⟩ := hadded signed hsign
    rcases Option.bind_eq_some_iff.mp hsignedBy with ⟨bytes, hbytes, haddress⟩
    obtain ⟨entries, hentries, hsignatures⟩ := serialize_eq_some hprinted
    have hentry : serializeSignature { unsigned with signature := [signature] } signature = _ :=
      serializeSignature_eq rfl hbytes hsignedBy
    rw [List.mapM_cons, hentry] at hentries
    cases hentries
    have hhash := serialize_hash hprinted
    exact ⟨printed, bytes, hfield, hhash, hsignatures, haddress⟩

end Transactions

/-! ## Two keys on the small curve -/

theorem smallR_spec : ∀ k < 31, 0 < smallR k → (k : Int) ^ 30 % 31 = 1 := by decide

/-- One of the first two nonces will do. -/
theorem exists_nonce {d : Int} (hd : 0 < d) (hlt : d < 31) (e : Int) :
    ∃ k < 31, 0 < smallR k ∧ 0 < smallS d e k := by
  have hfirst : smallR 1 = 2 := by decide
  have hsecond : smallR 2 = 7 := by decide
  unfold smallS
  by_cases h : (e + 2 * d) % 31 = 0
  · refine ⟨2, by decide, by decide, ?_⟩
    rw [hsecond]
    omega
  · refine ⟨1, by decide, by decide, ?_⟩
    rw [hfirst]
    omega

theorem smallNonce_spec {d : Int} (hd : 0 < d) (hlt : d < 31) (messageHash : Bytes) :
    smallNonce d messageHash < 31 ∧ 0 < smallR (smallNonce d messageHash) ∧
      0 < smallS d (BigInteger.ofMagnitude messageHash) (smallNonce d messageHash) := by
  obtain ⟨k, hk, hnumbers⟩ := exists_nonce hd hlt (BigInteger.ofMagnitude messageHash)
  unfold smallNonce
  dsimp only
  set start := (messageHash.headD 0).toNat
  set good : ℕ → Bool := fun k =>
    0 < smallR k ∧ 0 < smallS d (BigInteger.ofMagnitude messageHash) k
  have hmem : k ∈ (List.range 31).map fun i => (start + i) % 31 :=
    List.mem_map.mpr ⟨(k + 31 - start % 31) % 31, List.mem_range.mpr (by omega), by omega⟩
  rcases hfind : ((List.range 31).map fun i => (start + i) % 31).find? good with _ | nonce
  · exact absurd (decide_eq_true hnumbers) (List.find?_eq_none.mp hfind k hmem)
  · obtain ⟨i, -, hi⟩ := List.mem_map.mp (List.mem_of_find?_eq_some hfind)
    have hgood : good nonce = true := List.find?_some hfind
    exact ⟨by rw [← hi]; exact Nat.mod_lt _ (by decide), of_decide_eq_true hgood⟩

theorem smallCurve_signer : @LawfulSigner smallCurve := by
  refine @LawfulSigner.mk smallCurve fun d hd hlt messageHash _ => ?_
  obtain ⟨hk, hr, hs⟩ := smallNonce_spec hd hlt messageHash
  set k := smallNonce d messageHash with hdef
  rcases haffine : smallAffine k with _ | ⟨x, y⟩
  · rw [smallR, haffine] at hr
    exact absurd hr (Nat.lt_irrefl 0)
  · have hx : smallR k = x % 31 := by rw [smallR, haffine, Option.elim_some]
    refine ⟨k, x, y, @Generated.mk smallCurve d messageHash k x y ?_ ?_ ?_ hs ?_ ?_⟩
    · show smallAffine (k • (1 : ZMod 31)) = _
      rw [nsmul_one, haffine]
    · exact congrArg _ hx
    · exact Int.natCast_pos.mpr hr
    · exact Int.emod_lt_of_pos _ (by decide)
    · show k * (k ^ 29 * (BigInteger.ofMagnitude messageHash + smallR k * d) % 31) ≡ _ [ZMOD 31]
      have hone : (k : Int) ^ 30 ≡ 1 [ZMOD 31] := smallR_spec k hk hr
      calc k * (k ^ 29 * (BigInteger.ofMagnitude messageHash + smallR k * d) % 31)
          ≡ k * (k ^ 29 * (BigInteger.ofMagnitude messageHash + smallR k * d)) [ZMOD 31] :=
            (Int.mod_modEq _ _).mul_left _
        _ = k ^ 30 * (BigInteger.ofMagnitude messageHash + smallR k * d) := by ring
        _ ≡ 1 * (BigInteger.ofMagnitude messageHash + smallR k * d) [ZMOD 31] := hone.mul_right _
        _ = BigInteger.ofMagnitude messageHash + smallR k * d := one_mul _

/-- A node that accepts everything. -/
@[reducible] def smallOutside : Outside where
  curve := smallCurve
  signing := exampleSigning
  node :=
    { getNowBlock := some (emptyBlock 1)
      now := 0
      sign _ _ := none
      broadcastTransaction _ := some ⟨true, "SUCCESS", []⟩ }

theorem signAll_signedBy_two : ∃ signed signatures,
    @signAll utf8Codec (@Outside.toNode smallOutside) exampleTransaction [[1], [2]] = some signed ∧
    signed = { exampleTransaction with signature := signatures } ∧
    List.Forall₂ (fun pk signature =>
      @signedBy utf8Codec (@Outside.toSigning smallOutside) signed signature =
        some (@ECKey.getAddress smallCurve (@Outside.toSigning smallOutside)
          (@ECKey.fromPrivateBytes smallCurve pk))) [[1], [2]] signatures := by
  have hpks : ∀ pk ∈ [[1], [2]], @IsPrivateKey smallCurve pk := by
    unfold IsPrivateKey
    decide
  have hrecoverable : ∀ pk ∈ [[1], [2]], @Recoverable smallCurve pk
      (@Transaction.hashBytes utf8Codec exampleTransaction) := by
    rw [List.forall_mem_cons, List.forall_mem_singleton]
    exact ⟨⟨(18 : ZMod 31), 22, by decide⟩, ⟨(18 : ZMod 31), 22, by decide +kernel⟩⟩
  have h := @signAll_signedBy utf8Codec smallOutside smallCurve_lawful smallCurve_signer
    exampleTransaction [[1], [2]] hpks
  obtain ⟨signed, hsigned⟩ := h.1.mpr hrecoverable
  obtain ⟨signatures, hsignatures, -, hforall⟩ := h.2 signed hsigned
  exact ⟨signed, signatures, hsigned, hsignatures, hforall⟩

/-- A request for the transfer, with a key. -/
def keyRequest : Json :=
  .obj [("contract", .obj [("ownerAddress", .str (@encodeAddress utf8Codec exampleOwner)),
    ("toAddress", .str (@encodeAddress utf8Codec exampleRecipient)), ("amount", .num 1)]),
    ("key", .str "01")]

/-- A request that has a transfer signed with a key. -/
def keyAction : TransactionAction where
  contract := { type := .transferContract, parameter := exampleTransferBytes }
  broadcast := false
  key := some "01"

theorem keyRequest_action :
    (@transactionRequest utf8Codec exampleCirce examplePacking .transfer keyRequest).run =
      some (.ok keyAction) := by
  have hcontract : (@Endpoint.contractDecoder utf8Codec exampleCirce .transfer
      (contractOf keyRequest)).run = some (.ok exampleTransfer) := by
    have hamount : @ACursor.as exampleCirce Int ((contractOf keyRequest).downField "amount")
        exampleCirce.decodeLong = .ok 1 := rfl
    unfold Endpoint.contractDecoder decodeTransferContract
    rw [run_field _ (@as_string_iff exampleCirce _ _ |>.mpr rfl),
      run_field _ (@as_string_iff exampleCirce _ _ |>.mpr rfl), run_field _ hamount,
      run_build _ (@decodeAddress_encodeAddress utf8Codec exampleOwner (by decide)),
      run_build _ (@decodeAddress_encodeAddress utf8Codec exampleRecipient (by decide))]
    rfl
  unfold transactionRequest
  rw [ExceptT.run_bind, hcontract]
  rfl

/-- What is built for it. -/
def keyTransaction : Transaction where
  rawData := some { exampleTransaction.getRawData with
    refBlockHash := ((@Block.rawHash utf8Codec (emptyBlock 1)).drop 8).take 8
    refBlockBytes := (fromLong 1).drop 6
    expiration := 60 * 5 * 1000 }

theorem keyTransaction_serializable : @Serializable utf8Codec keyTransaction := by
  have hparsed : @Codec.transferContract utf8Codec exampleTransferBytes = some exampleTransfer := by
    decide
  have hcontracts : keyTransaction.getRawData.contract = [keyAction.contract] := rfl
  unfold Serializable
  rw [hcontracts, List.forall_mem_singleton]
  refine ⟨@encodeTransferContract utf8Codec exampleTransfer, ?_⟩
  simp only [serializeContract, keyAction, hparsed]
  unfold parseFrom Except.map
  rfl

theorem handleTransaction_signed_key : ∃ answer,
    @handleTransaction utf8Codec exampleCirce examplePacking (@Outside.toSigning smallOutside)
      (@Outside.toNode smallOutside) .transfer keyRequest = some (.ok answer) ∧
    @ShowsSigner utf8Codec smallOutside answer (@Transaction.hashBytes utf8Codec keyTransaction)
      (@ECKey.getAddress smallCurve (@Outside.toSigning smallOutside)
        (@ECKey.fromPrivateBytes smallCurve [1])) := by
  have h := @handleTransaction_signed utf8Codec smallOutside smallCurve_lawful smallCurve_signer
    keyAction "01" [1] keyTransaction exampleCirce examplePacking .transfer keyRequest
    keyRequest_action rfl (by decide) (by unfold IsPrivateKey; decide) rfl (fun _ => rfl)
  obtain ⟨answer, hanswer⟩ := h.1.mpr
    ⟨⟨(1 : ZMod 31), 12, by decide⟩, keyTransaction_serializable⟩
  exact ⟨answer, hanswer, h.2 answer hanswer⟩

end Tronscan
