import Tronscan.Theory.AddressCodec
import Tronscan.Core.TransactionJson
import Tronscan.Lib.Traverse

/-!
# Who Signed

A signature keeps its numbers on the way from the key to the page that shows who
signed. But the page shows the same signer next to every signature, the one of
the first.

That is right as long as a transaction is signed by one key, so it is right for
every transaction the builder makes. A transaction of an account with several
keys is signed by several, and there each signature is to be taken on its own,
as the other field of the entry does take it.

## Main definitions

* `signedBy`: The address recovered from a signature and the hash of a transaction.
* `SignersReported`: Each signature is printed with its own signer.

## Theorems

* `signature_roundTrip`: The numbers of a signature are read back.
* `serializeSignature_eq`: The entry of a signature has the first one's signer.
* `signersReported_iff`: When each signature is printed with its own signer.
* `not_signersReported_two`: Two keys under one transaction.
-/

namespace Tronscan

open TransactionSerializer

/-- A signature is read back from its bytes on the wire by way of its Base64 string. -/
theorem signature_roundTrip [Signing] (r s : Int) (v : Int8) (hr : 0 ≤ r ∧ r < 2 ^ 256)
    (hs : 0 ≤ s ∧ s < 2 ^ 256) (hv : 27 ≤ v ∧ v ≤ 30) :
    (ECDSASignature.toByteArray ⟨r, s, v⟩).length = 65 ∧
    (Crypto.getBase64FromByteString (ECDSASignature.toByteArray ⟨r, s, v⟩)).bind
      ECKey.parseSignature = some ⟨r, s, v⟩ := by
  have hfits : ECDSASignature.Fits ⟨r, s, v⟩ := by
    refine ⟨hr.1, ?_, hs.1, ?_⟩
    · exact hr.2
    · exact hs.2
  refine ⟨?_, ?_⟩
  · simp only [ECDSASignature.toByteArray, ByteUtil.merge, List.flatten_cons, List.flatten_nil,
      List.length_append, length_bigIntegerToBytes, List.length_cons, List.length_nil]
  · unfold Crypto.getBase64FromByteString
    rw [signatureFromByteString_toByteArray hfits hv]
    exact parseSignature_toBase64 hfits

section Signers

variable [Codec] [Signing]

/-- The address recovered from a signature of a transaction. -/
def signedBy (transaction : Transaction) (signature : Bytes) : Option Bytes :=
  (Crypto.getBase64FromByteString signature).bind (ECKey.signatureToAddress transaction.hashBytes)

/-- An entry has the address of who made the signature. -/
def Reports (transaction : Transaction) (signature : Bytes) (entry : Json) : Prop :=
  ∃ address, signedBy transaction signature = some address ∧
    entry.field "address" = some (.str (encodeAddress address))

/-- Each signature is printed with its own signer. -/
def SignersReported [Packing] (transaction : Transaction) : Prop :=
  ∀ json, serialize transaction = some json →
    ∃ entries, json.field "signatures" = some (.arr entries) ∧
      List.Forall₂ (Reports transaction) transaction.signature entries

/-- A signature as `ECKey` writes it has the signer that its parts say. -/
theorem signer_toByteArray (transaction : Transaction) {signature : ECDSASignature}
    (h : signature.Fits) (hv : 27 ≤ signature.v ∧ signature.v ≤ 30) :
    signedBy transaction signature.toByteArray =
      (ECKey.recoverKeyBytes transaction.hashBytes signature).map ECKey.computeAddress := by
  unfold signedBy Crypto.getBase64FromByteString ECKey.signatureToAddress ECKey.signatureToKeyBytes
  rw [signatureFromByteString_toByteArray h hv, Option.map_some, Option.bind_some,
    parseSignature_toBase64 h]
  rfl

variable {transaction : Transaction} {first signature : Bytes} {rest : List Bytes}

/-- An entry has the signer of the first signature, whichever it is the entry of. -/
theorem serializeSignature_eq (htransaction : transaction.signature = first :: rest)
    {base64 : String} (hbase64 : Crypto.getBase64FromByteString signature = some base64)
    {address : Bytes} (haddress : signedBy transaction first = some address) :
    serializeSignature transaction signature =
      some (.obj [("bytes", .str base64), ("address", .str (encodeAddress address))]) := by
  rcases Option.bind_eq_some_iff.mp haddress with ⟨firstBase64, hfirst, hsigned⟩
  unfold serializeSignature
  rw [htransaction, List.getElem?_cons_zero, hbase64]
  simp only [Option.bind_eq_bind, Option.bind_some, Option.pure_def, hfirst, hsigned]

/-- So the entry is right exactly when both have one signer. -/
theorem reports_iff (htransaction : transaction.signature = first :: rest)
    (hfirst : ∃ address, signedBy transaction first = some address) {entry : Json}
    (hentry : serializeSignature transaction signature = some entry) :
    Reports transaction signature entry ↔
      signedBy transaction signature = signedBy transaction first := by
  rcases hfirst with ⟨address, haddress⟩
  rcases Option.bind_eq_some_iff.mp hentry with ⟨base64, hbase64, _⟩
  rw [serializeSignature_eq htransaction hbase64 haddress] at hentry
  rw [← Option.some.inj hentry, haddress]
  constructor
  · rintro ⟨own, hown, hfield⟩
    -- Different addresses have different strings.
    rw [hown, encode58Check_injective (Json.str.inj (Option.some.inj hfield))]
  · intro hown
    exact ⟨address, hown, rfl⟩

/-- A transaction is printed when its contracts are. -/
theorem exists_serialize [Packing] (hsigned : ∀ signature ∈ transaction.signature,
      ∃ address, signedBy transaction signature = some address)
    (hcontracts : Serializable transaction) : ∃ json, serialize transaction = some json := by
  refine exists_serialize_iff.mpr ⟨hcontracts, fun signature hsignature => ?_⟩
  rcases hlist : transaction.signature with _ | ⟨first, rest⟩
  · rw [hlist] at hsignature
    exact absurd hsignature List.not_mem_nil
  rcases hsigned first (by rw [hlist]; exact List.mem_cons_self) with ⟨address, haddress⟩
  rcases hsigned signature hsignature with ⟨own, hown⟩
  rcases Option.bind_eq_some_iff.mp hown with ⟨base64, hbase64, _⟩
  exact ⟨_, serializeSignature_eq hlist hbase64 haddress⟩

/-- Once printed, each signature has its own signer when that is always the first one. -/
theorem signersReported_iff_first [Packing] (htransaction : transaction.signature = first :: rest)
    (hfirst : ∃ address, signedBy transaction first = some address)
    (hprinted : ∃ json, serialize transaction = some json) :
    SignersReported transaction ↔ ∀ signature ∈ transaction.signature,
      signedBy transaction signature = signedBy transaction first := by
  have hentries : ∀ {entries}, transaction.signature.mapM (serializeSignature transaction) =
      some entries → (List.Forall₂ (Reports transaction) transaction.signature entries ↔
        ∀ signature ∈ transaction.signature,
          signedBy transaction signature = signedBy transaction first) := by
    intro entries hmap
    refine Lib.forall₂_iff_forall_mem_left ((Lib.mapM_some_iff _ _ _).mp hmap) ?_
    exact fun signature entry hentry => reports_iff htransaction hfirst hentry
  constructor
  · intro h
    rcases hprinted with ⟨json, hjson⟩
    rcases serialize_eq_some hjson with ⟨entries, hmap, hfield⟩
    rcases h json hjson with ⟨entries', hfield', hreports⟩
    rw [hfield] at hfield'
    cases Option.some.inj hfield'
    exact (hentries hmap).mp hreports
  · intro h json hjson
    rcases serialize_eq_some hjson with ⟨entries, hmap, hfield⟩
    exact ⟨entries, hfield, (hentries hmap).mpr h⟩

/-- A transaction whose signatures all have a signer is printed when its contracts
    are, and then with each signature's own signer exactly when they have one in
    common. -/
theorem signersReported_iff [Packing] {transaction : Transaction}
    (hsigned : ∀ signature ∈ transaction.signature,
      ∃ address, signedBy transaction signature = some address) :
    (Serializable transaction → ∃ json, serialize transaction = some json) ∧
    (SignersReported transaction ↔ (Serializable transaction →
      ∀ s ∈ transaction.signature, ∀ t ∈ transaction.signature,
        signedBy transaction s = signedBy transaction t)) := by
  refine ⟨exists_serialize hsigned, ?_⟩
  by_cases hcontracts : Serializable transaction
  · have hprinted := exists_serialize hsigned hcontracts
    rcases hlist : transaction.signature with _ | ⟨first, rest⟩
    · refine iff_of_true ?_ (fun _ s hs => absurd hs List.not_mem_nil)
      intro json hjson
      rcases serialize_eq_some hjson with ⟨entries, hmap, hfield⟩
      exact ⟨entries, hfield, by rw [hlist] at hmap ⊢; cases hmap; exact List.Forall₂.nil⟩
    have hmem : first ∈ transaction.signature := by rw [hlist]; exact List.mem_cons_self
    rw [signersReported_iff_first hlist (hsigned first hmem) hprinted, ← hlist]
    constructor
    · intro h _ s hs t ht
      rw [h s hs, h t ht]
    · intro h s hs
      exact h hcontracts s hs first hmem
  · -- A contract that does not parse leaves nothing to print.
    refine iff_of_true ?_ (fun h => absurd h hcontracts)
    exact fun json hjson => absurd (exists_serialize_iff.mp ⟨json, hjson⟩).1 hcontracts

end Signers

theorem signature_roundTrip_one :
    (0 ≤ (1 : Int) ∧ (1 : Int) < 2 ^ 256) ∧ ((27 : Int8) ≤ 28 ∧ (28 : Int8) ≤ 30) ∧
    (@Crypto.getBase64FromByteString exampleSigning
      (ECDSASignature.toByteArray ⟨1, 2 ^ 256 - 1, 28⟩)).bind (@ECKey.parseSignature exampleSigning) =
        some ⟨1, 2 ^ 256 - 1, 28⟩ := by
  have hr : (0 : Int) ≤ 1 ∧ (1 : Int) < 2 ^ 256 := by decide
  have hv : (27 : Int8) ≤ 28 ∧ (28 : Int8) ≤ 30 := by decide
  exact ⟨hr, hv, (@signature_roundTrip exampleSigning 1 (2 ^ 256 - 1) 28 hr (by decide) hv).2⟩

/-! ## Two keys -/

/-- The transfer, signed by the first key and by the second. -/
def twiceSigned : Transaction :=
  { exampleTransaction with signature := [firstSignature.toByteArray, secondSignature.toByteArray] }

theorem signer_first : @signedBy signersCodec exampleSigning twiceSigned
    firstSignature.toByteArray = some firstSigner := by
  rw [@signer_toByteArray signersCodec exampleSigning _ _
    ⟨by decide, by decide, by decide, by decide⟩ (by decide)]
  decide +kernel

theorem signer_second : @signedBy signersCodec exampleSigning twiceSigned
    secondSignature.toByteArray = some secondSigner := by
  rw [@signer_toByteArray signersCodec exampleSigning _ _
    ⟨by decide, by decide, by decide, by decide⟩ (by decide)]
  decide +kernel

theorem twiceSigned_signed : ∀ signature ∈ twiceSigned.signature,
    ∃ address, @signedBy signersCodec exampleSigning twiceSigned signature = some address := by
  have hlist : twiceSigned.signature = [firstSignature.toByteArray, secondSignature.toByteArray] :=
    rfl
  rw [hlist, List.forall_mem_cons, List.forall_mem_singleton]
  exact ⟨⟨_, signer_first⟩, ⟨_, signer_second⟩⟩

theorem twiceSigned_serializable : @Serializable signersCodec twiceSigned := by
  have hparsed : @Codec.transferContract signersCodec exampleTransferBytes =
      some exampleTransfer := by decide +kernel
  have hcontracts : twiceSigned.getRawData.contract =
      [{ type := .transferContract, parameter := exampleTransferBytes }] := rfl
  unfold Serializable
  rw [hcontracts, List.forall_mem_singleton]
  refine ⟨@encodeTransferContract signersCodec exampleTransfer, ?_⟩
  simp only [serializeContract, hparsed]
  unfold parseFrom Except.map
  rfl

theorem signersReported_iff_twice :
    (∀ signature ∈ twiceSigned.signature,
      ∃ address, @signedBy signersCodec exampleSigning twiceSigned signature = some address) ∧
    ∃ json, @serialize signersCodec exampleSigning examplePacking twiceSigned = some json :=
  ⟨twiceSigned_signed, (@signersReported_iff signersCodec exampleSigning examplePacking twiceSigned
    twiceSigned_signed).1 twiceSigned_serializable⟩

/-- With two keys under it, a transaction is printed with the first signer twice. -/
theorem not_signersReported_two :
    (∀ signature ∈ twiceSigned.signature, signature.length = 65 ∧
      ∃ address, @signedBy signersCodec exampleSigning twiceSigned signature = some address) ∧
    ¬ @SignersReported signersCodec exampleSigning examplePacking twiceSigned := by
  have hlist : twiceSigned.signature = [firstSignature.toByteArray, secondSignature.toByteArray] :=
    rfl
  have hlength : ∀ signature ∈ twiceSigned.signature, signature.length = 65 := by decide +kernel
  have hfirst : firstSignature.toByteArray ∈ twiceSigned.signature := by
    rw [hlist]
    exact List.mem_cons_self
  have hsecond : secondSignature.toByteArray ∈ twiceSigned.signature := by
    rw [hlist]
    exact List.mem_cons_of_mem _ List.mem_cons_self
  have hprinted := @exists_serialize signersCodec exampleSigning twiceSigned examplePacking
    twiceSigned_signed twiceSigned_serializable
  refine ⟨fun signature h => ⟨hlength signature h, twiceSigned_signed signature h⟩, ?_⟩
  intro hreported
  rw [@signersReported_iff_first signersCodec exampleSigning _ _ _ examplePacking hlist
    (twiceSigned_signed _ hfirst) hprinted] at hreported
  have hsame := hreported secondSignature.toByteArray hsecond
  rw [signer_first, signer_second] at hsame
  revert hsame
  decide

end Tronscan
