import Tronscan.Api.SuperRepresentative
import Tronscan.Core.Wire

/-!
# Who Changes a Super Representative's Row

The row of an address should change only on behalf of the address: somebody must
have submitted a transaction that updates its witness, signed by its key.

What a token takes is less. The payload of the first contract is read as a
`WitnessUpdateContract`, and the declared type is not looked at. The payloads of
the other contracts have their owner in the same field, so nearly any transaction
will do, and all transactions of an address are published on the chain, with
their signatures. So anybody can get a token for anybody who ever made a
transfer.

Apart from that the endpoints are sound. If a token is handed out only for
transactions whose first contract is of the right type, then in any run of
requests, whatever their order and however their steps interleave, a row changes
only if its address has submitted such a transaction. And an update changes no
row but that of the address it was accepted for, in any case.

## Main definitions

* `Authorises`: A transaction stands for an address.
* `SrEvent.Unforged`: A valid token in a request has been handed out before.
* `SrEvent.Typed`: A token is handed out for a contract of the right type only.
* `SafeStep`: A step changes only rows it may change.

## Theorems

* `authorises_iff`: What is missing from a transaction that gets a token.
* `srInv_step`: Tokens and updates are authorised.
* `safeStep_of_typed`: Runs that hand out tokens for the right type only.
* `not_alwaysSafe_transfer`: A transfer gets a token.
-/

namespace Tronscan

variable [Codec] [Credentials]

/-- The first contract of the transaction updates the witness with the address,
    and the first signature is by its key. -/
def Authorises (address : String) (transaction : Transaction) : Prop :=
  ∃ contract signature witnessUpdate signatureAddress,
    transaction.getRawData.contract.head? = some contract ∧
    contract.type = .witnessUpdateContract ∧
    Codec.witnessUpdateContract contract.parameter = some witnessUpdate ∧
    encodeAddress witnessUpdate.ownerAddress = address ∧
    transaction.signature.head? = some signature ∧
    Credentials.signatureToAddress transaction.hashBytes signature = some signatureAddress ∧
    encodeAddress signatureAddress = address

/-- No run has requested anything yet. -/
def SrState.Fresh (s : SrState) : Prop := s.updates = [] ∧ s.submitted = [] ∧ s.tokens = []

/-- A row changes only if a transaction that stands for its address has been
    submitted, and a save changes no row but that of its update. -/
structure SafeStep (s : SrState) (e : SrEvent) (t : SrState) : Prop where
  authorised : ∀ address, t.row address ≠ s.row address →
    ∃ transaction ∈ s.submitted, Authorises address transaction
  own : ∀ i, e = .save i → ∀ update ∈ s.updates[i]?, ∀ address,
    address ≠ update.entity.address → t.row address = s.row address

omit [Codec] in
/-- A token that is valid has been handed out before. -/
def SrEvent.Unforged (s : SrState) : SrEvent → Prop
  | .updateSr _ _ (some token) => (Credentials.decode token).isSome → token ∈ s.tokens
  | _ => True

/-- A token is handed out for a transaction whose first contract has the type
    `WitnessUpdateContract` only. -/
def SrEvent.Typed : SrEvent → Prop
  | .requestToken jsonData => (AuthApi.requestToken jsonData).isSome →
      ∃ transaction ∈ AuthApi.submitted jsonData, ∃ contract ∈ transaction.getRawData.contract.head?,
        contract.type = .witnessUpdateContract
  | _ => True

/-- A transaction that gets a token for an address stands for it exactly when its
    first contract is of the right type. -/
theorem authorises_iff {jsonData address : String} {transaction : Transaction} {contract : Contract}
    (htoken : AuthApi.requestToken jsonData = some (Credentials.encode address))
    (htransaction : AuthApi.submitted jsonData = some transaction)
    (hcontract : transaction.getRawData.contract.head? = some contract) :
    Authorises address transaction ↔ contract.type = .witnessUpdateContract := by
  rcases requestToken_spec htoken with ⟨transaction', signature, signatureAddress, contract',
    witnessUpdate, htransaction', hsignature, haddress, hcontract', hupdate, howner, hencode⟩
  cases htransaction.symm.trans htransaction'
  cases hcontract.symm.trans hcontract'
  -- The token tells the address.
  have hsame : address = encodeAddress signatureAddress := by
    have hdecode := congrArg Credentials.decode hencode
    rw [Credentials.decode_encode, Credentials.decode_encode] at hdecode
    exact Option.some.inj hdecode
  constructor
  · rintro ⟨_, _, _, _, hcontract', htype, _⟩
    cases hcontract.symm.trans hcontract'
    exact htype
  · intro htype
    exact ⟨contract, signature, witnessUpdate, signatureAddress, hcontract, htype, hupdate,
      by rw [howner, hsame], hsignature, haddress, hsame.symm⟩

/-- Whoever has a token, or an update under way, has submitted a transaction that
    stands for the address. -/
structure SrInv (s : SrState) : Prop where
  tokens : ∀ token ∈ s.tokens, ∃ address, token = Credentials.encode address ∧
    ∃ transaction ∈ s.submitted, Authorises address transaction
  updates : ∀ update ∈ s.updates, ∃ transaction ∈ s.submitted,
    Authorises update.entity.address transaction

section Invariant

variable {s t : SrState} {e : SrEvent}

theorem srInv_fresh (h : s.Fresh) : SrInv s := by
  rcases h with ⟨hupdates, _, htokens⟩
  refine ⟨fun token htoken => ?_, fun update hupdate => ?_⟩
  · rw [htokens] at htoken
    cases htoken
  · rw [hupdates] at hupdate
    cases hupdate

theorem srInv_requestToken {jsonData : String} (hI : SrInv s)
    (htyped : (SrEvent.requestToken jsonData).Typed)
    (h : srStep s (.requestToken jsonData) = some t) : SrInv t := by
  cases h
  -- What has been submitted before still has been.
  have hmono : ∀ address, (∃ transaction ∈ s.submitted, Authorises address transaction) →
      ∃ transaction ∈ s.submitted ++ (AuthApi.submitted jsonData).toList,
        Authorises address transaction := by
    rintro address ⟨transaction, hmem, hauthorises⟩
    exact ⟨transaction, List.mem_append_left _ hmem, hauthorises⟩
  refine ⟨fun token htoken => ?_, fun update hupdate => hmono _ (hI.updates update hupdate)⟩
  rcases List.mem_append.mp htoken with htoken | htoken
  · rcases hI.tokens token htoken with ⟨address, hencode, hsubmitted⟩
    exact ⟨address, hencode, hmono address hsubmitted⟩
  · have htoken := Option.mem_toList.mp htoken
    rcases requestToken_spec htoken with
      ⟨transaction, _, signatureAddress, contract, _, htransaction, _, _, hcontract, _, _, hencode⟩
    rcases htyped (Option.isSome_of_mem htoken) with
      ⟨transaction', htransaction', contract', hcontract', htype⟩
    cases htransaction.symm.trans htransaction'
    cases hcontract.symm.trans hcontract'
    refine ⟨encodeAddress signatureAddress, hencode, transaction,
      List.mem_append_right _ (Option.mem_toList.mpr htransaction), ?_⟩
    exact (authorises_iff (hencode ▸ htoken) htransaction hcontract).mpr htype

theorem srInv_updateSr {address : String} {body : Option SuperRepresentativeModel}
    {keyHeader : Option String} (hI : SrInv s)
    (hunforged : (SrEvent.updateSr address body keyHeader).Unforged s)
    (h : srStep s (.updateSr address body keyHeader) = some t) : SrInv t := by
  cases h
  refine ⟨hI.tokens, fun update hupdate => ?_⟩
  rcases List.mem_append.mp hupdate with hupdate | hupdate
  · exact hI.updates update hupdate
  · rcases Option.map_eq_some_iff.mp (Option.mem_toList.mp hupdate) with ⟨entity, hentity, rfl⟩
    rcases updateSr_spec hentity with ⟨rfl, token, rfl, hdecode⟩
    -- The token was handed out, and so for the address it is shown with.
    rcases hI.tokens token (hunforged (Option.isSome_of_mem hdecode)) with
      ⟨address', rfl, hsubmitted⟩
    rw [Credentials.decode_encode] at hdecode
    exact Option.some.inj hdecode ▸ hsubmitted

theorem srInv_step (hI : SrInv s) (hunforged : e.Unforged s) (htyped : e.Typed)
    (h : srStep s e = some t) : SrInv t := by
  cases e with
  | requestToken jsonData => exact srInv_requestToken hI htyped h
  | updateSr address body keyHeader => exact srInv_updateSr hI hunforged h
  | find i =>
      rcases srStep_find h with ⟨update, existing, hupdate, rfl⟩
      exact ⟨hI.tokens,
        Lib.forall_mem_set hI.updates (hI.updates update (List.mem_of_getElem? hupdate))⟩
  | save i =>
      rcases srStep_save h with ⟨update, existing, hupdate, _, rfl⟩
      exact ⟨hI.tokens,
        Lib.forall_mem_set hI.updates (hI.updates update (List.mem_of_getElem? hupdate))⟩

/-- Only saves change rows, and only those they are for. -/
theorem safeStep_of_inv (hI : SrInv s) (h : srStep s e = some t) : SafeStep s e t := by
  cases e with
  | save i =>
      rcases srStep_save h with ⟨update, existing, hupdate, _, rfl⟩
      have hother : ∀ address, address ≠ update.entity.address →
          SrState.row { s with
            srAccount := saveRow existing update.entity s.srAccount
            updates := s.updates.set i { update with phase := .saved } } address = s.row address :=
        fun address hne => saveRow_other hne
      refine ⟨fun address hchanged => ?_, fun j hj update' hupdate' => ?_⟩
      · by_cases haddress : address = update.entity.address
        · exact haddress ▸ hI.updates update (List.mem_of_getElem? hupdate)
        · exact absurd (hother address haddress) hchanged
      · cases hj
        cases hupdate.symm.trans hupdate'
        exact hother
  | find i =>
      rcases srStep_find h with ⟨update, existing, hupdate, rfl⟩
      exact ⟨fun _ hchanged => absurd rfl hchanged, nofun⟩
  | requestToken jsonData =>
      cases h
      exact ⟨fun _ hchanged => absurd rfl hchanged, nofun⟩
  | updateSr address body keyHeader =>
      cases h
      exact ⟨fun _ hchanged => absurd rfl hchanged, nofun⟩

end Invariant

/-- If tokens are handed out for the right type of contract only, and none is
    forged, then every step of every run is safe. -/
theorem safeStep_of_typed {s t u : SrState} {events : List SrEvent} {e : SrEvent}
    (hfresh : s.Fresh) (hunforged : Lib.Along srStep (fun s e => e.Unforged s) s events)
    (htyped : ∀ e ∈ events, e.Typed) (hrun : Lib.runFrom srStep s events = some t)
    (hstep : srStep t e = some u) : SafeStep t e u := by
  have hI : SrInv t :=
    Lib.invariant_along (fun _ _ _ hI hC h => srInv_step hI hC.1 hC.2 h) s t events
      (srInv_fresh hfresh)
      (Lib.along_and s events hunforged (Lib.along_of_forall (P := SrEvent.Typed) s events htyped))
      hrun
  exact safeStep_of_inv hI hstep

/-- The property as one would like to have it. -/
def AlwaysSafe : Prop :=
  ∀ (s t u : SrState) (events : List SrEvent) (e : SrEvent), s.Fresh →
    Lib.Along srStep (fun s e => e.Unforged s) s events → Lib.runFrom srStep s events = some t →
    srStep t e = some u → SafeStep t e u

omit [Codec] [Credentials]

/-- The address of the private key one. -/
def signerAddress : Bytes :=
  [65, 126, 95, 69, 82, 9, 26, 105, 18, 93, 93, 252, 183, 184, 194, 101, 144, 41, 57, 91, 223]

/-- The first half of either signature below. -/
def signatureR : Bytes :=
  [198, 4, 127, 148, 65, 237, 125, 109, 48, 69, 64, 110, 149, 192, 124, 216, 92, 119, 142, 75, 140,
    239, 60, 167, 171, 172, 9, 185, 92, 112, 158, 229]

/-- A transfer, signed, as it is on the chain. -/
def signedTransfer : Transaction where
  rawData := some { contract := [{
    type := .transferContract
    parameter := Wire.bytes 1 signerAddress ++ Wire.bytes 2 exampleRecipient ++ Wire.number 3 1 }] }
  signature := [signatureR ++ [87, 123, 117, 104, 182, 25, 220, 127, 133, 27, 250, 95, 31, 65, 170,
    109, 61, 236, 241, 151, 164, 64, 57, 11, 209, 151, 135, 222, 105, 46, 2, 189, 28]]

/-- An update of the witness, signed. -/
def signedUpdate : Transaction where
  rawData := some { contract := [{
    type := .witnessUpdateContract
    parameter := Wire.bytes 1 signerAddress }] }
  signature := [signatureR ++ [81, 139, 15, 78, 99, 203, 190, 160, 44, 43, 130, 233, 15, 221, 255,
    117, 241, 7, 43, 227, 222, 106, 53, 147, 129, 226, 197, 79, 76, 2, 248, 130, 28]]

/-- The hash of a transaction with the transfer. -/
def transferHash : Bytes :=
  [139, 4, 149, 154, 81, 222, 201, 147, 197, 130, 202, 211, 43, 188, 46, 74, 157, 12, 72, 82, 137,
    33, 145, 184, 48, 201, 163, 163, 113, 159, 222, 35]

/-- The hash of a transaction with an account update. -/
def updateHash : Bytes :=
  [150, 229, 97, 206, 246, 123, 5, 82, 119, 99, 185, 191, 74, 131, 132, 57, 54, 215, 211, 186, 20,
    205, 152, 168, 208, 51, 40, 193, 171, 245, 242, 153]

/-- A codec with the digests of the two transactions and of the address. Either
    payload has the signer as the owner when it is read as a witness update, the
    other fields of a transfer being unknown then. -/
@[reducible] def signedCodec : Codec :=
  { exampleCodec with
    sha256 := Wire.digest [
      (Wire.transactionRaw signedTransfer.getRawData, transferHash),
      (Wire.transactionRaw signedUpdate.getRawData, updateHash),
      (signerAddress, [109, 214, 231, 47, 255, 62, 72, 110, 201, 195, 198, 6, 67, 72, 96, 162, 160,
        37, 33, 170, 33, 120, 49, 254, 213, 84, 47, 31, 52, 45, 215, 113]),
      ([109, 214, 231, 47, 255, 62, 72, 110, 201, 195, 198, 6, 67, 72, 96, 162, 160, 37, 33, 170, 33,
        120, 49, 254, 213, 84, 47, 31, 52, 45, 215, 113], [177, 100, 251, 31, 57, 90, 29, 193, 188,
        124, 136, 171, 90, 215, 40, 111, 63, 212, 197, 78, 242, 136, 65, 113, 217, 164, 202, 196,
        129, 120, 180, 225])]
    sha256_length := Wire.digest_length _
    witnessUpdateContract := Wire.decoder
      ((signedTransfer.getRawData.contract ++ signedUpdate.getRawData.contract).map fun contract =>
        (contract.parameter, { ownerAddress := signerAddress })) {} }

/-- The token for the signer under the key `changeme`. -/
def signerToken : String :=
  "eyJ0eXAiOiJKV1QiLCJhbGciOiJIUzI1NiJ9.eyJhZGRyZXNzIjoiVE1WUUdtMXFBUVlWZGV0Q2VHUlJrVFdZWXJMWHVI"
    ++ "SzJIQyJ9.zLGIObv_j4ymgsj6MybEbrDAV2ciTSQad6XIXlv8p-o"

/-- The address of the key that signs. -/
def signer : String := "TMVQGm1qAQYVdetCeGRRkTWYYrLXuHK2HC"

/-- The token of the signer; the other tokens are made up. -/
def encodeToken (address : String) : String :=
  if address = signer then signerToken else "." ++ address

/-- A token whose text names its address; the signer's is its own. -/
def decodeToken (token : String) : Option String :=
  if token = signerToken then some signer
  else match token.toList with
    | '.' :: address => some (String.ofList address)
    | _ => none

theorem decodeToken_encodeToken (address : String) :
    decodeToken (encodeToken address) = some address := by
  rw [encodeToken]
  by_cases haddress : address = signer
  · rw [if_pos haddress, decodeToken, if_pos rfl, haddress]
  · have hlist : ("." ++ address).toList = '.' :: address.toList := String.toList_append
    have hne : "." ++ address ≠ signerToken := fun h => by
      have hhead : signerToken.toList.head? = some '.' := by rw [← h, hlist]; rfl
      revert hhead
      decide +kernel
    rw [if_neg haddress, decodeToken, if_neg hne, hlist]
    exact congrArg some String.ofList_toList

/-- Credentials that know the two signatures and the token of the signer. -/
@[reducible] def signedCredentials : Credentials where
  parseTransaction := Wire.lookup ([signedTransfer, signedUpdate].map fun transaction =>
    (Wire.transaction transaction, transaction))
  signatureToAddress hash signature := Wire.lookup [
    ((transferHash, signedTransfer.signature.head?), signerAddress),
    ((updateHash, signedUpdate.signature.head?), signerAddress)] (hash, some signature)
  encode := encodeToken
  decode := decodeToken
  decode_encode := decodeToken_encodeToken

/-- Submit the transaction, and set the link of the signer with the token. -/
def setLink (transaction : Transaction) : List SrEvent :=
  [.requestToken (toHexString (Wire.transaction transaction)),
    .updateSr signer (some ⟨"", some "https://github.com/sr"⟩) (some signerToken), .find 0]

/-- The save is about to insert the row. -/
def linkState (transaction : Transaction) : SrState where
  srAccount := []
  updates := [⟨⟨signer, some "https://github.com/sr"⟩, .found false⟩]
  submitted := [transaction]
  tokens := [signerToken]

/-- A transaction that gets the token. -/
def GetsToken (transaction : Transaction) : Prop :=
  @AuthApi.submitted signedCredentials (toHexString (Wire.transaction transaction)) =
      some transaction ∧
    @AuthApi.requestToken signedCredentials signedCodec (toHexString (Wire.transaction transaction)) =
      some signerToken

theorem getsToken_signed : GetsToken signedUpdate ∧ GetsToken signedTransfer := by
  -- The transaction is read back before anything is computed with it.
  simp only [GetsToken, AuthApi.requestToken, AuthApi.submitted, fromHexString_toHexString]
  decide +kernel

/-- The steps up to the save, and that no token in them is forged. -/
theorem setLink_run {transaction : Transaction} (h : GetsToken transaction) :
    Lib.runFrom (@srStep signedCodec signedCredentials) ⟨[], [], [], []⟩ (setLink transaction) =
        some (linkState transaction) ∧
      @Lib.Along _ _ (@srStep signedCodec signedCredentials)
        (fun s e => @SrEvent.Unforged signedCredentials s e) ⟨[], [], [], []⟩
        (setLink transaction) := by
  let _ := signedCodec
  let _ := signedCredentials
  have hdecode : Credentials.decode signerToken = some signer :=
    (congrArg decodeToken (if_pos rfl : encodeToken signer = signerToken)).symm.trans
      (decodeToken_encodeToken signer)
  have hrequest : srStep ⟨[], [], [], []⟩
      (.requestToken (toHexString (Wire.transaction transaction))) =
        some ⟨[], [], [transaction], [signerToken]⟩ := by
    rw [srStep, h.1, h.2]
    rfl
  have hupdate : srStep ⟨[], [], [transaction], [signerToken]⟩ (.updateSr signer
      (some ⟨"", some "https://github.com/sr"⟩) (some signerToken)) =
        some ⟨[], [⟨⟨signer, some "https://github.com/sr"⟩, .started⟩], [transaction],
          [signerToken]⟩ := by
    rw [srStep, AccountApi.updateSr]
    simp only [hdecode, Option.bind_eq_bind, Option.bind_some, if_true]
    rfl
  have hfind : srStep ⟨[], [⟨⟨signer, some "https://github.com/sr"⟩, .started⟩], [transaction],
      [signerToken]⟩ (.find 0) = some (linkState transaction) := rfl
  constructor
  · rw [setLink, Lib.runFrom, hrequest, Option.bind_some, Lib.runFrom, hupdate, Option.bind_some,
      Lib.runFrom, hfind]
    rfl
  · refine ⟨trivial, fun s hs => ?_⟩
    cases hrequest.symm.trans hs
    refine ⟨fun _ => List.mem_cons_self, fun s hs => ?_⟩
    cases hupdate.symm.trans hs
    exact ⟨trivial, fun _ _ => trivial⟩

/-- With a witness update the signer changes its own row. -/
theorem safeStep_of_typed_update : ∃ u,
    @srStep signedCodec signedCredentials (linkState signedUpdate) (.save 0) = some u ∧
    u.row signer = some ⟨signer, some "https://github.com/sr"⟩ ∧
    @SafeStep signedCodec signedCredentials (linkState signedUpdate) (.save 0) u := by
  rcases setLink_run getsToken_signed.1 with ⟨hrun, hunforged⟩
  have htyped : ∀ e ∈ setLink signedUpdate, @SrEvent.Typed signedCodec signedCredentials e := by
    simp only [setLink, List.forall_mem_cons]
    refine ⟨fun _ => ?_, trivial, trivial, fun _ h => absurd h List.not_mem_nil⟩
    exact ⟨signedUpdate, getsToken_signed.1.1, _, rfl, rfl⟩
  have hrow : (@srStep signedCodec signedCredentials (linkState signedUpdate) (.save 0)).map
      (·.row signer) = some (some ⟨signer, some "https://github.com/sr"⟩) := by decide +kernel
  rcases Option.map_eq_some_iff.mp hrow with ⟨u, hstep, hrow⟩
  exact ⟨u, hstep, hrow, @safeStep_of_typed signedCodec signedCredentials ⟨[], [], [], []⟩
    (linkState signedUpdate) u (setLink signedUpdate) (.save 0) ⟨rfl, rfl, rfl⟩ hunforged htyped
    hrun hstep⟩

/-- With a transfer of the signer anybody changes the row of the signer. -/
theorem not_alwaysSafe_transfer : ¬ @AlwaysSafe signedCodec signedCredentials := by
  intro h
  rcases setLink_run getsToken_signed.2 with ⟨hrun, hunforged⟩
  have hrow : (@srStep signedCodec signedCredentials (linkState signedTransfer) (.save 0)).map
      (·.row signer) = some (some ⟨signer, some "https://github.com/sr"⟩) := by decide +kernel
  rcases Option.map_eq_some_iff.mp hrow with ⟨u, hstep, hrow⟩
  have hsafe := h _ _ u _ (.save 0) ⟨rfl, rfl, rfl⟩ hunforged hrun hstep
  have hchanged : u.row signer ≠ (linkState signedTransfer).row signer := by
    rw [hrow]
    exact Option.some_ne_none _
  -- The one transaction submitted is of another type.
  rcases @SafeStep.authorised signedCodec signedCredentials _ _ _ hsafe signer hchanged with
    ⟨transaction, hmem, contract, _, _, _, hcontract, htype, _⟩
  cases List.mem_singleton.mp hmem
  cases hcontract
  cases htype

end Tronscan
