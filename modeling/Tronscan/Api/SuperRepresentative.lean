import Tronscan.Core.Encoding
import Tronscan.Lib.System
import Tronscan.Lib.Table

/-!
# Pages of Super Representatives

`AuthApi.requestToken`, `AccountApi.updateSr` and `SuperRepresentativeModelRepository`:
a super representative proves who it is, and gets to change its row.

The proof is a signed transaction. A token for the address that signed it is
handed out if the payload of its first contract, read as a `WitnessUpdateContract`,
has that address as its owner. An update names an address and shows a token.

Saving is two steps, a lookup and then an update or an insert, and requests come
at any time. What the machine remembers of the past is the transactions that
were submitted and the tokens that were handed out.

Reading a transaction, recovering an address from a signature, and the tokens
are taken from outside. A token is a claim with an address, signed.

## Main definitions

* `Credentials`: What the two endpoints take from outside.
* `AuthApi.requestToken`, `AccountApi.updateSr`: Who gets a token, and who gets to
  update what.
* `SrState`, `SrEvent`, `srStep`: The requests over the table.

## Theorems

* `fromHexString_toHexString`: Hex strings are read back.
* `requestToken_spec`: What a token takes.
* `srStep_save`: What a save does.
-/

namespace Tronscan

/-- What the endpoints take from outside. -/
class Credentials where
  parseTransaction : Bytes → Option Transaction
  /-- The address recovered from a hash and a signature of it. -/
  signatureToAddress : Bytes → Bytes → Option Bytes
  /-- The token with the claim of an address. -/
  encode : String → String
  /-- The address in the claim of a token, if the token is valid. -/
  decode : String → Option String
  decode_encode : ∀ address, decode (encode address) = some address

/-- The value of a hexadecimal digit. -/
def hexValue (c : Char) : Option Nat :=
  if '0' ≤ c ∧ c ≤ '9' then some (c.toNat - '0'.toNat)
  else if 'a' ≤ c ∧ c ≤ 'f' then some (c.toNat - 'a'.toNat + 10)
  else if 'A' ≤ c ∧ c ≤ 'F' then some (c.toNat - 'A'.toNat + 10)
  else none

/-- `Hex.decode`, the blanks taken out. -/
def hexDecode : List Char → Option Bytes
  | [] => some []
  | [_] => none
  | high :: low :: digits => do
      let high ← hexValue high
      let low ← hexValue low
      let rest ← hexDecode digits
      return UInt8.ofNat (16 * high + low) :: rest

/-- `HexEncoder.ignore` -/
def ignored (c : Char) : Bool := c == '\n' || c == '\r' || c == '\t' || c == ' '

/-- `ByteArray.fromHexString` -/
def fromHexString (data : String) : Option Bytes :=
  let digits := match data.toList with
    | '0' :: 'x' :: digits => digits
    | digits => digits
  let digits := if digits.length % 2 ≠ 0 then '0' :: digits else digits
  hexDecode (digits.filter fun c => !ignored c)

theorem hexValue_digitChar : ∀ n < 16, hexValue (Nat.digitChar n) = some n := by decide

theorem hexDecode_hexDigits (data : Bytes) : hexDecode (data.flatMap hexDigits) = some data := by
  induction data with
  | nil => rfl
  | cons b data ih =>
      have hb : b.toNat < 256 := b.toNat_lt
      have hbyte : UInt8.ofNat (16 * (b.toNat / 16) + b.toNat % 16) = b := by
        rw [Nat.div_add_mod, UInt8.ofNat_toNat]
      rw [List.flatMap_cons, hexDigits, List.cons_append, List.cons_append, List.nil_append, hexDecode,
        hexValue_digitChar _ (by omega), hexValue_digitChar _ (by omega), ih]
      simp only [Option.bind_eq_bind, Option.bind_some, hbyte]
      rfl

/-- Hex strings are read back. -/
theorem fromHexString_toHexString (data : Bytes) : fromHexString (toHexString data) = some data := by
  have hdigits : ∀ n < 16, Nat.digitChar n ≠ 'x' ∧ ignored (Nat.digitChar n) = false := by decide
  have heven : (data.flatMap hexDigits).length % 2 = 0 := by
    induction data with
    | nil => rfl
    | cons b data ih =>
        rw [List.flatMap_cons, List.length_append, hexDigits, List.length_cons, List.length_singleton]
        omega
  have hblank : (data.flatMap hexDigits).filter (fun c => !ignored c) =
      data.flatMap hexDigits := by
    refine List.filter_eq_self.mpr fun c hc => ?_
    rcases List.mem_flatMap.mp hc with ⟨b, _, hc⟩
    have hb : b.toNat < 256 := b.toNat_lt
    simp only [hexDigits, List.mem_cons, List.not_mem_nil, or_false] at hc
    rcases hc with rfl | rfl
    · rw [(hdigits _ (by omega)).2, Bool.not_false]
    · rw [(hdigits _ (by omega)).2, Bool.not_false]
  -- The second digit is no `x`.
  have hprefix : (match data.flatMap hexDigits with
      | '0' :: 'x' :: digits => digits
      | digits => digits) = data.flatMap hexDigits := by
    split
    · rename_i digits h
      cases data with
      | nil => cases h
      | cons b data =>
          rw [List.flatMap_cons, hexDigits, List.cons_append, List.cons.injEq, List.cons_append,
            List.cons.injEq] at h
          exact absurd h.2.1 (hdigits _ (by omega)).1
    · rfl
  simp only [fromHexString, toHexString, String.toList_ofList, hprefix, heven, ne_eq,
    not_true_eq_false, if_false, hblank, hexDecode_hexDigits]

/-- A row of `sr_account`. -/
structure SuperRepresentativeModel where
  address : String
  githubLink : Option String := none
  deriving DecidableEq

section Endpoints

variable [Credentials]

/-- The transaction in a request for a token. -/
def AuthApi.submitted (jsonData : String) : Option Transaction :=
  (fromHexString jsonData).bind Credentials.parseTransaction

variable [Codec]

/-- A token for the address that signed the transaction, if it owns the first
    contract. There is none where the source throws or answers `BadRequest`. -/
def AuthApi.requestToken (jsonData : String) : Option String := do
  let transaction ← AuthApi.submitted jsonData
  let signature ← transaction.signature.head?
  let signatureAddress ← Credentials.signatureToAddress transaction.hashBytes signature
  let contract ← transaction.getRawData.contract.head?
  -- The type of the contract is not looked at.
  let witnessUpdate ← Codec.witnessUpdateContract contract.parameter
  let addressEncoded := encodeAddress signatureAddress
  let token := Credentials.encode addressEncoded
  if witnessUpdate.ownerAddress = signatureAddress then some token else none

omit [Codec] in
/-- The row to save, if the request is accepted. The address in the body is not
    used. -/
def AccountApi.updateSr (address : String) (body : Option SuperRepresentativeModel)
    (keyHeader : Option String) : Option SuperRepresentativeModel := do
  let model ← body
  let keyHeader ← keyHeader
  let key ← Credentials.decode keyHeader
  if address = key then some { model with address := address } else none

end Endpoints

/-- How far a save has got: it is to look the row up, it has, or it is through. -/
inductive SrPhase where
  | started
  | found (existing : Bool)
  | saved
  deriving DecidableEq

/-- A granted update of a representative's row, and how far it is. -/
structure SrUpdate where
  entity : SuperRepresentativeModel
  phase : SrPhase

/-- The table, the saves, the transactions submitted so far and the tokens handed
    out for them. -/
structure SrState where
  srAccount : List SuperRepresentativeModel
  updates : List SrUpdate := []
  submitted : List Transaction := []
  tokens : List String := []

/-- What can happen: a token is asked for, an update is asked for with the key of
    its header, and a granted update looks for the row and writes it. -/
inductive SrEvent where
  | requestToken (jsonData : String)
  | updateSr (address : String) (body : Option SuperRepresentativeModel)
      (keyHeader : Option String)
  | find (update : Nat)
  | save (update : Nat)

/-- `updateAsync` where the row was found and `insertAsync` where it was not; an
    insert under a key that is taken fails. -/
def saveRow (existing : Bool) (entity : SuperRepresentativeModel)
    (rows : List SuperRepresentativeModel) : List SuperRepresentativeModel :=
  if existing then rows.map fun row => if row.address = entity.address then entity else row
  else if Lib.hasKey SuperRepresentativeModel.address entity.address rows then rows
  else rows ++ [entity]

/-- `findByAddress` -/
def SrState.row (s : SrState) (address : String) : Option SuperRepresentativeModel :=
  s.srAccount.find? fun row => decide (row.address = address)

variable [Codec] [Credentials]

/-- One step; none where an update is not that far. -/
def srStep (s : SrState) : SrEvent → Option SrState
  | .requestToken jsonData => some { s with
      submitted := s.submitted ++ (AuthApi.submitted jsonData).toList
      tokens := s.tokens ++ (AuthApi.requestToken jsonData).toList }
  | .updateSr address body keyHeader => some { s with
      updates := s.updates ++
        ((AccountApi.updateSr address body keyHeader).map fun entity => ⟨entity, .started⟩).toList }
  | .find i => do
      let update ← s.updates[i]?
      match update.phase with
      | .started =>
          let existing := (s.row update.entity.address).isSome
          some { s with updates := s.updates.set i { update with phase := .found existing } }
      | _ => none
  | .save i => do
      let update ← s.updates[i]?
      match update.phase with
      | .found existing =>
          some { s with
            srAccount := saveRow existing update.entity s.srAccount
            updates := s.updates.set i { update with phase := .saved } }
      | _ => none

/-- What it takes to be handed a token. -/
theorem requestToken_spec {jsonData token : String}
    (h : AuthApi.requestToken jsonData = some token) :
    ∃ transaction signature signatureAddress contract witnessUpdate,
      AuthApi.submitted jsonData = some transaction ∧
      transaction.signature.head? = some signature ∧
      Credentials.signatureToAddress transaction.hashBytes signature = some signatureAddress ∧
      transaction.getRawData.contract.head? = some contract ∧
      Codec.witnessUpdateContract contract.parameter = some witnessUpdate ∧
      witnessUpdate.ownerAddress = signatureAddress ∧
      token = Credentials.encode (encodeAddress signatureAddress) := by
  rcases Option.bind_eq_some_iff.mp h with ⟨transaction, htransaction, h⟩
  rcases Option.bind_eq_some_iff.mp h with ⟨signature, hsignature, h⟩
  rcases Option.bind_eq_some_iff.mp h with ⟨signatureAddress, haddress, h⟩
  rcases Option.bind_eq_some_iff.mp h with ⟨contract, hcontract, h⟩
  rcases Option.bind_eq_some_iff.mp h with ⟨witnessUpdate, hupdate, h⟩
  split at h
  · rename_i howner
    exact ⟨transaction, signature, signatureAddress, contract, witnessUpdate, htransaction,
      hsignature, haddress, hcontract, hupdate, howner, (Option.some.inj h).symm⟩
  · cases h

section Steps

omit [Codec] in
/-- An update is accepted with a token of its address. -/
theorem updateSr_spec {address : String} {body : Option SuperRepresentativeModel}
    {keyHeader : Option String} {entity : SuperRepresentativeModel}
    (h : AccountApi.updateSr address body keyHeader = some entity) :
    entity.address = address ∧ ∃ token, keyHeader = some token ∧
      Credentials.decode token = some address := by
  rcases Option.bind_eq_some_iff.mp h with ⟨model, _, h⟩
  rcases Option.bind_eq_some_iff.mp h with ⟨token, htoken, h⟩
  rcases Option.bind_eq_some_iff.mp h with ⟨key, hkey, h⟩
  split at h
  · rename_i haddress
    cases h
    exact ⟨rfl, token, htoken, haddress ▸ hkey⟩
  · cases h

variable {s t : SrState} {i : Nat}

theorem srStep_find (h : srStep s (.find i) = some t) :
    ∃ update existing, s.updates[i]? = some update ∧
      t = { s with updates := s.updates.set i { update with phase := .found existing } } := by
  rcases Option.bind_eq_some_iff.mp h with ⟨update, hupdate, h⟩
  split at h
  · cases h
    exact ⟨update, _, hupdate, rfl⟩
  · cases h

theorem srStep_save (h : srStep s (.save i) = some t) :
    ∃ update existing, s.updates[i]? = some update ∧ update.phase = .found existing ∧
      t = { s with
        srAccount := saveRow existing update.entity s.srAccount
        updates := s.updates.set i { update with phase := .saved } } := by
  rcases Option.bind_eq_some_iff.mp h with ⟨update, hupdate, h⟩
  split at h
  · rename_i existing hphase
    cases h
    exact ⟨update, existing, hupdate, hphase, rfl⟩
  · cases h

end Steps

omit [Codec] [Credentials] in
/-- A save leaves the rows of other addresses alone. -/
theorem saveRow_other {existing : Bool} {entity : SuperRepresentativeModel}
    {rows : List SuperRepresentativeModel} {address : String} (h : address ≠ entity.address) :
    (saveRow existing entity rows).find? (fun row => decide (row.address = address)) =
      rows.find? fun row => decide (row.address = address) := by
  rw [saveRow]
  split
  · induction rows with
    | nil => rfl
    | cons row rows ih =>
        rw [List.map_cons, List.find?_cons, List.find?_cons, ih]
        by_cases hrow : row.address = entity.address
        · rw [if_pos hrow, decide_eq_false h.symm, decide_eq_false (hrow ▸ h.symm)]
        · rw [if_neg hrow]
  · split
    · rfl
    · rw [List.find?_append, List.find?_cons, decide_eq_false h.symm]
      simp only [List.find?_nil, Option.or_none]

end Tronscan
