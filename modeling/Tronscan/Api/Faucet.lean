import Tronscan.Lib.System
import Tronscan.Lib.Table

/-!
# The Test Net Faucet

`TestNetApi.requestTrx` and `TrxRequestModelRepository`: a request for some TRX.

A request looks up whether its IP has had a payment within the hour, whether its
address has had one at all, and whether the captcha is right. If none of these
speaks against it, a transfer to the address is signed and broadcast. When the
broadcast is accepted, a row is inserted for next time. Nobody waits for the
insert, and it may fail; it fails if the address has a row already.

Any number of requests are under way at a time, and time passes. Each step of a
request is an event. The machine remembers the payments it has made, and each
request how many there had been when it made its lookups.

## Main definitions

* `TrxRequestModel`, `findByRecentIp`, `findByAddress`: The table and its lookups.
* `FaucetAnswer`: What a request is told.
* `FaucetState`, `FaucetEvent`, `faucetStep`: The requests over the table.

## Theorems

* `faucetStep_lookupIp` and its kin: What each event does.
-/

namespace Tronscan

/-- A row of `trx_request`. Dates are in milliseconds. -/
structure TrxRequestModel where
  address : String
  ip : String
  dateCreated : Int
  deriving DecidableEq

/-- An hour in milliseconds. -/
def hour : Int := 3600000

/-- The first request that is stored for an address. -/
def findByAddress (address : String) (rows : List TrxRequestModel) : Option TrxRequestModel :=
  rows.find? fun row => decide (row.address = address)

/-- The rows of the last hour with the IP. -/
def findByRecentIp (ip : String) (now : Int) (rows : List TrxRequestModel) :
    Option TrxRequestModel :=
  rows.find? fun row => decide (row.dateCreated ≥ now - hour ∧ row.ip = ip)

/-- What a request is told. -/
inductive FaucetAnswer where
  | alreadyRequestedIp
  | alreadyRequestedAddress (address : String)
  | wrongCaptcha
  /-- The result of the broadcast. -/
  | broadcast (success : Bool)
  deriving DecidableEq

namespace FaucetAnswer

/-- The `success` field of an answer. -/
def success : FaucetAnswer → Bool
  | broadcast success => success
  | _ => false

/-- The code and the message; those of a broadcast are the node's. -/
def text : FaucetAnswer → Option (String × String)
  | alreadyRequestedIp => some ("ALREADY_REQUESTED_IP", "Already requested TRX from IP recently")
  | alreadyRequestedAddress address =>
      some ("ALREADY_REQUESTED_ADDRESS", "Already requested for address " ++ address)
  | wrongCaptcha => some ("WRONG_CAPTCHA", "Wrong Captcha Code")
  | broadcast _ => none

end FaucetAnswer

/-- How far a request has got. -/
inductive FaucetPhase where
  | started
  /-- The IP has had nothing within the hour. -/
  | ipFree
  /-- The address has had nothing. -/
  | addressFree
  | verified
  /-- The transfer has been broadcast, and the row is still to be inserted. -/
  | paid (row : TrxRequestModel)
  | answered (answer : FaucetAnswer)
  deriving DecidableEq

/-- A request, and how many payments had been made when it looked up its IP and
    its address. -/
structure FaucetRequest where
  address : String
  ip : String
  phase : FaucetPhase
  ipAt : Nat := 0
  addressAt : Nat := 0

/-- A broadcast that was accepted. -/
structure Payment where
  address : String
  ip : String
  time : Int
  deriving DecidableEq

/-- The clock, the table, the requests, and the payments in the order they were
    made. -/
structure FaucetState where
  clock : Int
  trxRequests : List TrxRequestModel
  requests : List FaucetRequest := []
  payments : List Payment := []

/-- What can happen: a request comes in, and goes on through its two lookups, the
    check of the captcha, the broadcast and the insert; and time passes. -/
inductive FaucetEvent where
  | request (address ip : String)
  | lookupIp (i : Nat)
  | lookupAddress (i : Nat)
  | captcha (i : Nat) (right : Bool)
  | broadcast (i : Nat) (success : Bool)
  | insert (i : Nat) (success : Bool)
  | wait (duration : Nat)

/-- The state after a request has moved on. -/
def FaucetState.put (s : FaucetState) (i : Nat) (request : FaucetRequest) : FaucetState :=
  { s with requests := s.requests.set i request }

/-- One step; none where a request is not that far. -/
def faucetStep (s : FaucetState) : FaucetEvent → Option FaucetState
  | .request address ip => some { s with requests := s.requests ++ [⟨address, ip, .started, 0, 0⟩] }
  | .lookupIp i => do
      let request ← s.requests[i]?
      match request.phase with
      | .started =>
          match findByRecentIp request.ip s.clock s.trxRequests with
          | some _ => some (s.put i { request with phase := .answered .alreadyRequestedIp })
          | none => some (s.put i { request with phase := .ipFree, ipAt := s.payments.length })
      | _ => none
  | .lookupAddress i => do
      let request ← s.requests[i]?
      match request.phase with
      | .ipFree =>
          match findByAddress request.address s.trxRequests with
          | some _ =>
              some (s.put i { request with
                phase := .answered (.alreadyRequestedAddress request.address) })
          | none =>
              some (s.put i { request with phase := .addressFree, addressAt := s.payments.length })
      | _ => none
  | .captcha i right => do
      let request ← s.requests[i]?
      match request.phase with
      | .addressFree =>
          some (s.put i { request with
            phase := if right then .verified else .answered .wrongCaptcha })
      | _ => none
  | .broadcast i success => do
      let request ← s.requests[i]?
      match request.phase with
      | .verified =>
          if success then
            some { s.put i { request with phase := .paid ⟨request.address, request.ip, s.clock⟩ } with
              payments := s.payments ++ [⟨request.address, request.ip, s.clock⟩] }
          else some (s.put i { request with phase := .answered (.broadcast false) })
      | _ => none
  | .insert i success => do
      let request ← s.requests[i]?
      match request.phase with
      | .paid row =>
          let taken := Lib.hasKey TrxRequestModel.address row.address s.trxRequests
          some { s.put i { request with phase := .answered (.broadcast true) } with
            trxRequests := if success && !taken then s.trxRequests ++ [row] else s.trxRequests }
      | _ => none
  | .wait duration => some { s with clock := s.clock + duration }

section Steps

variable {s t : FaucetState} {i : Nat}

theorem faucetStep_lookupIp (h : faucetStep s (.lookupIp i) = some t) :
    ∃ request, s.requests[i]? = some request ∧ request.phase = .started ∧
      ((∃ answer, t = s.put i { request with phase := .answered answer }) ∨
        findByRecentIp request.ip s.clock s.trxRequests = none ∧
          t = s.put i { request with phase := .ipFree, ipAt := s.payments.length }) := by
  rcases Option.bind_eq_some_iff.mp h with ⟨request, hrequest, h⟩
  split at h
  · rename_i hphase
    refine ⟨request, hrequest, hphase, ?_⟩
    split at h
    · exact Or.inl ⟨_, (Option.some.inj h).symm⟩
    · rename_i hfree
      exact Or.inr ⟨hfree, (Option.some.inj h).symm⟩
  · cases h

theorem faucetStep_lookupAddress (h : faucetStep s (.lookupAddress i) = some t) :
    ∃ request, s.requests[i]? = some request ∧ request.phase = .ipFree ∧
      ((∃ answer, t = s.put i { request with phase := .answered answer }) ∨
        findByAddress request.address s.trxRequests = none ∧
          t = s.put i { request with phase := .addressFree, addressAt := s.payments.length }) := by
  rcases Option.bind_eq_some_iff.mp h with ⟨request, hrequest, h⟩
  split at h
  · rename_i hphase
    refine ⟨request, hrequest, hphase, ?_⟩
    split at h
    · exact Or.inl ⟨_, (Option.some.inj h).symm⟩
    · rename_i hfree
      exact Or.inr ⟨hfree, (Option.some.inj h).symm⟩
  · cases h

theorem faucetStep_captcha {right : Bool} (h : faucetStep s (.captcha i right) = some t) :
    ∃ request, s.requests[i]? = some request ∧ request.phase = .addressFree ∧
      t = s.put i { request with
        phase := if right then .verified else .answered .wrongCaptcha } := by
  rcases Option.bind_eq_some_iff.mp h with ⟨request, hrequest, h⟩
  split at h
  · rename_i hphase
    exact ⟨request, hrequest, hphase, (Option.some.inj h).symm⟩
  · cases h

theorem faucetStep_broadcast {success : Bool} (h : faucetStep s (.broadcast i success) = some t) :
    ∃ request, s.requests[i]? = some request ∧ request.phase = .verified ∧
      ((success = true ∧
        t = { s.put i { request with phase := .paid ⟨request.address, request.ip, s.clock⟩ } with
          payments := s.payments ++ [⟨request.address, request.ip, s.clock⟩] }) ∨
      (success = false ∧
        t = s.put i { request with phase := .answered (.broadcast false) })) := by
  rcases Option.bind_eq_some_iff.mp h with ⟨request, hrequest, h⟩
  split at h
  · rename_i hphase
    refine ⟨request, hrequest, hphase, ?_⟩
    by_cases hsuccess : success = true
    · rw [if_pos hsuccess] at h
      exact Or.inl ⟨hsuccess, (Option.some.inj h).symm⟩
    · rw [if_neg hsuccess] at h
      exact Or.inr ⟨Bool.not_eq_true _ ▸ hsuccess, (Option.some.inj h).symm⟩
  · cases h

theorem faucetStep_insert {success : Bool} (h : faucetStep s (.insert i success) = some t) :
    ∃ request row rows, s.requests[i]? = some request ∧ request.phase = .paid row ∧
      t = { s.put i { request with phase := .answered (.broadcast true) } with
        trxRequests := rows } := by
  rcases Option.bind_eq_some_iff.mp h with ⟨request, hrequest, h⟩
  split at h
  · rename_i row hphase
    exact ⟨request, row, _, hrequest, hphase, (Option.some.inj h).symm⟩
  · cases h

end Steps

end Tronscan
