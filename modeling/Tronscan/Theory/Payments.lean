import Tronscan.Api.Faucet
import Mathlib.Data.List.TakeDrop

/-!
# Paying Once

The faucet should pay an address at most once, and an IP at most once within any
hour.

It looks before it pays, and it notes what it has paid. Between the look and the
payment there are steps of other requests, and between the payment and the note
too; the note may even fail. So two requests for one address that look before
either pays are both paid, and so is a request that looks before the note of an
earlier payment is made.

These are the two ways it goes wrong. If every lookup finds the row of every
payment it is about, and no other payment to the address, or the IP, comes
between a request's lookup and its own payment, then in every run all payments
are to different addresses and those to one IP are more than an hour apart. For
a payment that is exact.

## Main definitions

* `PaysOnce`: Different addresses, and an hour between payments to one IP.
* `FaucetEvent.Orderly`: A lookup finds what it should, and a payment is not
  overtaken.

## Theorems

* `paysOnce_broadcast_iff`: A payment is in order exactly when it is not overtaken.
* `faucetInv_step`: What a request has looked up stays so.
* `paysOnce_of_orderly`: Runs of orderly steps.
* `not_alwaysPaysOnce_twice`: Two requests for one address.
-/

namespace Tronscan

/-- No two payments are to one address, and the later of two to one IP is more
    than an hour after the earlier. -/
def PaysOnce (payments : List Payment) : Prop :=
  payments.Pairwise fun p q => p.address ≠ q.address ∧ (p.ip = q.ip → p.time + hour < q.time)

instance (payments : List Payment) : Decidable (PaysOnce payments) :=
  inferInstanceAs (Decidable (payments.Pairwise _))

/-- No request has come in. -/
def FaucetState.Fresh (s : FaucetState) : Prop := s.requests = [] ∧ s.payments = []

/-- The payment of a request is not overtaken: since it looked up its address
    there was no payment to it, and since it looked up its IP none to that within
    the hour. -/
def FaucetRequest.NotOvertaken (s : FaucetState) (request : FaucetRequest) : Prop :=
  (∀ p ∈ s.payments.drop request.addressAt, p.address ≠ request.address) ∧
    ∀ p ∈ s.payments.drop request.ipAt, p.ip = request.ip → p.time + hour < s.clock

/-- A lookup finds a row for every payment it is about, and the payment of a
    request is not overtaken. -/
def FaucetEvent.Orderly (s : FaucetState) : FaucetEvent → Prop
  | .lookupIp i => ∀ request ∈ s.requests[i]?, ∀ p ∈ s.payments, p.ip = request.ip →
      s.clock - hour ≤ p.time → ∃ row ∈ s.trxRequests, row.ip = p.ip ∧ s.clock - hour ≤ row.dateCreated
  | .lookupAddress i => ∀ request ∈ s.requests[i]?, ∀ p ∈ s.payments, p.address = request.address →
      ∃ row ∈ s.trxRequests, row.address = p.address
  | .broadcast i true => ∀ request ∈ s.requests[i]?, request.NotOvertaken s
  | _ => True

instance (s : FaucetState) (request : FaucetRequest) : Decidable (request.NotOvertaken s) :=
  inferInstanceAs (Decidable (_ ∧ _))

instance (s : FaucetState) : DecidablePred (FaucetEvent.Orderly s)
  | .lookupIp i => inferInstanceAs (Decidable (∀ request ∈ s.requests[i]?, _))
  | .lookupAddress i => inferInstanceAs (Decidable (∀ request ∈ s.requests[i]?, _))
  | .broadcast i true => inferInstanceAs (Decidable (∀ request ∈ s.requests[i]?, _))
  | .broadcast _ false | .request _ _ | .captcha _ _ | .insert _ _ | .wait _ =>
      inferInstanceAs (Decidable True)

/-- What a request has looked up was so: there had been no payment to its IP within
    the hour, and none to its address. -/
structure FaucetRequest.Cleared (s : FaucetState) (request : FaucetRequest) : Prop where
  ip : request.phase = .ipFree ∨ request.phase = .addressFree ∨ request.phase = .verified →
    request.ipAt ≤ s.payments.length ∧
      ∀ p ∈ s.payments.take request.ipAt, p.ip = request.ip → p.time + hour < s.clock
  address : request.phase = .addressFree ∨ request.phase = .verified →
    request.addressAt ≤ s.payments.length ∧
      ∀ p ∈ s.payments.take request.addressAt, p.address ≠ request.address

/-- The invariant: nobody was paid twice, and the requests that are under way had
    free lookups. -/
structure FaucetInv (s : FaucetState) : Prop where
  once : PaysOnce s.payments
  requests : ∀ request ∈ s.requests, request.Cleared s

section Invariant

variable {s t : FaucetState} {i : Nat} {request : FaucetRequest}

/-- Later payments and later times do not undo a lookup. -/
theorem cleared_mono (h : request.Cleared s) (hpayments : ∃ later, t.payments = s.payments ++ later)
    (hclock : s.clock ≤ t.clock) : request.Cleared t := by
  rcases hpayments with ⟨later, hpayments⟩
  constructor
  · intro hphase
    rcases h.ip hphase with ⟨hle, hip⟩
    rw [hpayments, List.length_append, List.take_append_of_le_length hle]
    refine ⟨by omega, fun p hp hsame => ?_⟩
    have htime := hip p hp hsame
    omega
  · intro hphase
    rcases h.address hphase with ⟨hle, haddress⟩
    rw [hpayments, List.length_append, List.take_append_of_le_length hle]
    exact ⟨by omega, haddress⟩

theorem cleared_frame (h : request.Cleared s) (hpayments : t.payments = s.payments)
    (hclock : s.clock ≤ t.clock) : request.Cleared t :=
  cleared_mono h ⟨[], by rw [hpayments, List.append_nil]⟩ hclock

/-- A request that is through, or has not started, has nothing to be cleared. -/
theorem cleared_of_phase (hip : request.phase ≠ .ipFree) (haddress : request.phase ≠ .addressFree)
    (hverified : request.phase ≠ .verified) : request.Cleared s := by
  constructor
  · rintro (h | h | h)
    · exact absurd h hip
    · exact absurd h haddress
    · exact absurd h hverified
  · rintro (h | h)
    · exact absurd h haddress
    · exact absurd h hverified

/-- A verified request is paid in order exactly when its payment is not overtaken. -/
theorem paysOnce_broadcast_iff (hI : FaucetInv s) (hrequest : s.requests[i]? = some request)
    (hphase : request.phase = .verified) :
    PaysOnce (s.payments ++ [⟨request.address, request.ip, s.clock⟩]) ↔
      request.NotOvertaken s := by
  have hcleared := hI.requests request (List.mem_of_getElem? hrequest)
  rcases hcleared.ip (Or.inr (Or.inr hphase)) with ⟨_, hip⟩
  rcases hcleared.address (Or.inr hphase) with ⟨_, haddress⟩
  have hlast : PaysOnce (s.payments ++ [⟨request.address, request.ip, s.clock⟩]) ↔
      ∀ p ∈ s.payments, p.address ≠ request.address ∧
        (p.ip = request.ip → p.time + hour < s.clock) := by
    simp only [PaysOnce, List.pairwise_append, List.pairwise_singleton, true_and,
      List.mem_singleton, forall_eq]
    exact and_iff_right hI.once
  rw [hlast]
  constructor
  · intro h
    exact ⟨fun p hp => (h p (List.mem_of_mem_drop hp)).1,
      fun p hp => (h p (List.mem_of_mem_drop hp)).2⟩
  · rintro ⟨hlater, hlater'⟩ p hp
    -- A payment was made before the lookup, which found none, or since.
    constructor
    · rw [← List.take_append_drop request.addressAt s.payments, List.mem_append] at hp
      exact hp.elim (haddress p) (hlater p)
    · rw [← List.take_append_drop request.ipAt s.payments, List.mem_append] at hp
      exact hp.elim (hip p) (hlater' p)

/-- One request moves on, and no payment is made. -/
theorem faucetInv_put {rows : List TrxRequestModel} (hI : FaucetInv s) (h : request.Cleared s) :
    FaucetInv { s.put i request with trxRequests := rows } where
  once := hI.once
  requests := Lib.forall_mem_set
    (fun r hr => cleared_frame (hI.requests r hr) rfl (le_refl _)) (cleared_frame h rfl (le_refl _))

theorem faucetInv_lookupIp (hI : FaucetInv s) (horderly : (FaucetEvent.lookupIp i).Orderly s)
    (h : faucetStep s (.lookupIp i) = some t) : FaucetInv t := by
  rcases faucetStep_lookupIp h with ⟨request, hrequest, hphase, ⟨answer, rfl⟩ | ⟨hfree, rfl⟩⟩
  · exact faucetInv_put hI (cleared_of_phase nofun nofun nofun)
  · refine faucetInv_put hI ⟨fun _ => ⟨le_refl _, fun p hp hip => ?_⟩, fun hphase => ?_⟩
    · rw [List.take_length] at hp
      by_contra hrecent
      -- A payment within the hour has a row, which the lookup would have found.
      rcases horderly request hrequest p hp hip (by omega) with ⟨row, hrow, hrowIp, hdate⟩
      have hnone := List.find?_eq_none.mp hfree row hrow
      rw [decide_eq_true_eq] at hnone
      exact hnone ⟨hdate, hrowIp.trans hip⟩
    · rcases hphase with h | h <;> cases h

theorem faucetInv_lookupAddress (hI : FaucetInv s)
    (horderly : (FaucetEvent.lookupAddress i).Orderly s)
    (h : faucetStep s (.lookupAddress i) = some t) : FaucetInv t := by
  rcases faucetStep_lookupAddress h with ⟨request, hrequest, hphase, ⟨answer, rfl⟩ | ⟨hfree, rfl⟩⟩
  · exact faucetInv_put hI (cleared_of_phase nofun nofun nofun)
  · have hip := (hI.requests request (List.mem_of_getElem? hrequest)).ip (Or.inl hphase)
    refine faucetInv_put hI ⟨fun _ => hip, fun _ => ⟨le_refl _, fun p hp haddress => ?_⟩⟩
    rw [List.take_length] at hp
    -- A payment to the address has a row, which the lookup would have found.
    rcases horderly request hrequest p hp haddress with ⟨row, hrow, hrowAddress⟩
    have hnone := List.find?_eq_none.mp hfree row hrow
    rw [decide_eq_true_eq] at hnone
    exact hnone (hrowAddress.trans haddress)

theorem faucetInv_broadcast {success : Bool} (hI : FaucetInv s)
    (horderly : (FaucetEvent.broadcast i success).Orderly s)
    (h : faucetStep s (.broadcast i success) = some t) : FaucetInv t := by
  rcases faucetStep_broadcast h with
    ⟨request, hrequest, hphase, ⟨rfl, rfl⟩ | ⟨rfl, rfl⟩⟩
  · -- The payment is the one step that can break the invariant.
    refine ⟨(paysOnce_broadcast_iff hI hrequest hphase).mpr (horderly request hrequest),
      Lib.forall_mem_set (fun r hr => ?_) ?_⟩
    · exact cleared_mono (hI.requests r hr) ⟨_, rfl⟩ (le_refl _)
    · exact cleared_of_phase nofun nofun nofun
  · exact faucetInv_put hI (cleared_of_phase nofun nofun nofun)

theorem faucetInv_step {e : FaucetEvent} (hI : FaucetInv s) (horderly : e.Orderly s)
    (h : faucetStep s e = some t) : FaucetInv t := by
  cases e with
  | request address ip =>
      cases h
      refine ⟨hI.once, fun r hr => ?_⟩
      rcases List.mem_append.mp hr with hr | hr
      · exact cleared_frame (hI.requests r hr) rfl (le_refl _)
      · rw [List.mem_singleton.mp hr]
        exact cleared_of_phase nofun nofun nofun
  | lookupIp i => exact faucetInv_lookupIp hI horderly h
  | lookupAddress i => exact faucetInv_lookupAddress hI horderly h
  | captcha i right =>
      rcases faucetStep_captcha h with ⟨request, hrequest, hphase, rfl⟩
      have hcleared := hI.requests request (List.mem_of_getElem? hrequest)
      by_cases hright : right = true
      · subst hright
        exact faucetInv_put hI ⟨fun _ => hcleared.ip (Or.inr (Or.inl hphase)),
          fun _ => hcleared.address (Or.inl hphase)⟩
      · rw [if_neg hright]
        exact faucetInv_put hI (cleared_of_phase nofun nofun nofun)
  | broadcast i success => exact faucetInv_broadcast hI horderly h
  | insert i success =>
      rcases faucetStep_insert h with ⟨request, row, rows, hrequest, hphase, rfl⟩
      exact faucetInv_put hI (cleared_of_phase nofun nofun nofun)
  | wait duration =>
      cases h
      refine ⟨hI.once, fun r hr => cleared_frame (hI.requests r hr) rfl ?_⟩
      simp only
      omega

end Invariant

/-- If lookups find what they should and payments are not overtaken, an address is
    paid once, and an IP once within any hour. -/
theorem paysOnce_of_orderly {s t : FaucetState} {events : List FaucetEvent} (hfresh : s.Fresh)
    (horderly : Lib.Along faucetStep (fun s e => e.Orderly s) s events)
    (hrun : Lib.runFrom faucetStep s events = some t) : PaysOnce t.payments := by
  have hstart : FaucetInv s := by
    refine ⟨?_, fun request hrequest => ?_⟩
    · rw [hfresh.2]
      exact List.Pairwise.nil
    · rw [hfresh.1] at hrequest
      cases hrequest
  exact (Lib.invariant_along (fun _ _ _ => faucetInv_step) s t events hstart horderly hrun).once

/-- The property as one would like to have it. -/
def AlwaysPaysOnce : Prop :=
  ∀ (s t : FaucetState) (events : List FaucetEvent), s.Fresh →
    Lib.runFrom faucetStep s events = some t → PaysOnce t.payments

/-- No requests and no rows. -/
def faucetStart : FaucetState where
  clock := 0
  trxRequests := []

/-- A request is paid and its row inserted, and another one for the address comes
    after that. -/
def paidAndNoted : List FaucetEvent :=
  [.request "A" "1", .lookupIp 0, .lookupAddress 0, .captcha 0 true, .broadcast 0 true,
    .insert 0 true, .request "A" "2", .lookupIp 1, .lookupAddress 1]

theorem paysOnce_of_orderly_noted : ∃ t,
    Lib.runFrom faucetStep faucetStart paidAndNoted = some t ∧ PaysOnce t.payments := by
  have hrun : (Lib.runFrom faucetStep faucetStart paidAndNoted).isSome = true := by decide +kernel
  have horderly : Lib.Along faucetStep (fun s e => e.Orderly s) faucetStart paidAndNoted := by
    decide +kernel
  rcases Option.isSome_iff_exists.mp hrun with ⟨t, hrun⟩
  exact ⟨t, hrun, paysOnce_of_orderly ⟨rfl, rfl⟩ horderly hrun⟩

/-- Two requests for one address both look before either is paid. -/
theorem not_alwaysPaysOnce_twice : ¬ AlwaysPaysOnce := by
  intro h
  have hrun : (Lib.runFrom faucetStep faucetStart
      [.request "A" "1", .request "A" "2", .lookupIp 0, .lookupIp 1, .lookupAddress 0,
        .lookupAddress 1, .captcha 0 true, .captcha 1 true, .broadcast 0 true,
        .broadcast 1 true]).map (·.payments) = some [⟨"A", "1", 0⟩, ⟨"A", "2", 0⟩] := by
    decide +kernel
  rcases Option.map_eq_some_iff.mp hrun with ⟨t, hrun, hpayments⟩
  have honce := h faucetStart t _ ⟨rfl, rfl⟩ hrun
  rw [hpayments] at honce
  exact absurd honce (by decide +kernel)

end Tronscan
