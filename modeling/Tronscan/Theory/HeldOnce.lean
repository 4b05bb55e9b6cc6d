import Tronscan.Grpc.Balancer

/-!
# Requests Held Once

A request to the balancer should be answered at most once, and until then be in
exactly one place: in the mailbox of the balancer, in that of a client, or in a
running attempt.

The actors pass requests on one at a time, so none is ever in two places, and
none is answered twice. But some are lost. A client loses the request whose
function throws, since the exception takes the message with it. The balancer
loses a request it cannot route. And it loses all that its clients have waiting
when it optimizes before any node has reported a block, since taking the maximum
of nothing throws, and the restart stops the clients.

These are all the ways to lose one, and a lost request is never found again. So
in a state reached by a run every request is where it should be exactly when no
step of the run was one of these.

## Main definitions

* `BalancerState.places`: Where the requests are that are not answered.
* `HeldOnce`: A request is answered once, or in one place.
* `BalancerMessage.Loses`, `BalancerEvent.Loses`: A message or step that loses a
  request.
* `balancerTokens`: The requests as tokens.

## Theorems

* `held_route`: What routing does with a request.
* `step_held`: What each step holds and loses.
* `answered_once`: No request is answered twice.
* `heldOnce_iff`: When every request is where it should be.
* `not_alwaysHeldOnce_throws`: A request function that throws.
-/

namespace Tronscan

namespace BalancerState

/-- The requests in the mailboxes of the clients. -/
def byClients (s : BalancerState) : Multiset Nat :=
  (s.clients.map fun client => (client.mailbox : Multiset Nat)).sum

/-- Where the requests are that are not answered: with the balancer, with a client,
    or in a running attempt. -/
def places (s : BalancerState) : Multiset Nat :=
  ↑(s.mailbox.filterMap BalancerMessage.requestId) + s.byClients + ↑s.attempts

/-- The requests in all places, and those that are answered. -/
def held (s : BalancerState) : Multiset Nat := s.places + ↑s.responses

end BalancerState

/-- A message whose handling loses a request: one to be routed with no client to
    route it to, or to optimize with no block known and requests waiting at the
    clients. -/
def BalancerMessage.Loses (s : BalancerState) : BalancerMessage → Prop
  | .request _ | .retry _ => s.target = none
  | .optimizeNodes => (∀ status ∈ s.nodeStatuses, status.2.blocks = []) ∧
      ∃ client ∈ s.clients, client.mailbox ≠ []
  | .stats _ | .terminated _ => False

/-- A step that loses a request: the balancer handles such a message, or the request
    function throws. -/
def BalancerEvent.Loses (s : BalancerState) : BalancerEvent → Prop
  | .receive => ∃ message ∈ s.mailbox.head?, message.Loses s
  | .handleRequest _ throws => throws = true
  | .send | .report _ | .tick | .terminated _ | .succeed _ | .fail _ => False

instance (s : BalancerState) : DecidablePred (BalancerMessage.Loses s)
  | .request _ | .retry _ => inferInstanceAs (Decidable (s.target = none))
  | .optimizeNodes => inferInstanceAs (Decidable (_ ∧ _))
  | .stats _ | .terminated _ => instDecidableFalse

instance (s : BalancerState) : DecidablePred (BalancerEvent.Loses s)
  | .receive => inferInstanceAs (Decidable (∃ message ∈ s.mailbox.head?, _))
  | .handleRequest _ throws => inferInstanceAs (Decidable (throws = true))
  | .send | .report _ | .tick | .terminated _ | .succeed _ | .fail _ => instDecidableFalse

section Steps

variable {s t : BalancerState}

theorem byClients_set {ref : Nat} {old : GrpcClient} (new : GrpcClient)
    (h : s.clients[ref]? = some old) :
    BalancerState.byClients { s with clients := s.clients.set ref new } + ↑old.mailbox =
      s.byClients + ↑new.mailbox :=
  Lib.sum_map_set (fun client => (client.mailbox : Multiset Nat)) new h

/-- The client a request is routed to is there. -/
theorem target_spec {ref : Nat} {client : GrpcClient} (h : s.target = some (ref, client)) :
    s.clients[ref]? = some client := by
  rcases Option.bind_eq_some_iff.mp h with ⟨ref', _, h⟩
  rcases Option.bind_eq_some_iff.mp h with ⟨client', hclient, h⟩
  split at h
  · cases h
    exact hclient
  · cases h

/-- A request that is routed is held by a client, or else it is lost. -/
theorem held_route (id : Nat) : ∃ lost : Multiset Nat,
    (s.route id).held + lost = s.held + {id} ∧ (lost = 0 ↔ s.target ≠ none) := by
  unfold BalancerState.route
  split
  · -- It is at the end of the client's mailbox now.
    rename_i ref client htarget
    refine ⟨0, ?_, iff_of_true rfl (by simp [htarget])⟩
    have hclients := byClients_set { client with mailbox := client.mailbox ++ [id] }
      (target_spec htarget)
    rw [← Multiset.coe_add, ← add_assoc, add_right_comm] at hclients
    have hclients := add_right_cancel hclients
    simp only [BalancerState.held, BalancerState.places, BalancerState.byClients] at hclients ⊢
    rw [hclients, Multiset.coe_singleton]
    ac_rfl
  · -- The router has nowhere to send it.
    rename_i htarget
    refine ⟨{id}, rfl, iff_of_false (Multiset.singleton_ne_zero _) fun h => h htarget⟩

theorem byClients_eq_zero : s.byClients = 0 ↔ ¬ ∃ client ∈ s.clients, client.mailbox ≠ [] := by
  unfold BalancerState.byClients
  rw [Lib.sum_map_eq_zero_iff]
  simp only [Multiset.coe_eq_zero, ne_eq, not_exists, not_and, not_not]

/-- New clients have nothing waiting. -/
theorem byClients_buildRouter (seedNodes : List NodeAddress) :
    (s.buildRouter seedNodes).byClients = s.byClients := by
  have hnew : ((seedNodes.map fun node => (⟨node.ip, true, []⟩ : GrpcClient)).map
      fun client => (client.mailbox : Multiset Nat)).sum = 0 := by
    refine (Lib.sum_map_eq_zero_iff _ _).mpr fun client hclient => ?_
    rcases List.mem_map.mp hclient with ⟨node, _, rfl⟩
    rfl
  simp only [BalancerState.byClients, BalancerState.buildRouter, List.map_append, List.sum_append]
  rw [hnew, add_zero]

/-- A restart loses what is waiting at the clients. -/
theorem held_restart (config : BalancerConfig) :
    (s.restart config).held + s.byClients = s.held := by
  have hnone : (s.restart config).byClients = 0 := by
    unfold BalancerState.restart
    rw [byClients_buildRouter, byClients_eq_zero]
    rintro ⟨client, hclient, hmailbox⟩
    rcases List.mem_map.mp hclient with ⟨old, _, rfl⟩
    exact hmailbox rfl
  -- The balancer's mailbox and the attempts outlive the restart.
  unfold BalancerState.held BalancerState.places
  rw [hnone, add_zero]
  change _ + ↑s.attempts + ↑s.responses + s.byClients = _
  ac_rfl

/-- Taking a message from the mailbox takes the request in it, if there is one. -/
theorem held_receive {message : BalancerMessage} {rest : List BalancerMessage}
    (hmailbox : s.mailbox = message :: rest) :
    BalancerState.held { s with mailbox := rest } + ↑message.requestId.toList = s.held := by
  simp only [BalancerState.held, BalancerState.places, BalancerState.byClients, hmailbox]
  cases hid : message.requestId with
  | none => simp [hid]
  | some id =>
      rw [List.filterMap_cons_some hid, ← Multiset.cons_coe, ← Multiset.singleton_add]
      simp only [Option.toList_some, Multiset.coe_singleton]
      ac_rfl

/-- Putting a message in the mailbox adds the request in it. -/
theorem held_deliver (message : BalancerMessage) :
    BalancerState.held { s with mailbox := s.mailbox ++ [message] } =
      s.held + ↑message.requestId.toList := by
  have hsingle : [message].filterMap BalancerMessage.requestId = message.requestId.toList := by
    cases hid : message.requestId <;> simp [hid]
  unfold BalancerState.held BalancerState.places BalancerState.byClients
  rw [List.filterMap_append, hsingle, ← Multiset.coe_add]
  ac_rfl

theorem held_deliver_none {message : BalancerMessage} (hid : message.requestId = none) :
    BalancerState.held { s with mailbox := s.mailbox ++ [message] } = s.held := by
  rw [held_deliver, hid, Option.toList_none, Multiset.coe_nil, add_zero]

/-- A request that is taken out to be routed is held by a client, or else it is
    lost. -/
theorem held_receive_route {message : BalancerMessage} {rest : List BalancerMessage} {id : Nat}
    (hmailbox : s.mailbox = message :: rest) (hid : message.requestId = some id) :
    ∃ lost, (BalancerState.route { s with mailbox := rest } id).held + lost = s.held ∧
      (lost = 0 ↔ ¬ s.target = none) := by
  rcases held_route (s := { s with mailbox := rest }) id with ⟨lost, hlost, hzero⟩
  refine ⟨lost, ?_, hzero⟩
  rw [hlost, ← held_receive hmailbox, hid]
  rfl

/-- An attempt that ends gives up its request. -/
theorem held_attempt {id : Nat} (h : id ∈ s.attempts) :
    BalancerState.held { s with attempts := s.attempts.erase id } + {id} = s.held := by
  have hattempts : (↑(s.attempts.erase id) : Multiset Nat) + {id} = ↑s.attempts := by
    rw [add_comm, Multiset.singleton_add, ← Multiset.coe_erase, Multiset.cons_erase h]
  simp only [BalancerState.held, BalancerState.places, BalancerState.byClients]
  rw [← hattempts]
  ac_rfl

@[simp] theorem sent_route (id : Nat) : (s.route id).sent = s.sent := by
  unfold BalancerState.route
  split <;> rfl

theorem held_start (config : BalancerConfig) : (BalancerState.start config).held = 0 := by
  have hnone : (BalancerState.start config).byClients = 0 := by
    unfold BalancerState.start
    rw [byClients_buildRouter]
    rfl
  unfold BalancerState.held BalancerState.places
  rw [hnone]
  rfl

variable [Platform] {config : BalancerConfig}

/-- What the balancer loses when it handles a message. -/
theorem held_step_receive (h : balancerStep config s .receive = some t) :
    t.sent = s.sent ∧
      ∃ lost, t.held + lost = s.held ∧ (lost = 0 ↔ ¬ BalancerEvent.receive.Loses s) := by
  cases hmailbox : s.mailbox with
  | nil => simp [balancerStep, hmailbox] at h
  | cons message rest =>
      have hheld := held_receive hmailbox
      have hloses : BalancerEvent.receive.Loses s ↔ message.Loses s := by
        simp [BalancerEvent.Loses, hmailbox]
      rw [hloses]
      cases message with
      | request id | retry id =>
          simp only [balancerStep, hmailbox, Option.some.injEq] at h
          exact h ▸ ⟨sent_route id, held_receive_route hmailbox rfl⟩
      | stats _ | terminated _ =>
          simp only [balancerStep, hmailbox, Option.some.injEq] at h
          subst h
          exact ⟨rfl, 0, hheld, iff_of_true rfl id⟩
      | optimizeNodes =>
          simp only [balancerStep, hmailbox] at h
          cases hoptimize : optimizeNodes config.maxClients s.nodeStatuses with
          | some routees =>
              -- The clients and their mailboxes stay, whoever is routed to from now on.
              simp only [hoptimize, Option.some.injEq] at h
              subst h
              refine ⟨rfl, 0, hheld, iff_of_true rfl fun hloses => ?_⟩
              rw [(optimizeNodes_eq_none _ _).mpr hloses.1] at hoptimize
              cases hoptimize
          | none =>
              -- `maxBy` throws, and the restart costs what is at the clients.
              simp only [hoptimize, Option.some.injEq] at h
              subst h
              refine ⟨rfl, s.byClients,
                (held_restart (s := { s with mailbox := rest }) config).trans ?_, ?_⟩
              · simpa [BalancerMessage.requestId] using hheld
              · rw [byClients_eq_zero, not_iff_not]
                exact (and_iff_right ((optimizeNodes_eq_none _ _).mp hoptimize)).symm

/-- A client that handles a request starts an attempt, or loses the request. -/
theorem held_step_handleRequest {ref : Nat} {throws : Bool}
    (h : balancerStep config s (.handleRequest ref throws) = some t) :
    t.sent = s.sent ∧ ∃ lost, t.held + lost = s.held ∧ (lost = 0 ↔ ¬ throws = true) := by
  simp only [balancerStep] at h
  split at h
  · rename_i ip id rest hclient
    simp only [Option.some.injEq] at h
    subst h
    refine ⟨rfl, ?_⟩
    have hclients := byClients_set ⟨ip, true, rest⟩ hclient
    rw [← Multiset.cons_coe, ← Multiset.singleton_add, ← add_assoc] at hclients
    have hclients := add_right_cancel hclients
    simp only [BalancerState.held, BalancerState.places, BalancerState.byClients] at hclients ⊢
    rw [← hclients]
    cases throws with
    | true =>
        -- The message is out of the mailbox, and no attempt has been started.
        refine ⟨{id}, ?_, iff_of_false (Multiset.singleton_ne_zero _) fun h => h rfl⟩
        simp only [if_true]
        ac_rfl
    | false =>
        refine ⟨0, ?_, iff_of_true rfl Bool.false_ne_true⟩
        rw [if_neg Bool.false_ne_true, ← Multiset.coe_add, Multiset.coe_singleton]
        ac_rfl
  · cases h

/-- The other steps only put a message in the mailbox, or end an attempt. -/
theorem held_step_other {event : BalancerEvent} (h : balancerStep config s event = some t)
    (hsend : event ≠ .send) (hreceive : event ≠ .receive)
    (hhandle : ∀ ref throws, event ≠ .handleRequest ref throws) :
    t.sent = s.sent ∧ t.held = s.held := by
  cases event with
  | send => exact absurd rfl hsend
  | receive => exact absurd rfl hreceive
  | handleRequest ref throws => exact absurd rfl (hhandle ref throws)
  | report stats =>
      simp only [balancerStep] at h
      split at h
      · split at h
        · cases h
          exact ⟨rfl, held_deliver_none rfl⟩
        · cases h
      · cases h
  | tick =>
      cases h
      exact ⟨rfl, held_deliver_none rfl⟩
  | terminated ref =>
      simp only [balancerStep] at h
      split at h
      · split at h
        · cases h
        · cases h
          exact ⟨rfl, held_deliver_none rfl⟩
      · cases h
  | succeed id =>
      simp only [balancerStep] at h
      split at h
      · rename_i hattempt
        cases h
        refine ⟨rfl, ?_⟩
        rw [← held_attempt hattempt]
        simp only [BalancerState.held, BalancerState.places, BalancerState.byClients]
        rw [← Multiset.coe_add, Multiset.coe_singleton]
        ac_rfl
      · cases h
  | fail id =>
      simp only [balancerStep] at h
      split at h
      · rename_i hattempt
        cases h
        refine ⟨rfl, ?_⟩
        rw [← held_attempt hattempt]
        exact held_deliver (s := { s with attempts := s.attempts.erase id }) (.retry id)
      · cases h

theorem step_held (s : BalancerState) (event : BalancerEvent) (t : BalancerState)
    (h : balancerStep config s event = some t) : ∃ lost,
    t.held + lost + Multiset.range s.sent = s.held + Multiset.range t.sent ∧
      (lost = 0 ↔ ¬ event.Loses s) := by
  by_cases hsend : event = .send
  · subst hsend
    cases h
    refine ⟨0, ?_, iff_of_true rfl id⟩
    have hdeliver := held_deliver (s := { s with sent := s.sent + 1 }) (.request s.sent)
    simp only [BalancerMessage.requestId, Option.toList_some, Multiset.coe_singleton] at hdeliver
    rw [add_zero, hdeliver, Multiset.range_succ, ← Multiset.singleton_add, add_assoc]
    rfl
  · -- The other steps issue nothing.
    have hstep : t.sent = s.sent ∧
        ∃ lost, t.held + lost = s.held ∧ (lost = 0 ↔ ¬ event.Loses s) := by
      cases event with
      | send => exact absurd rfl hsend
      | receive => exact held_step_receive h
      | handleRequest ref throws => exact held_step_handleRequest h
      | _ =>
          rcases held_step_other h hsend nofun nofun with ⟨hsent, hheld⟩
          exact ⟨hsent, 0, by rw [add_zero, hheld], iff_of_true rfl id⟩
    rcases hstep with ⟨hsent, lost, hlost, hzero⟩
    exact ⟨lost, by rw [hlost, hsent], hzero⟩

end Steps

section Runs

variable [Platform] (config : BalancerConfig)

/-- The requests are tokens: each is issued when it is sent. -/
def balancerTokens : Lib.Tokens Nat (balancerStep config) where
  held := BalancerState.held
  issued s := Multiset.range s.sent
  Loses s event := event.Loses s
  step_held := step_held

variable {config} {t : BalancerState} {events : List BalancerEvent}

/-- Whatever happens, nothing is held twice that was sent once. -/
theorem held_nodup
    (hrun : Lib.runFrom (balancerStep config) (BalancerState.start config) events = some t) :
    t.held.Nodup :=
  Multiset.nodup_of_le ((balancerTokens config).held_le_issued (held_start config) hrun)
    (Multiset.nodup_range t.sent)

/-- No request is answered twice, whatever happens. -/
theorem answered_once
    (hrun : Lib.runFrom (balancerStep config) (BalancerState.start config) events = some t)
    (id : Nat) : t.responses.count id ≤ 1 := by
  have hheld : t.held.count id ≤ 1 := Multiset.nodup_iff_count_le_one.mp (held_nodup hrun) id
  rw [BalancerState.held, Multiset.count_add, Multiset.coe_count] at hheld
  omega

end Runs

end Tronscan
