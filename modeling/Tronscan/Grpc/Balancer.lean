import Tronscan.Api.Request
import Tronscan.Lib.Tokens
import Mathlib.Data.List.MinMax
import Mathlib.Data.Multiset.Range

/-!
# The Balancer

`GrpcBalancer` and `GrpcClient`: requests to the full nodes, spread over clients.

The balancer has a client for each seed node and a router that takes them in
turn. A request is routed to a client, which starts an attempt and goes on to its
next message. An attempt that succeeds answers the request. One that fails sends
it back to the balancer, to be routed again. Clients report the recent blocks of
their node and how fast it is, and every so often the balancer rebuilds its
router from the fastest nodes on the most common chain.

Actors handle one message at a time, and their mailboxes keep the order. A
message sent is in the mailbox at once. An exception that escapes the handling
of a message discards the message and restarts the actor; the balancer then
stops its clients, and what is in their mailboxes is gone, and starts over with
new ones. A message to a client that has stopped, or through a router without
routees, goes nowhere.

Requests are numbered in the order they are sent.

## Main definitions

* `optimizeNodes`: The clients a new router has.
* `BalancerState`, `BalancerEvent`, `balancerStep`: The actors and the attempts.
* `BalancerState.start`: The balancer before its first message.

## Theorems

* `optimizeNodes_eq_none`: When there is nothing to choose from.
-/

namespace Tronscan

/-- The address of a node. -/
structure NodeAddress where
  ip : String
  port : Int
  deriving DecidableEq

/-- The configuration. There is a seed node at least. -/
structure BalancerConfig where
  seedNodes : List NodeAddress
  seedNodes_ne_nil : seedNodes ≠ []
  maxClients : Int

/-- The number and the hash of a block, as a client has seen it. -/
structure GrpcBlock where
  num : Int
  hash : String

/-- What a client reports; its reference is its place among the clients. -/
structure GrpcStats where
  ref : Nat
  ip : String
  responseTime : Int
  blocks : List GrpcBlock

/-- A message to the balancer. -/
inductive BalancerMessage where
  | request (id : Nat)
  | retry (id : Nat)
  | stats (stats : GrpcStats)
  | terminated (ref : Nat)
  | optimizeNodes

namespace BalancerMessage

/-- The request in a message. -/
def requestId : BalancerMessage → Option Nat
  | request id | retry id => some id
  | _ => none

end BalancerMessage

/-- A client that is alive or has stopped, and the requests in its mailbox. -/
structure GrpcClient where
  ip : String
  alive : Bool
  mailbox : List Nat

/-- Both kinds of actors, the requests with a running attempt, the requests
    answered, and how many have been sent. -/
structure BalancerState where
  mailbox : List BalancerMessage
  clients : List GrpcClient
  routees : List Nat
  next : Nat
  nodeStatuses : List (String × GrpcStats)
  attempts : List Nat
  responses : List Nat
  sent : Nat

section Optimize

variable [Platform] (maxClients : Int) (nodeStatuses : List (String × GrpcStats))

/-- How often each block hash is reported. -/
def chainCounts : List (String × Nat) :=
  let hashes := (Platform.order nodeStatuses).flatMap fun x => x.2.blocks.map (·.hash)
  Platform.order (hashes.dedup.map fun hash => (hash, hashes.count hash))

/-- The fastest clients on the most common chain, unless no block is known. -/
def optimizeNodes : Option (List Nat) := do
  let mostCommonBlockHash ← ((chainCounts nodeStatuses).argmax (·.2)).map (·.1)
  let validChainNodes := ((Platform.order nodeStatuses).map (·.2)).filter fun stats =>
    stats.blocks.any (·.hash == mostCommonBlockHash)
  let sortedNodes := validChainNodes.insertionSort (·.responseTime ≤ ·.responseTime)
  return (sortedNodes.take maxClients.toNat).map (·.ref)

/-- There is nothing to choose from exactly when no node has reported a block. -/
theorem optimizeNodes_eq_none :
    optimizeNodes maxClients nodeStatuses = none ↔ ∀ status ∈ nodeStatuses, status.2.blocks = [] := by
  have hnone : optimizeNodes maxClients nodeStatuses = none ↔ chainCounts nodeStatuses = [] := by
    unfold optimizeNodes
    cases hmax : (chainCounts nodeStatuses).argmax (·.2) with
    | none => exact iff_of_true rfl (List.argmax_eq_none.mp hmax)
    | some count => exact iff_of_false nofun fun h => by rw [h] at hmax; cases hmax
  rw [hnone, chainCounts, ← List.length_eq_zero_iff, (Platform.order_perm _).length_eq,
    List.length_eq_zero_iff, List.map_eq_nil_iff, List.dedup_eq_nil, List.flatMap_eq_nil_iff]
  constructor
  · intro h status hstatus
    exact List.map_eq_nil_iff.mp (h status ((Platform.order_perm _).mem_iff.mpr hstatus))
  · intro h status hstatus
    rw [h status ((Platform.order_perm _).mem_iff.mp hstatus), List.map_nil]

end Optimize

/-- What can happen around the balancer. -/
inductive BalancerEvent where
  /-- A request is sent to the balancer. -/
  | send
  /-- A client reports to the balancer. -/
  | report (stats : GrpcStats)
  /-- The timer tells the balancer to optimize. -/
  | tick
  /-- The balancer learns that a client it watches has stopped. -/
  | terminated (ref : Nat)
  /-- The balancer handles its next message. -/
  | receive
  /-- A client handles its next request. The request function may throw. -/
  | handleRequest (ref : Nat) (throws : Bool)
  /-- The attempt for a request succeeds, or fails. -/
  | succeed (id : Nat)
  | fail (id : Nat)

namespace BalancerState

variable (s : BalancerState)

/-- Clients for the seed nodes, added to those there are, and a router over them. -/
def buildRouter (seedNodes : List NodeAddress) : BalancerState :=
  { s with
    clients := s.clients ++ seedNodes.map fun node => ⟨node.ip, true, []⟩
    routees := (List.range seedNodes.length).map (s.clients.length + ·)
    next := 0 }

/-- The balancer before its first message. -/
def start (config : BalancerConfig) : BalancerState :=
  buildRouter ⟨[], [], [], 0, [], [], [], 0⟩ config.seedNodes

/-- The clients stop, and the balancer starts over. It keeps its mailbox. -/
def restart (config : BalancerConfig) : BalancerState :=
  buildRouter { s with
    clients := s.clients.map fun client => { client with alive := false, mailbox := [] }
    nodeStatuses := [] } config.seedNodes

/-- The client next in turn. -/
def select : Option Nat := s.routees[s.next % s.routees.length]?

/-- The client the router sends to, if it is there to take the request. -/
def target : Option (Nat × GrpcClient) := do
  let ref ← s.select
  let client ← s.clients[ref]?
  if client.alive then some (ref, client) else none

/-- `router.route` -/
def route (id : Nat) : BalancerState :=
  match s.target with
  | some (ref, client) =>
      { s with
        clients := s.clients.set ref { client with mailbox := client.mailbox ++ [id] }
        next := s.next + 1 }
  | none => { s with next := if s.routees = [] then s.next else s.next + 1 }

end BalancerState

variable [Platform]

/-- One step; none where the event cannot happen. -/
def balancerStep (config : BalancerConfig) (s : BalancerState) :
    BalancerEvent → Option BalancerState
  | .send => some { s with mailbox := s.mailbox ++ [.request s.sent], sent := s.sent + 1 }
  | .report stats =>
      match s.clients[stats.ref]? with
      | some client =>
          if client.alive then some { s with mailbox := s.mailbox ++ [.stats stats] } else none
      | none => none
  | .tick => some { s with mailbox := s.mailbox ++ [.optimizeNodes] }
  | .terminated ref =>
      match s.clients[ref]? with
      | some client =>
          if client.alive then none else some { s with mailbox := s.mailbox ++ [.terminated ref] }
      | none => none
  | .receive =>
      match s.mailbox with
      | [] => none
      | .request id :: rest | .retry id :: rest => some ({ s with mailbox := rest }.route id)
      | .stats stats :: rest =>
          some { s with
            mailbox := rest
            nodeStatuses := Lib.upsert (·.1) (stats.ip, stats) s.nodeStatuses }
      | .terminated ref :: rest =>
          some { s with mailbox := rest, routees := s.routees.filter fun r => decide (r ≠ ref) }
      | .optimizeNodes :: rest =>
          match optimizeNodes config.maxClients s.nodeStatuses with
          | some routees => some { s with mailbox := rest, routees := routees, next := 0 }
          -- `maxBy` throws.
          | none => some ({ s with mailbox := rest }.restart config)
  | .handleRequest ref throws =>
      match s.clients[ref]? with
      | some ⟨ip, true, id :: rest⟩ =>
          some { s with
            clients := s.clients.set ref ⟨ip, true, rest⟩
            -- The client restarts if the request function throws.
            attempts := if throws then s.attempts else s.attempts ++ [id] }
      | _ => none
  | .succeed id =>
      if id ∈ s.attempts then
        some { s with attempts := s.attempts.erase id, responses := s.responses ++ [id] }
      else none
  | .fail id =>
      if id ∈ s.attempts then
        some { s with attempts := s.attempts.erase id, mailbox := s.mailbox ++ [.retry id] }
      else none

end Tronscan
