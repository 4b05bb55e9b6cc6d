import Tronscan.Core.Encoding
import Tronscan.Grpc.Balancer
import Tronscan.Lib.Stream
import Tronscan.Lib.Latest

/-!
# The Network Scanner

`NetworkScanner` and the part of `NetworkStreams` it reads nodes with: how nodes
are found, and how the actor keeps what it is told of them.

A scan is three stages, one behind the other, each of which asks every address it
gets for the addresses that node knows and passes on the distinct ones. A node
that does not answer knows none.

The actor keeps a map of nodes. Those of the configuration are permanent: they are
never cleaned up, and not overwritten by what is found out about them.

The nodes' answers and the time are taken from outside.

## Main definitions

* `NetworkNode`: What is known of a node.
* `Network`: What the nodes answer.
* `NetworkStreams.networkScanner`: What asking an address comes to.
* `readNodeChannels`: The three stages.
* `ScannerState`, `ScannerMessage`, `ScannerState.receive`: The actor.

## Theorems

* `updateNode_of_refuses`, `updateNode_of_not_refuses`: What an update does.
* `ScannerState.wf_receive`: There is one node for each host.
-/

namespace Tronscan

/-- `NetworkScanner.solidity` and `NetworkScanner.full` -/
def NetworkNode.solidity : Int := 1

/-- The node type of a full node. -/
def NetworkNode.full : Int := 2

/-- What is known of a node. -/
structure NetworkNode where
  ip : String
  port : Int
  nodeType : Int := NetworkNode.full
  hostname : String := ""
  lastSeen : Int
  permanent : Bool := false
  lastBlock : Int := 0
  grpcEnabled : Bool := false
  grpcResponseTime : Int := 0
  pingOnline : Bool := false
  pingResponseTime : Int := 0
  country : String := ""
  city : String := ""
  lat : Float := 0
  lng : Float := 0

/-- The address in an entry of a `NodeList`. -/
structure GrpcAddress where
  host : Bytes
  port : Int

/-- What the node on a host and port answers to `listNodes`, if it does. An entry
    may lack its address. -/
structure Network where
  listNodes : String → Int → Option (List (Option GrpcAddress))

/-- A channel to a host and port. -/
structure Channel where
  ip : String
  port : Int

/-- A node that is to be asked, with the channel to it. -/
structure NodeChannel where
  ip : String
  port : Int
  channel : Channel

/-- The channel to a host, always on one port. -/
def channelFromIp (ip : String) (_port : Int) : Channel := { ip := ip, port := 50051 }

/-- The channel to a node of the scanner. -/
def channelFromNode (node : NetworkNode) : Channel := { ip := node.ip, port := node.port }

/-- An address with the channel to it. -/
def nodeFromIp (nodeAddress : NodeAddress) : NodeChannel where
  ip := nodeAddress.ip
  port := nodeAddress.port
  channel := channelFromIp nodeAddress.ip nodeAddress.port

section Scan

variable [Codec] (network : Network)

/-- The addresses a node knows, if it answers and each entry has one. -/
def Network.nodes (ip : String) (port : Int) : Option (List NodeAddress) := do
  let nodes ← network.listNodes ip port
  nodes.mapM fun node => node.map fun a => { ip := decodeString a.host, port := a.port }

/-- What asking an address comes to, which is nothing where anything fails. -/
def NetworkStreams.networkScanner (nodeFromIp : NodeAddress → NodeChannel) (ip : NodeAddress) :
    List NodeAddress :=
  let nc := nodeFromIp ip
  (network.nodes nc.channel.ip nc.channel.port).getD []

/-- One stage: ask each address, four at a time, and pass on the distinct answers. -/
def buildReadStream : List NodeAddress → List NodeAddress → Prop :=
  Lib.Expansion 4 (NetworkStreams.networkScanner network nodeFromIp)

/-- Three stages, one behind the other. -/
def readNodeChannels (ips out : List NodeAddress) : Prop :=
  ∃ first second, buildReadStream network ips first ∧ buildReadStream network first second ∧
    buildReadStream network second out

end Scan

/-- The actor's variables. -/
structure ScannerState where
  networkNodes : List (String × NetworkNode) := []
  syncStatus : String := "waiting_for_first_sync"

/-- The messages it gets, a clean-up with the time. -/
inductive ScannerMessage where
  | updateNode (node : NetworkNode)
  | requestStatus
  | cleanupNodes (now : Int)
  | getBestNodes (count : Int) (filter : NetworkNode → Bool)

/-- What it answers. -/
inductive ScannerReply where
  | nodeStatus (nodes : List NetworkNode) (status : String)
  | grpcClients (channels : List Channel)

namespace ScannerState

variable (s : ScannerState)

/-- The node under a key. -/
def get (ip : String) : Option NetworkNode := s.networkNodes.lookup ip

/-- Store a node under its ip. -/
def put (node : NetworkNode) : ScannerState :=
  { s with networkNodes := Lib.upsert (·.1) (node.ip, node) s.networkNodes }

/-- A node that is permanent is not overwritten. -/
def updateNode (node : NetworkNode) : ScannerState :=
  match s.get node.ip with
  | some existingNode => if !existingNode.permanent then s.put node else s
  | none => s.put node

/-- A minute in milliseconds. -/
def minute : Int := 60 * 1000

/-- Drop what was not seen for half an hour and is not permanent. -/
def cleanup (now : Int) : ScannerState :=
  let cleanupAfter := now - 30 * minute
  { s with
    networkNodes := s.networkNodes.filter fun x =>
      x.2.permanent || decide (cleanupAfter < x.2.lastSeen) }

/-- What a message leaves behind. -/
def receive : ScannerMessage → ScannerState
  | .updateNode node => { s with syncStatus := "ready" }.updateNode node
  | .requestStatus => s
  | .cleanupNodes now => s.cleanup now
  | .getBestNodes _ _ => s

variable [Platform]

/-- The nodes of the map, as it is traversed. -/
def values : List NetworkNode := (Platform.order s.networkNodes).map (·.2)

/-- The nodes that answer fastest. -/
def bestNodes (count : Int) (filter : NetworkNode → Bool) : List NetworkNode :=
  let nodes := (s.values.filter filter).filter (·.grpcEnabled)
  (nodes.insertionSort fun m n => m.grpcResponseTime ≤ n.grpcResponseTime).take count.toNat

/-- What a message is answered with. -/
def reply : ScannerMessage → Option ScannerReply
  | .updateNode _ => none
  | .requestStatus => some (.nodeStatus s.values s.syncStatus)
  | .cleanupNodes _ => none
  | .getBestNodes count filter =>
      some (.grpcClients ((s.bestNodes count filter).map channelFromNode))

end ScannerState

/-- The nodes of the configuration, as `preStart` reports them. -/
def seedNode (seedNodeAddress : NodeAddress) (now : Int) : NetworkNode where
  ip := seedNodeAddress.ip
  port := seedNodeAddress.port
  lastSeen := now
  permanent := true
  grpcEnabled := true
  grpcResponseTime := 1

/-- The node of a solidity seed. -/
def soliditySeedNode (seedNodeAddress : NodeAddress) (now : Int) : NetworkNode :=
  { seedNode seedNodeAddress now with nodeType := NetworkNode.solidity }

namespace ScannerState

/-- Each node is under its host, one for each. -/
structure Wf (s : ScannerState) : Prop where
  nodup : (s.networkNodes.map (·.1)).Nodup
  key_eq : ∀ x ∈ s.networkNodes, x.1 = x.2.ip

/-- There is a permanent node on the host of an update. -/
def Refuses (s : ScannerState) (node : NetworkNode) : Prop :=
  ∃ existing, (node.ip, existing) ∈ s.networkNodes ∧ existing.permanent = true

variable {s : ScannerState} {node : NetworkNode}

theorem get_eq_some (h : s.Wf) {ip : String} : s.get ip = some node ↔ (ip, node) ∈ s.networkNodes :=
  Request.lookup_eq_some h.nodup

theorem updateNode_of_refuses (h : s.Wf) (hrefuses : s.Refuses node) : s.updateNode node = s := by
  rcases hrefuses with ⟨existing, hmem, hpermanent⟩
  unfold updateNode
  rw [(get_eq_some h).mpr hmem]
  simp only [hpermanent, Bool.not_true, Bool.false_eq_true, if_false]

theorem updateNode_of_not_refuses (h : s.Wf) (hrefuses : ¬ s.Refuses node) :
    s.updateNode node = s.put node := by
  unfold updateNode
  rcases hget : s.get node.ip with _ | existing
  · rfl
  · have hpermanent : existing.permanent = false := by
      rw [← Bool.not_eq_true]
      exact fun hp => hrefuses ⟨existing, (get_eq_some h).mp hget, hp⟩
    simp only [hpermanent, Bool.not_false, if_true]

theorem mem_put {x : String × NetworkNode} :
    x ∈ (s.put node).networkNodes ↔ x = (node.ip, node) ∨ x ∈ s.networkNodes ∧ x.1 ≠ node.ip :=
  Lib.mem_upsert

theorem mem_cleanup {now : Int} {x : String × NetworkNode} :
    x ∈ (s.cleanup now).networkNodes ↔ x ∈ s.networkNodes ∧
      (x.2.permanent = true ∨ now - 30 * minute < x.2.lastSeen) := by
  unfold cleanup
  simp only [List.mem_filter, Bool.or_eq_true, decide_eq_true_eq]

theorem wf_put (h : s.Wf) : (s.put node).Wf where
  nodup := Lib.nodup_keys_upsert h.nodup
  key_eq x hx := by
    rcases mem_put.mp hx with rfl | ⟨hx, _⟩
    · rfl
    · exact h.key_eq x hx

/-- Every message leaves one node for each host. -/
theorem wf_receive (h : s.Wf) (message : ScannerMessage) : (s.receive message).Wf := by
  cases message with
  | updateNode node =>
      have hready : ({ s with syncStatus := "ready" } : ScannerState).Wf := ⟨h.nodup, h.key_eq⟩
      by_cases hrefuses : ({ s with syncStatus := "ready" } : ScannerState).Refuses node
      · simp only [receive, updateNode_of_refuses hready hrefuses]
        exact hready
      · simp only [receive, updateNode_of_not_refuses hready hrefuses]
        exact wf_put hready
  | requestStatus => exact h
  | cleanupNodes now =>
      refine ⟨?_, fun x hx => h.key_eq x (mem_cleanup.mp hx).1⟩
      exact Lib.nodup_keys_filter _ h.nodup
  | getBestNodes count filter => exact h

end ScannerState

end Tronscan
