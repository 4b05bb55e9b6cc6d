import Tronscan.Grpc.Balancer
import Tronscan.Lib.Latest
import Tronscan.Lib.Ranking

/-!
# The Balancer by Itself

What `GrpcBalancer.receive` does to the variables of the balancer, message by
message, with the totals that `Tronscan.Grpc.Balancer` leaves out.

`optimizeNodes` finds the hash that is reported most often, sorts the nodes that
report it by their response times, and splits them in two, the active ones and
the others. Both of the maps it goes through are traversed in an order the
program does not control. Whichever it is, the hash is one with the most
entries, and for each of those there is an order that leads to it.

The reports are kept by the ip of the node, one for each.

## Main definitions

* `blockHashes`: The hashes in the reports, as often as they occur.
* `IsMostCommon`: No hash has more entries.
* `mostCommonBlockHash`, `sortedNodes`: The steps of `optimizeNodes`.
* `GrpcBalancer`, `GrpcBalancer.receive`: The variables, and a message.
* `GrpcBalancer.fresh`: The variables of a new balancer.
* `reports`, `statuses`: The reports among the messages, and as they are kept.

## Theorems

* `optimizeNodes_eq`: The routees are the fastest of the sorted nodes.
* `mostCommonBlockHash_spec`, `exists_mostCommonBlockHash`: The hash found.
* `mem_statuses`: What is kept is the latest report of each ip.
* `receive_nodeStatuses`: The reports a sequence of messages leaves.
* `balancerStep_receive`: A message in the system of all actors.
* `balancer_reachable`: Every reachable balancer has handled some messages.
-/

namespace Tronscan

/-- The hashes the nodes have reported, each as often as it is in their lists. -/
def blockHashes (nodeStatuses : List (String × GrpcStats)) : List String :=
  nodeStatuses.flatMap fun x => x.2.blocks.map (·.hash)

/-- The hash has been reported, and none more often. -/
def IsMostCommon (nodeStatuses : List (String × GrpcStats)) (hash : String) : Prop :=
  hash ∈ blockHashes nodeStatuses ∧ ∀ other,
    (blockHashes nodeStatuses).count other ≤ (blockHashes nodeStatuses).count hash

/-- The recent blocks of a node have the hash among them. -/
def GrpcStats.OnChain (stats : GrpcStats) (hash : String) : Prop :=
  ∃ block ∈ stats.blocks, block.hash = hash

instance (stats : GrpcStats) (hash : String) : Decidable (stats.OnChain hash) :=
  inferInstanceAs (Decidable (∃ block ∈ stats.blocks, block.hash = hash))

section Optimize

variable [Platform] (maxClients : Int) (nodeStatuses : List (String × GrpcStats))

/-- The hash with the highest count, the first of them. -/
def mostCommonBlockHash : Option String :=
  ((chainCounts nodeStatuses).argmax (·.2)).map (·.1)

/-- The nodes on the chain with the hash, the fastest first. -/
def sortedNodes (hash : String) : List GrpcStats :=
  (((Platform.order nodeStatuses).map (·.2)).filter fun stats =>
    stats.blocks.any (·.hash == hash)).insertionSort (·.responseTime ≤ ·.responseTime)

theorem optimizeNodes_eq : optimizeNodes maxClients nodeStatuses =
    (mostCommonBlockHash nodeStatuses).map fun hash =>
      ((sortedNodes nodeStatuses hash).take maxClients.toNat).map (·.ref) := by
  unfold optimizeNodes mostCommonBlockHash
  cases (chainCounts nodeStatuses).argmax (·.2) with
  | none => rfl
  | some count => rfl

end Optimize

/-! ## The hash that is found -/

section MostCommon

variable {nodeStatuses : List (String × GrpcStats)} {hash : String}

/-- The hashes in any order of traversal are the same. -/
theorem blockHashes_perm {xs ys : List (String × GrpcStats)} (h : xs.Perm ys) :
    (blockHashes xs).Perm (blockHashes ys) :=
  h.flatMap_right _

theorem mem_chainCounts [Platform] {count : Nat} : (hash, count) ∈ chainCounts nodeStatuses ↔
    hash ∈ blockHashes nodeStatuses ∧ count = (blockHashes nodeStatuses).count hash := by
  have hperm := blockHashes_perm (Platform.order_perm nodeStatuses)
  unfold chainCounts
  simp only [(Platform.order_perm _).mem_iff, List.mem_map, List.mem_dedup, Prod.mk.injEq]
  constructor
  · rintro ⟨other, hother, rfl, rfl⟩
    exact ⟨hperm.mem_iff.mp hother, hperm.count_eq _⟩
  · rintro ⟨hhash, rfl⟩
    exact ⟨hash, hperm.mem_iff.mpr hhash, rfl, hperm.count_eq _⟩

/-- The hash found is one with the most entries. -/
theorem mostCommonBlockHash_spec [Platform] (h : mostCommonBlockHash nodeStatuses = some hash) :
    IsMostCommon nodeStatuses hash := by
  rcases Option.map_eq_some_iff.mp h with ⟨⟨hash', count⟩, hmax, rfl⟩
  have hmem := mem_chainCounts.mp (List.argmax_mem hmax)
  refine ⟨hmem.1, fun other => ?_⟩
  by_cases hother : other ∈ blockHashes nodeStatuses
  · have hle := List.le_of_mem_argmax (mem_chainCounts.mpr ⟨hother, rfl⟩) hmax
    exact hmem.2 ▸ hle
  · rw [List.count_eq_zero_of_not_mem hother]
    exact Nat.zero_le _

/-- None is found exactly when there is none. -/
theorem mostCommonBlockHash_eq_none [Platform] :
    mostCommonBlockHash nodeStatuses = none ↔ blockHashes nodeStatuses = [] := by
  have hnone := optimizeNodes_eq_none 0 nodeStatuses
  rw [optimizeNodes_eq, Option.map_eq_none_iff] at hnone
  unfold blockHashes
  rw [hnone, List.flatMap_eq_nil_iff]
  simp only [List.map_eq_nil_iff]

/-- The platform that traverses maps with the bindings of some keys first, in
    the order of the keys. -/
@[reducible] def Platform.startingAt (keys : List String) : Platform where
  toLowerCase := examplePlatform.toLowerCase
  digit := examplePlatform.digit
  parseDateTime := examplePlatform.parseDateTime
  order bindings := bindings.insertionSort fun x y => keys.idxOf x.1 ≤ keys.idxOf y.1
  order_perm bindings := List.perm_insertionSort _ bindings

/-- What it traverses first is a binding of the first key that is bound. -/
theorem startingAt_order {α : Type} {keys : List String} {bindings : List (String × α)}
    {x : String × α} (h : x ∈ bindings) : ∃ first rest,
    (Platform.startingAt keys).order bindings = first :: rest ∧
      ∀ y ∈ bindings, keys.idxOf first.1 ≤ keys.idxOf y.1 := by
  have hsorted := Lib.pairwise_sort (fun y : String × α => keys.idxOf y.1) bindings
  have hperm := (Platform.startingAt keys).order_perm bindings
  change List.Pairwise _ ((Platform.startingAt keys).order bindings) at hsorted
  rcases horder : (Platform.startingAt keys).order bindings with _ | ⟨first, rest⟩
  · rw [horder] at hperm
    rw [hperm.nil_eq.symm] at h
    exact absurd h List.not_mem_nil
  · rw [horder] at hperm hsorted
    refine ⟨first, rest, rfl, fun y hy => ?_⟩
    rcases List.mem_cons.mp (hperm.mem_iff.mpr hy) with rfl | hy
    · exact le_refl _
    · exact List.rel_of_pairwise_cons hsorted hy

/-- Every hash with the most entries is found in some order of traversal. -/
theorem exists_mostCommonBlockHash (h : IsMostCommon nodeStatuses hash) (keys : List String) :
    @mostCommonBlockHash (Platform.startingAt (hash :: keys)) nodeStatuses = some hash := by
  let _ := Platform.startingAt (hash :: keys)
  have hmem : (hash, (blockHashes nodeStatuses).count hash) ∈ chainCounts nodeStatuses :=
    mem_chainCounts.mpr ⟨h.1, rfl⟩
  have hle : ∀ count ∈ chainCounts nodeStatuses,
      count.2 ≤ (blockHashes nodeStatuses).count hash := by
    rintro ⟨other, count⟩ hcount
    rw [(mem_chainCounts.mp hcount).2]
    exact h.2 other
  -- The count of the hash is traversed first, and `argmax` keeps the first.
  rcases startingAt_order ((Platform.order_perm _).mem_iff.mp hmem) with
    ⟨⟨first, count⟩, rest, hcounts, hfirst⟩
  change chainCounts nodeStatuses = _ at hcounts
  have hkey : first = hash := by
    have hzero := hfirst _ ((Platform.order_perm _).mem_iff.mp hmem)
    rw [List.idxOf_cons_self, Nat.le_zero, List.idxOf_cons] at hzero
    by_contra hne
    rw [beq_false_of_ne (Ne.symm hne)] at hzero
    cases hzero
  subst hkey
  have hcount : count = (blockHashes nodeStatuses).count first :=
    (mem_chainCounts.mp (hcounts ▸ List.mem_cons_self)).2
  have hmax : (chainCounts nodeStatuses).argmax (·.2) = some (first, count) := by
    rw [hcounts, List.argmax_cons]
    cases hrest : rest.argmax (·.2) with
    | none => rfl
    | some other =>
        have hother := hle other (hcounts ▸ List.mem_cons_of_mem _ (List.argmax_mem hrest))
        exact if_neg (by simp only; omega)
  unfold mostCommonBlockHash
  rw [hmax]
  rfl

end MostCommon

/-! ## The variables of the balancer -/

/-- `GrpcBalancerStats`: the nodes that are routed to, and the others. -/
structure GrpcBalancerStats where
  activeNodes : List GrpcStats := []
  nodes : List GrpcStats := []

/-- `nodeStatuses`, the clients in `router`, and `totalStats`. -/
structure GrpcBalancer where
  nodeStatuses : List (String × GrpcStats) := []
  routees : List Nat
  totalStats : GrpcBalancerStats := {}

/-- The report in a message. -/
def BalancerMessage.stats? : BalancerMessage → Option GrpcStats
  | .stats report => some report
  | _ => none

/-- The reports among the messages. -/
def reports (messages : List BalancerMessage) : List GrpcStats :=
  messages.filterMap BalancerMessage.stats?

/-- The reports as a new balancer keeps them. -/
def statuses (reports : List GrpcStats) : List (String × GrpcStats) :=
  (reports.map fun stats => (stats.ip, stats)).foldl
    (fun nodeStatuses x => Lib.upsert (·.1) x nodeStatuses) []

/-- For each ip it keeps the latest report. -/
theorem mem_statuses {ip : String} {stats : GrpcStats} {reports : List GrpcStats} :
    (ip, stats) ∈ statuses reports ↔ Lib.latest (·.ip) ip reports = some stats := by
  unfold statuses
  rw [Lib.mem_foldl_upsert, Lib.latest_map, Option.map_eq_some_iff]
  constructor
  · rintro ⟨stats', h, hpair⟩
    cases hpair
    exact h
  · intro h
    exact ⟨stats, h, by rw [(Lib.latest_mem h).2]⟩

namespace GrpcBalancer

/-- The balancer with new clients. -/
def fresh (clients : List Nat) : GrpcBalancer where
  routees := clients

variable [Platform] (maxClients : Int)

/-- `optimizeNodes`: of the nodes on the most common chain, route to the fastest.
    It throws when no node has reported a block. -/
def optimizeNodes (b : GrpcBalancer) : Option GrpcBalancer := do
  let mostCommonBlockHash ← mostCommonBlockHash b.nodeStatuses
  let sortedNodes := sortedNodes b.nodeStatuses mostCommonBlockHash
  let fastestNodes := sortedNodes.take maxClients.toNat
  return { b with
    totalStats := { activeNodes := fastestNodes, nodes := sortedNodes.drop maxClients.toNat }
    routees := fastestNodes.map (·.ref) }

/-- Handling a message, `none` when it throws. -/
def receive (b : GrpcBalancer) : BalancerMessage → Option GrpcBalancer
  -- The router passes a request on, and is the same but for the turn.
  | .request _ | .retry _ => some b
  | .stats stats =>
      some { b with nodeStatuses := Lib.upsert (·.1) (stats.ip, stats) b.nodeStatuses }
  | .terminated a => some { b with routees := b.routees.filter fun r => decide (r ≠ a) }
  | .optimizeNodes => b.optimizeNodes maxClients

variable {maxClients} {b t : GrpcBalancer} {message : BalancerMessage}

theorem optimizeNodes_some (h : b.optimizeNodes maxClients = some t) :
    ∃ hash, mostCommonBlockHash b.nodeStatuses = some hash ∧
      t.nodeStatuses = b.nodeStatuses ∧ t.routees = t.totalStats.activeNodes.map (·.ref) ∧
      t.totalStats.activeNodes = (sortedNodes b.nodeStatuses hash).take maxClients.toNat ∧
      t.totalStats.nodes = (sortedNodes b.nodeStatuses hash).drop maxClients.toNat := by
  rcases Option.bind_eq_some_iff.mp h with ⟨hash, hhash, h⟩
  cases h
  exact ⟨hash, hhash, rfl, rfl, rfl, rfl⟩

theorem optimizeNodes_of_hash {hash : String}
    (h : mostCommonBlockHash b.nodeStatuses = some hash) :
    ∃ t, b.optimizeNodes maxClients = some t ∧
      t.routees = ((sortedNodes b.nodeStatuses hash).take maxClients.toNat).map (·.ref) :=
  ⟨_, Option.bind_eq_some_iff.mpr ⟨hash, h, rfl⟩, rfl⟩

/-- There is nothing to optimize exactly when no report has a block. -/
theorem optimizeNodes_none : b.optimizeNodes maxClients = none ↔
    ∀ status ∈ b.nodeStatuses, status.2.blocks = [] := by
  rw [← optimizeNodes_eq_none maxClients, optimizeNodes_eq, Option.map_eq_none_iff]
  unfold optimizeNodes
  cases mostCommonBlockHash b.nodeStatuses with
  | none => exact iff_of_true rfl rfl
  | some hash => exact iff_of_false (fun h => by cases h) (fun h => by cases h)

/-- Only a report changes the reports. -/
theorem receive_step (h : b.receive maxClients message = some t) :
    t.nodeStatuses = message.stats?.toList.foldl
      (fun nodeStatuses stats => Lib.upsert (·.1) (stats.ip, stats) nodeStatuses)
      b.nodeStatuses := by
  cases message with
  | request _ | retry _ | stats _ | terminated _ => cases h; rfl
  | optimizeNodes =>
      rcases optimizeNodes_some h with ⟨_, _, hsame, _⟩
      exact hsame

/-- A new balancer keeps the latest of the reports it has received. -/
theorem receive_nodeStatuses {clients : List Nat} {messages : List BalancerMessage}
    (hrun : Lib.runFrom (receive maxClients) (fresh clients) messages = some t) :
    t.nodeStatuses = statuses (reports messages) := by
  induction messages using List.reverseRecOn generalizing t with
  | nil => cases hrun; rfl
  | append_singleton messages message ih =>
      rcases Lib.runFrom_concat.mp hrun with ⟨u, hu, ht⟩
      rw [receive_step ht, ih hu]
      unfold statuses reports
      rw [List.filterMap_append, List.map_append, List.foldl_append]
      cases message with
      | stats stats => rfl
      | _ => rfl

end GrpcBalancer

/-! ## In the system of all actors -/

section System

variable [Platform] {config : BalancerConfig} {s t : BalancerState}

/-- A message does to the balancer in the system what it does to the balancer by
    itself, and an exception makes for a restart. -/
theorem balancerStep_receive {message : BalancerMessage} {rest : List BalancerMessage}
    {b : GrpcBalancer} (hmailbox : s.mailbox = message :: rest)
    (hstatuses : s.nodeStatuses = b.nodeStatuses) (hroutees : s.routees = b.routees)
    (h : balancerStep config s .receive = some t) :
    match b.receive config.maxClients message with
    | some b' => t.nodeStatuses = b'.nodeStatuses ∧ t.routees = b'.routees
    | none => t = BalancerState.restart { s with mailbox := rest } config := by
  cases message with
  | request id | retry id =>
      simp only [balancerStep, hmailbox, Option.some.injEq] at h
      subst h
      have hroute : ∀ u : BalancerState, (u.route id).nodeStatuses = u.nodeStatuses ∧
          (u.route id).routees = u.routees := by
        intro u
        unfold BalancerState.route
        split <;> exact ⟨rfl, rfl⟩
      exact ⟨(hroute _).1.trans hstatuses, (hroute _).2.trans hroutees⟩
  | stats _ | terminated _ =>
      simp only [balancerStep, hmailbox, Option.some.injEq] at h
      subst h
      simp only [GrpcBalancer.receive, hstatuses, hroutees, and_self]
  | optimizeNodes =>
      simp only [balancerStep, hmailbox, hstatuses, optimizeNodes_eq] at h
      simp only [GrpcBalancer.receive, GrpcBalancer.optimizeNodes]
      cases hhash : mostCommonBlockHash b.nodeStatuses with
      | none =>
          simp only [hhash, Option.map_none, Option.some.injEq] at h
          exact h.symm
      | some hash =>
          simp only [hhash, Option.map_some, Option.some.injEq] at h
          subst h
          exact ⟨rfl, rfl⟩

/-- What a reachable balancer knows and routes to is what a new balancer comes to
    by handling some messages. -/
theorem balancer_reachable {events : List BalancerEvent}
    (hrun : Lib.runFrom (balancerStep config) (BalancerState.start config) events = some t) :
    ∃ clients messages b,
      Lib.runFrom (GrpcBalancer.receive config.maxClients) (GrpcBalancer.fresh clients) messages =
        some b ∧ t.nodeStatuses = b.nodeStatuses ∧ t.routees = b.routees := by
  refine Lib.invariant_of_step (I := fun u => ∃ clients messages b,
    Lib.runFrom (GrpcBalancer.receive config.maxClients) (GrpcBalancer.fresh clients) messages =
      some b ∧ u.nodeStatuses = b.nodeStatuses ∧ u.routees = b.routees) ?_
    (BalancerState.start config) t events ⟨_, [], GrpcBalancer.fresh _, rfl, rfl, rfl⟩ hrun
  rintro u e v ⟨clients, messages, b, hb, hstatuses, hroutees⟩ hstep
  by_cases hreceive : e = .receive
  · subst hreceive
    rcases hmailbox : u.mailbox with _ | ⟨message, rest⟩
    · simp [balancerStep, hmailbox] at hstep
    have hspec := balancerStep_receive hmailbox hstatuses hroutees hstep
    cases hb' : b.receive config.maxClients message with
    | some b' =>
        rw [hb'] at hspec
        exact ⟨clients, messages ++ [message], b', Lib.runFrom_concat.mpr ⟨b, hb, hb'⟩, hspec⟩
    | none =>
        -- After a restart the balancer is new.
        rw [hb'] at hspec
        subst hspec
        exact ⟨_, [], GrpcBalancer.fresh _, rfl, rfl, rfl⟩
  · -- No other step touches the variables of the balancer.
    have hframe : v.nodeStatuses = u.nodeStatuses ∧ v.routees = u.routees := by
      cases e with
      | receive => exact absurd rfl hreceive
      | send | tick => cases hstep; exact ⟨rfl, rfl⟩
      | report _ | terminated _ | handleRequest _ _ =>
          simp only [balancerStep] at hstep
          split at hstep
          · first
              | (cases hstep; exact ⟨rfl, rfl⟩)
              | (split at hstep <;> cases hstep; exact ⟨rfl, rfl⟩)
          · cases hstep
      | succeed _ | fail _ =>
          simp only [balancerStep] at hstep
          split at hstep
          · cases hstep
            exact ⟨rfl, rfl⟩
          · cases hstep
    exact ⟨clients, messages, b, hb, hframe.1.trans hstatuses, hframe.2.trans hroutees⟩

end System

end Tronscan
