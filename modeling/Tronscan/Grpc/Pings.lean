import Tronscan.Grpc.Receive
import Mathlib.Data.List.DropRight
import Mathlib.Data.List.FinRange

/-!
# Pings

What the clients report to the balancer, from what their nodes answer.

A client pings its node again and again. A node that answers gives the head of
its chain, and the client adds it to a list of its recent heads, which it
reports. The list is cut when it has grown too long. A node that does not answer
is reported with no blocks at all, while the client's own list stays as it is.

Pings are taken in the order in which they come to an end.

## Main definitions

* `GrpcClient.ping`: The list of a client, and its report.
* `Ping`, `sent`: The reports of all clients after some pings.
* `recent`: The recent blocks of a node, as last reported.

## Theorems

* `latestBlocks_eq`: The list of a client is made of its last heads.
* `latest_sent`: The latest of the reports, in terms of the pings.
-/

namespace Tronscan

/-- How many blocks a client keeps before it adds one. -/
def GrpcBalancerOptions.blockListSize : Nat := 12

/-- `latestBlocks` and what is sent to the balancer, after an answer and the time
    it took, or a failure. -/
def GrpcClient.ping (self : Nat) (nodeAddress : NodeAddress) (latestBlocks : List GrpcBlock) :
    Option (GrpcBlock × Int) → List GrpcBlock × GrpcStats
  | some (currentBlock, responseTime) =>
      let latestBlocks := (if latestBlocks.length > GrpcBalancerOptions.blockListSize then
        latestBlocks.drop 1 else latestBlocks) ++ [currentBlock]
      (latestBlocks, ⟨self, nodeAddress.ip, responseTime, latestBlocks⟩)
  | none => (latestBlocks, ⟨self, nodeAddress.ip, 9999, []⟩)

/-- A ping by one of the clients, and its answer. -/
structure Ping (seedNodes : List NodeAddress) where
  client : Fin seedNodes.length
  answer : Option (GrpcBlock × Int)

section Pings

variable {seedNodes : List NodeAddress}

namespace Ping

/-- The host that is pinged. -/
def ip (p : Ping seedNodes) : String := (seedNodes.get p.client).ip

/-- The lists of all clients, and the reports sent, after one more ping. -/
def run (s : (Fin seedNodes.length → List GrpcBlock) × List GrpcStats) (p : Ping seedNodes) :
    (Fin seedNodes.length → List GrpcBlock) × List GrpcStats :=
  let (latestBlocks, stats) :=
    GrpcClient.ping p.client (seedNodes.get p.client) (s.1 p.client) p.answer
  (Function.update s.1 p.client latestBlocks, s.2 ++ [stats])

end Ping

variable (pings : List (Ping seedNodes))

/-- `latestBlocks` of each client after the pings. -/
def latestBlocks : Fin seedNodes.length → List GrpcBlock :=
  (pings.foldl Ping.run (fun _ => [], [])).1

/-- The reports after the pings. -/
def sent : List GrpcStats := (pings.foldl Ping.run (fun _ => [], [])).2

/-- The heads a client has been given. -/
def heads (client : Fin seedNodes.length) : List GrpcBlock :=
  (pings.filter fun p => decide (p.client = client)).filterMap fun p => p.answer.map (·.1)

/-- The recent blocks of a node, as far as they have been reported. There are none
    before its first ping, and after one that fails. -/
def recent (client : Fin seedNodes.length) : List GrpcBlock :=
  match Lib.latest (·.client) client pings with
  | some ⟨_, some _⟩ => (heads pings client).rtake (GrpcBalancerOptions.blockListSize + 1)
  | _ => []

variable {pings} {p : Ping seedNodes} {client : Fin seedNodes.length}

theorem heads_concat : heads (pings ++ [p]) client =
    if p.client = client then heads pings client ++ (p.answer.map (·.1)).toList
    else heads pings client := by
  unfold heads
  rw [List.filter_append, List.filterMap_append]
  by_cases h : p.client = client
  · rw [if_pos h]
    cases hanswer : p.answer with
    | none => simp [h, hanswer]
    | some answer => simp [h, hanswer]
  · simp [h]

theorem recent_concat : recent (pings ++ [p]) client =
    if p.client = client then
      match p.answer with
      | some _ => (heads (pings ++ [p]) client).rtake (GrpcBalancerOptions.blockListSize + 1)
      | none => []
    else recent pings client := by
  unfold recent
  rw [Lib.latest_concat, heads_concat]
  by_cases h : p.client = client
  · rw [if_pos h, if_pos h, if_pos h]
    rcases p with ⟨_, answer⟩
    cases answer with
    | none => rfl
    | some answer => rfl
  · rw [if_neg h, if_neg h, if_neg h]

/-- Cutting the front before a head is added keeps the last heads. -/
theorem rtake_concat (blocks : List GrpcBlock) (n : Nat) (block : GrpcBlock) :
    (blocks ++ [block]).rtake (n + 1) =
      (if (blocks.rtake (n + 1)).length > n then (blocks.rtake (n + 1)).drop 1
        else blocks.rtake (n + 1)) ++ [block] := by
  rw [List.rtake_concat_succ]
  congr 1
  unfold List.rtake
  rw [List.length_drop, List.drop_drop]
  by_cases h : n < blocks.length
  · rw [if_pos (by omega)]
    congr 1
    omega
  · rw [if_neg (by omega)]
    congr 1
    omega

/-- The list of a client is made of its last heads. -/
theorem latestBlocks_eq : latestBlocks pings client =
    (heads pings client).rtake (GrpcBalancerOptions.blockListSize + 1) := by
  induction pings using List.reverseRecOn with
  | nil => rfl
  | append_singleton pings p ih =>
      have hstep : latestBlocks (pings ++ [p]) = Function.update (latestBlocks pings) p.client
          (GrpcClient.ping p.client (seedNodes.get p.client) (latestBlocks pings p.client)
            p.answer).1 := by
        unfold latestBlocks
        rw [List.foldl_concat]
        rfl
      rw [hstep, heads_concat]
      by_cases h : p.client = client
      · subst h
        rw [Function.update_self, if_pos rfl]
        cases p.answer with
        | none => rw [Option.map_none, Option.toList_none, List.append_nil, ← ih]; rfl
        | some answer =>
            rw [Option.map_some, Option.toList_some, rtake_concat, ← ih]
            rfl
      · rw [Function.update_of_ne (Ne.symm h), if_neg h, ih]

/-- What a ping adds to the reports. -/
theorem sent_concat (pings : List (Ping seedNodes)) (p : Ping seedNodes) :
    ∃ responseTime, sent (pings ++ [p]) = sent pings ++
      [⟨p.client, p.ip, responseTime, recent (pings ++ [p]) p.client⟩] := by
  have hstep : sent (pings ++ [p]) = sent pings ++ [(GrpcClient.ping p.client
      (seedNodes.get p.client) (latestBlocks pings p.client) p.answer).2] := by
    unfold sent
    rw [List.foldl_concat]
    rfl
  rw [hstep, recent_concat, if_pos rfl, heads_concat, if_pos rfl, latestBlocks_eq]
  cases p.answer with
  | none => exact ⟨9999, rfl⟩
  | some answer =>
      refine ⟨answer.2, ?_⟩
      rw [Option.map_some, Option.toList_some, rtake_concat]
      rfl

/-- The latest report with a key has the recent blocks of the client that was the
    last to be pinged with the key. -/
theorem latest_sent {κ : Type} [DecidableEq κ] {key : GrpcStats → κ} {keyOf : Ping seedNodes → κ}
    (hclient : ∀ p q : Ping seedNodes, p.client = q.client → keyOf p = keyOf q)
    (hkey : ∀ (p : Ping seedNodes) responseTime blocks,
      key ⟨p.client, p.ip, responseTime, blocks⟩ = keyOf p) (k : κ) :
    (Lib.latest key k (sent pings)).map (fun stats => (stats.ref, stats.blocks)) =
      (Lib.latest keyOf k pings).map fun p => (p.client.val, recent pings p.client) := by
  induction pings using List.reverseRecOn with
  | nil => rfl
  | append_singleton pings p ih =>
      rcases sent_concat pings p with ⟨responseTime, hsent⟩
      rw [hsent, Lib.latest_concat, Lib.latest_concat, hkey]
      by_cases h : keyOf p = k
      · rw [if_pos h, if_pos h]
        rfl
      · -- The ping is by a client with another key.
        rw [if_neg h, if_neg h, ih]
        refine Option.map_congr fun q hq => ?_
        rw [recent_concat, if_neg fun hpq => h ((hclient p q hpq).trans (Lib.latest_mem hq).2)]

end Pings

end Tronscan
