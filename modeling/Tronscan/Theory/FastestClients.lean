import Tronscan.Theory.BalancerRuns

/-!
# The Fastest Clients

What an optimization should make of the reports: of the clients that are on the
chain, by their latest reports, the fastest are routed to, and the others are
kept as a backup.

Filtering, sorting and splitting all do their part. What the balancer keeps is
not the latest report of each client, though, but of each ip, and two nodes can
share a host. The report of one is then taken for that of the other, and the one
that reported first is in neither list. `routesFastest_iff` says that this is all
that can go wrong, once there is a chain to choose.

## Main definitions

* `FromClients`: The reports come from clients of the seed nodes.
* `onChain`: The clients whose latest report has the hash.
* `RoutesFastest`: What an optimization should lead to.
* `Kept`: The latest report of a client is one the balancer keeps.

## Theorems

* `routesFastest_iff`: When the fastest clients are routed to.
* `kept_of_nodup`: Every report is kept where no two seed nodes share an ip.
* `not_routesFastest_sharedHost`: Two nodes on one host.
-/

namespace Tronscan

open GrpcBalancer

/-- Every report is one of a client, with the ip of its seed node. -/
def FromClients (seedNodes : List NodeAddress) (reports : List GrpcStats) : Prop :=
  ∀ stats ∈ reports, ∃ node, seedNodes[stats.ref]? = some node ∧ stats.ip = node.ip

/-- The clients whose latest report has the hash. -/
def onChain (seedNodes : List NodeAddress) (reports : List GrpcStats) (hash : String) : List Nat :=
  (List.range seedNodes.length).filter fun client =>
    (Lib.latest (·.ref) client reports).any fun stats => decide (stats.OnChain hash)

/-- The active nodes are the fastest clients on the chain, as many as there can
    be, and the other clients on the chain are the backup. -/
structure RoutesFastest (maxClients : Int) (seedNodes : List NodeAddress)
    (reports : List GrpcStats) (hash : String) (b : GrpcBalancer) : Prop where
  routed : b.routees = b.totalStats.activeNodes.map (·.ref)
  distinct : (b.totalStats.activeNodes.map (·.ref)).Nodup
  count : b.totalStats.activeNodes.length =
    min maxClients.toNat (onChain seedNodes reports hash).length
  once : ((b.totalStats.activeNodes ++ b.totalStats.nodes).map (·.ref)).Perm
    (onChain seedNodes reports hash)
  current : ∀ stats ∈ b.totalStats.activeNodes ++ b.totalStats.nodes,
    Lib.latest (·.ref) stats.ref reports = some stats
  fastest : ∀ active ∈ b.totalStats.activeNodes, ∀ node ∈ b.totalStats.nodes,
    active.responseTime ≤ node.responseTime

/-- The latest report of the client is the latest from its ip. -/
def Kept (reports : List GrpcStats) (client : Nat) : Prop :=
  ∀ stats, Lib.latest (·.ref) client reports = some stats →
    Lib.latest (·.ip) stats.ip reports = some stats

section Fastest

variable {seedNodes : List NodeAddress} {reports : List GrpcStats} {hash : String} {client : Nat}

theorem reports_map_stats : Tronscan.reports (reports.map .stats) = reports := by
  induction reports with
  | nil => rfl
  | cons stats reports ih => exact congrArg (stats :: ·) ih

theorem mem_onChain (hfrom : FromClients seedNodes reports) :
    client ∈ onChain seedNodes reports hash ↔
      ∃ stats, Lib.latest (·.ref) client reports = some stats ∧ stats.OnChain hash := by
  unfold onChain
  rw [List.mem_filter, Option.any_eq_true]
  constructor
  · rintro ⟨-, stats, hstats, hchain⟩
    exact ⟨stats, hstats, of_decide_eq_true hchain⟩
  · rintro ⟨stats, hstats, hchain⟩
    refine ⟨?_, stats, hstats, decide_eq_true hchain⟩
    -- Whoever has reported is a client.
    have hmem := Lib.latest_mem hstats
    rcases hfrom stats hmem.1 with ⟨node, hnode, -⟩
    rw [← hmem.2]
    exact List.mem_range.mpr (List.getElem?_eq_some_iff.mp hnode).1

/-- What is kept for an ip is the latest report of the client it came from. -/
theorem latest_ref (hfrom : FromClients seedNodes reports) {stats : GrpcStats}
    (h : Lib.latest (·.ip) stats.ip reports = some stats) :
    Lib.latest (·.ref) stats.ref reports = some stats := by
  have hsame : ∀ x ∈ reports, ∀ y ∈ reports, x.ref = y.ref → x.ip = y.ip := by
    intro x hx y hy hxy
    rcases hfrom x hx with ⟨node, hnode, hip⟩
    rcases hfrom y hy with ⟨node', hnode', hip'⟩
    rw [hxy, hnode'] at hnode
    cases hnode
    rw [hip, hip']
  exact Lib.latest_of_coarser hsame h

variable [Platform]

theorem mem_sortedNodes {nodeStatuses : List (String × GrpcStats)} {stats : GrpcStats} :
    stats ∈ sortedNodes nodeStatuses hash ↔
      (∃ ip, (ip, stats) ∈ nodeStatuses) ∧ stats.OnChain hash := by
  unfold sortedNodes
  rw [List.mem_insertionSort, List.mem_filter, any_hash_iff, List.mem_map]
  refine and_congr_left fun _ => ?_
  constructor
  · rintro ⟨status, hstatus, rfl⟩
    exact ⟨status.1, (Platform.order_perm _).mem_iff.mp hstatus⟩
  · rintro ⟨ip, hstatus⟩
    exact ⟨(ip, stats), (Platform.order_perm _).mem_iff.mpr hstatus, rfl⟩

theorem mem_sortedNodes_statuses {stats : GrpcStats} :
    stats ∈ sortedNodes (statuses reports) hash ↔
      Lib.latest (·.ip) stats.ip reports = some stats ∧ stats.OnChain hash := by
  rw [mem_sortedNodes]
  refine and_congr_left fun _ => ?_
  constructor
  · rintro ⟨ip, hstatus⟩
    have hlatest := mem_statuses.mp hstatus
    rwa [← (Lib.latest_mem hlatest).2] at hlatest
  · exact fun hlatest => ⟨stats.ip, mem_statuses.mpr hlatest⟩

/-- No client is among the sorted nodes twice. -/
theorem nodup_sortedNodes (hfrom : FromClients seedNodes reports) :
    ((sortedNodes (statuses reports) hash).map (·.ref)).Nodup := by
  have hstatuses : ((statuses reports).map (·.1)).Nodup := Lib.nodup_foldl_upsert _
  -- The ips are distinct, and the report determines the ip.
  have hnodup : (((Platform.order (statuses reports)).map (·.2))).Nodup := by
    refine ((Platform.order_perm _).map _).nodup_iff.mpr ?_
    refine List.Nodup.map_on ?_ hstatuses.of_map
    rintro ⟨ip, stats⟩ h ⟨ip', stats'⟩ h' rfl
    rw [← (Lib.latest_mem (mem_statuses.mp h)).2, ← (Lib.latest_mem (mem_statuses.mp h')).2]
  have hsorted : (sortedNodes (statuses reports) hash).Nodup :=
    (List.perm_insertionSort _ _).nodup_iff.mpr (hnodup.filter _)
  -- Two of one client would both be its latest report.
  refine hsorted.map_on fun x hx y hy hxy => ?_
  have hx' := latest_ref hfrom (mem_sortedNodes_statuses.mp hx).1
  have hy' := latest_ref hfrom (mem_sortedNodes_statuses.mp hy).1
  rw [hxy, hy'] at hx'
  exact (Option.some.inj hx').symm

/-- The sorted nodes are clients on the chain, and are all of them exactly when
    the reports of those are kept. -/
theorem sortedNodes_perm_iff (hfrom : FromClients seedNodes reports) :
    ((sortedNodes (statuses reports) hash).map (·.ref)).Perm (onChain seedNodes reports hash) ↔
      ∀ client ∈ onChain seedNodes reports hash, Kept reports client := by
  have hnodup : (onChain seedNodes reports hash).Nodup := List.nodup_range.filter _
  -- Neither list has a client twice, so only membership is left.
  rw [List.perm_ext_iff_of_nodup (nodup_sortedNodes hfrom) hnodup]
  simp only [List.mem_map, mem_sortedNodes_statuses]
  constructor
  · intro h client hclient stats hstats
    rcases (h client).mpr hclient with ⟨stats', ⟨hkept, -⟩, rfl⟩
    rw [latest_ref hfrom hkept] at hstats
    cases hstats
    exact hkept
  · refine fun h client => ⟨?_, fun hclient => ?_⟩
    · rintro ⟨stats, ⟨hkept, hchain⟩, rfl⟩
      exact (mem_onChain hfrom).mpr ⟨stats, latest_ref hfrom hkept, hchain⟩
    · rcases (mem_onChain hfrom).mp hclient with ⟨stats, hstats, hchain⟩
      exact ⟨stats, ⟨h client hclient stats hstats, hchain⟩, (Lib.latest_mem hstats).2⟩

variable {maxClients : Int}

/-- The reports come in, and the balancer optimizes. -/
theorem run_optimizeNodes {clients : List Nat} {b : GrpcBalancer} :
    Lib.runFrom (receive maxClients) (fresh clients)
      (reports.map .stats ++ [.optimizeNodes]) = some b ↔
    GrpcBalancer.optimizeNodes maxClients { fresh clients with nodeStatuses := statuses reports } =
      some b := by
  have hrun : Lib.runFrom (receive maxClients) (fresh clients) (reports.map .stats) =
      some { fresh clients with nodeStatuses := statuses reports } := by
    induction reports using List.reverseRecOn with
    | nil => rfl
    | append_singleton reports stats ih =>
        rw [List.map_append, List.map_singleton, Lib.runFrom_concat]
        refine ⟨_, ih, ?_⟩
        unfold statuses receive
        rw [List.map_append, List.foldl_append]
        rfl
  rw [Lib.runFrom_concat, hrun]
  simp only [Option.some.injEq, exists_eq_left']
  rfl

/-- An optimization routes to the fastest clients when the sorted nodes are the
    clients on the chain. -/
theorem routesFastest_iff_perm (hfrom : FromClients seedNodes reports) {b : GrpcBalancer}
    (hrouted : b.routees = b.totalStats.activeNodes.map (·.ref))
    (hactive : b.totalStats.activeNodes =
      (sortedNodes (statuses reports) hash).take maxClients.toNat)
    (hnodes : b.totalStats.nodes = (sortedNodes (statuses reports) hash).drop maxClients.toNat) :
    RoutesFastest maxClients seedNodes reports hash b ↔
      ((sortedNodes (statuses reports) hash).map (·.ref)).Perm
        (onChain seedNodes reports hash) := by
  have hall : b.totalStats.activeNodes ++ b.totalStats.nodes =
      sortedNodes (statuses reports) hash := by
    rw [hactive, hnodes, List.take_append_drop]
  constructor
  · intro h
    rw [← hall]
    exact h.once
  · intro hperm
    refine ⟨hrouted, ?_, ?_, hall ▸ hperm, fun stats hstats => ?_, ?_⟩
    · rw [hactive, List.map_take]
      exact (nodup_sortedNodes hfrom).sublist (List.take_sublist _ _)
    · rw [hactive, List.length_take, ← hperm.length_eq, List.length_map]
    · rw [hall] at hstats
      exact latest_ref hfrom (mem_sortedNodes_statuses.mp hstats).1
    · rw [hactive, hnodes]
      exact fun active ha node hn => Lib.take_le_drop ha hn

/-- So it does when it has kept their reports. -/
theorem optimizeNodes_routesFastest (hfrom : FromClients seedNodes reports) {b : GrpcBalancer}
    (h : GrpcBalancer.optimizeNodes maxClients
      { fresh (List.range seedNodes.length) with nodeStatuses := statuses reports } = some b) :
    ∃ hash, mostCommonBlockHash (statuses reports) = some hash ∧
      (RoutesFastest maxClients seedNodes reports hash b ↔
        ∀ client ∈ onChain seedNodes reports hash, Kept reports client) := by
  rcases optimizeNodes_some h with ⟨hash, hhash, -, hrouted, hactive, hnodes⟩
  exact ⟨hash, hhash, (routesFastest_iff_perm hfrom hrouted hactive hnodes).trans
    (sortedNodes_perm_iff hfrom)⟩

end Fastest

/-- Whatever the order of traversal, the fastest clients are routed to, exactly
    when some node is known to have a block and the balancer has kept the reports
    of all clients on a chain it may choose. -/
theorem routesFastest_iff {seedNodes : List NodeAddress} {reports : List GrpcStats}
    (hfrom : FromClients seedNodes reports) (maxClients : Int) :
    (∀ P : Platform, ∃ hash b, @mostCommonBlockHash P (statuses reports) = some hash ∧
      Lib.runFrom (@receive P maxClients) (fresh (List.range seedNodes.length))
        (reports.map .stats ++ [.optimizeNodes]) = some b ∧
      RoutesFastest maxClients seedNodes reports hash b) ↔
    BlockKnown (reports.map .stats) ∧ ∀ hash, IsMostCommon (statuses reports) hash →
      ∀ client ∈ onChain seedNodes reports hash, Kept reports client := by
  constructor
  · intro h
    refine ⟨?_, fun hash hcommon => ?_⟩
    · rcases h examplePlatform with ⟨hash, b, hhash, -, -⟩
      have hknown := (@mostCommonBlockHash_spec _ _ examplePlatform hhash).1
      rcases List.mem_flatMap.mp hknown with ⟨status, hstatus, hblock⟩
      refine blockKnown_iff.mp ⟨status, by rwa [reports_map_stats], ?_⟩
      exact fun hempty => by simp [hempty] at hblock
    · -- In some order of traversal it is this hash that is chosen.
      rcases h (Platform.startingAt [hash]) with ⟨hash', b, hhash', hrun, hfastest⟩
      have hopt := (@run_optimizeNodes _ (Platform.startingAt [hash]) _ _ _).mp hrun
      rcases @optimizeNodes_routesFastest _ _ (Platform.startingAt [hash]) _ hfrom b hopt with
        ⟨_, hhash, hiff⟩
      rw [exists_mostCommonBlockHash hcommon []] at hhash hhash'
      cases hhash
      cases hhash'
      exact hiff.mp hfastest
  · rintro ⟨hknown, hkept⟩ P
    cases hb : @GrpcBalancer.optimizeNodes P maxClients
        { fresh (List.range seedNodes.length) with nodeStatuses := statuses reports } with
    | none =>
        rcases blockKnown_iff.mpr hknown with ⟨status, hstatus, hblocks⟩
        rw [reports_map_stats] at hstatus
        exact absurd ((@optimizeNodes_none P _ _).mp hb status hstatus) hblocks
    | some b =>
        rcases @optimizeNodes_routesFastest _ _ P _ hfrom b hb with ⟨hash, hhash, hiff⟩
        exact ⟨hash, b, hhash, (@run_optimizeNodes _ P _ _ _).mpr hb,
          hiff.mpr (hkept hash (@mostCommonBlockHash_spec _ _ P hhash))⟩

/-- Where no two seed nodes share an ip, the latest report of every client is kept. -/
theorem kept_of_nodup {seedNodes : List NodeAddress} {reports : List GrpcStats}
    (hfrom : FromClients seedNodes reports) (hips : (seedNodes.map (·.ip)).Nodup) (client : Nat) :
    Kept reports client := by
  intro stats hstats
  have hclient := (Lib.latest_mem hstats).2
  -- One ip is the ip of one seed node.
  have hsame : ∀ x ∈ reports, ∀ y ∈ reports, x.ip = y.ip → x.ref = y.ref := by
    intro x hx y hy hxy
    rcases hfrom x hx with ⟨node, hnode, hip⟩
    rcases hfrom y hy with ⟨node', hnode', hip'⟩
    have hget : (seedNodes.map (·.ip))[x.ref]? = (seedNodes.map (·.ip))[y.ref]? := by
      simp only [List.getElem?_map, hnode, hnode', Option.map_some, ← hip, ← hip', hxy]
    have hlt : x.ref < (seedNodes.map (·.ip)).length := by
      rw [List.length_map]
      exact (List.getElem?_eq_some_iff.mp hnode).1
    exact (List.getElem?_inj hlt hips).mp hget
  exact Lib.latest_of_coarser hsame (hclient ▸ hstats)

/-- Of two nodes on different hosts both are routed to. -/
theorem routesFastest_iff_hosts : ∃ hash b,
    @mostCommonBlockHash examplePlatform (statuses [⟨0, "127.0.0.1", 5, [⟨1, "a"⟩]⟩,
      ⟨1, "127.0.0.2", 3, [⟨1, "a"⟩]⟩]) = some hash ∧
    Lib.runFrom (@receive examplePlatform 12) (fresh (List.range 2))
      ([⟨0, "127.0.0.1", 5, [⟨1, "a"⟩]⟩, ⟨1, "127.0.0.2", 3, [⟨1, "a"⟩]⟩].map .stats ++
        [.optimizeNodes]) = some b ∧
    RoutesFastest 12 [⟨"127.0.0.1", 50051⟩, ⟨"127.0.0.2", 50051⟩]
      [⟨0, "127.0.0.1", 5, [⟨1, "a"⟩]⟩, ⟨1, "127.0.0.2", 3, [⟨1, "a"⟩]⟩] hash b := by
  have hfrom : FromClients [⟨"127.0.0.1", 50051⟩, ⟨"127.0.0.2", 50051⟩]
      [⟨0, "127.0.0.1", 5, [⟨1, "a"⟩]⟩, ⟨1, "127.0.0.2", 3, [⟨1, "a"⟩]⟩] := by
    simp [FromClients]
  refine (routesFastest_iff hfrom 12).mpr ⟨?_, fun hash _ client _ => ?_⟩ examplePlatform
  · exact ⟨⟨0, "127.0.0.1", 5, [⟨1, "a"⟩]⟩, by rfl, by simp⟩
  · exact kept_of_nodup hfrom (by simp) client

/-- Both nodes run on one host, and report the same block. Only the one that
    reported last is routed to. -/
theorem not_routesFastest_sharedHost : ¬ ∀ P : Platform, ∃ hash b,
    @mostCommonBlockHash P (statuses [⟨0, "127.0.0.1", 5, [⟨1, "a"⟩]⟩,
      ⟨1, "127.0.0.1", 7, [⟨1, "a"⟩]⟩]) = some hash ∧
    Lib.runFrom (@receive P 12) (fresh (List.range 2))
      ([⟨0, "127.0.0.1", 5, [⟨1, "a"⟩]⟩, ⟨1, "127.0.0.1", 7, [⟨1, "a"⟩]⟩].map .stats ++
        [.optimizeNodes]) = some b ∧
    RoutesFastest 12 [⟨"127.0.0.1", 50051⟩, ⟨"127.0.0.1", 50052⟩]
      [⟨0, "127.0.0.1", 5, [⟨1, "a"⟩]⟩, ⟨1, "127.0.0.1", 7, [⟨1, "a"⟩]⟩] hash b := by
  intro h
  rcases h examplePlatform with ⟨hash, b, hhash, hrun, hfastest⟩
  have hsome : @mostCommonBlockHash examplePlatform (statuses [⟨0, "127.0.0.1", 5, [⟨1, "a"⟩]⟩,
      ⟨1, "127.0.0.1", 7, [⟨1, "a"⟩]⟩]) = some "a" := by decide
  rw [hsome] at hhash
  cases hhash
  cases hrun
  exact absurd hfastest.count (by decide)

end Tronscan
