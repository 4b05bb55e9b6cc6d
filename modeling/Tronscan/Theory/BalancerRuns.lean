import Tronscan.Grpc.Receive
import Tronscan.Lib.Ranking

/-!
# Optimizing Too Early, and Routing Too Late

Two things that the balancer's messages should never lead to, whatever their
order: an exception from `optimizeNodes`, and a client that has terminated among
the routees.

Taking the most common hash throws when there is none, that is, when the latest
report of every node is empty. So it is before the first ping has been answered,
and again whenever all nodes are down, since a failed ping reports no blocks.
`receive_total_iff` is that condition, on the messages.

`Terminated` takes a client out of the router, and leaves its last report where
it is. The next optimization builds the router from the reports, and routes to
the client again, if it was fast.

## Main definitions

* `BlockKnown`: The latest report of some node has a block.
* `Selectable`: A client that `optimizeNodes` may route to.
* `Supervised`: The balancer, restarted whenever it throws.

## Theorems

* `receive_total_iff`: When a sequence of messages is handled without a throw.
* `not_receiveTotal_down`: A balancer whose only node is down.
* `mem_routees`: Who is routed to after an optimization.
* `terminated_not_routed`: When a terminated client stays out of the router.
* `exists_routed`: Nothing weaker will do.
* `not_terminatedStayOut_reported`: A client that reported before it terminated.
-/

namespace Tronscan

open GrpcBalancer

/-! ## Optimizing without a block -/

/-- The latest report of some node has a block. -/
def BlockKnown (messages : List BalancerMessage) : Prop :=
  ∃ stats, Lib.latest (·.ip) stats.ip (reports messages) = some stats ∧ stats.blocks ≠ []

section Total

variable {messages : List BalancerMessage}

/-- The reports that are kept have a block exactly when one is known. -/
theorem blockKnown_iff :
    (∃ status ∈ statuses (reports messages), status.2.blocks ≠ []) ↔ BlockKnown messages := by
  constructor
  · rintro ⟨⟨ip, stats⟩, hmem, hblocks⟩
    have hlatest := mem_statuses.mp hmem
    rw [← (Lib.latest_mem hlatest).2] at hlatest
    exact ⟨stats, hlatest, hblocks⟩
  · rintro ⟨stats, hlatest, hblocks⟩
    exact ⟨(stats.ip, stats), mem_statuses.mpr hlatest, hblocks⟩

variable [Platform] {maxClients : Int} {clients : List Nat}

/-- Only `OptimizeNodes` can throw, and does unless a block is known. -/
theorem receive_ok_iff {b : GrpcBalancer} {message : BalancerMessage}
    (hrun : Lib.runFrom (receive maxClients) (fresh clients) messages = some b) :
    (∃ t, b.receive maxClients message = some t) ↔
      (message = .optimizeNodes → BlockKnown messages) := by
  cases message with
  | request _ | retry _ | stats _ | terminated _ =>
      exact iff_of_true ⟨_, rfl⟩ fun h => by cases h
  | optimizeNodes =>
      have hnone := @optimizeNodes_none _ maxClients b
      rw [receive_nodeStatuses hrun] at hnone
      rw [← Option.isSome_iff_exists, ← blockKnown_iff]
      unfold receive
      rw [Option.isSome_iff_ne_none, ne_eq, hnone]
      simp

/-- A new balancer handles its messages without throwing exactly when a block is
    known to it each time it optimizes. -/
theorem receive_total_iff (maxClients : Int) (clients : List Nat)
    (messages : List BalancerMessage) :
    (∃ t, Lib.runFrom (receive maxClients) (fresh clients) messages = some t) ↔
      ∀ handled, handled ++ [.optimizeNodes] <+: messages → BlockKnown handled := by
  induction messages using List.reverseRecOn with
  | nil => exact iff_of_true ⟨_, rfl⟩ fun handled h => by simp at h
  | append_singleton messages message ih =>
      simp only [Lib.runFrom_concat, List.prefix_concat_iff]
      constructor
      · rintro ⟨t, u, hu, ht⟩ handled (heq | hprefix)
        · rcases List.append_inj' heq rfl with ⟨rfl, hmessage⟩
          exact (receive_ok_iff hu).mp ⟨t, ht⟩ (List.singleton_inj.mp hmessage).symm
        · exact ih.mp ⟨u, hu⟩ handled hprefix
      · intro h
        rcases ih.mpr fun handled hprefix => h handled (.inr hprefix) with ⟨u, hu⟩
        have hok : ∃ t, u.receive maxClients message = some t :=
          (receive_ok_iff hu).mpr fun hmessage => h messages (.inl (by rw [hmessage]))
        rcases hok with ⟨t, ht⟩
        exact ⟨t, u, hu, ht⟩

end Total

/-- The one node does not answer the first ping, and the timer goes off. -/
theorem not_receiveTotal_down :
    ¬ ∃ t, Lib.runFrom (@receive examplePlatform 12) (fresh [0])
      [.stats ⟨0, "127.0.0.1", 9999, []⟩, .optimizeNodes] = some t := by
  rintro ⟨t, ht⟩
  have hnone : Lib.runFrom (@receive examplePlatform 12) (fresh [0])
      [.stats ⟨0, "127.0.0.1", 9999, []⟩, .optimizeNodes] = none := by rfl
  rw [hnone] at ht
  cases ht

/-! ## Routing to terminated clients -/

/-- The last report of the client is kept, it is on a chain with the most entries,
    and few others on that chain are faster. -/
def Selectable (maxClients : Int) (nodeStatuses : List (String × GrpcStats)) (a : Nat) : Prop :=
  ∃ status ∈ nodeStatuses, status.2.ref = a ∧ ∃ hash, IsMostCommon nodeStatuses hash ∧
    status.2.OnChain hash ∧
    nodeStatuses.countP (fun other => decide (other.2.OnChain hash ∧
      other.2.responseTime < status.2.responseTime)) < maxClients.toNat

/-- The balancer and how many clients have been created, for it and for those
    before it. -/
structure Supervised where
  balancer : GrpcBalancer
  created : Nat

namespace Supervised

variable [Platform] (maxClients : Int) (seedNodes : Nat)

/-- Handling a message. When that throws there is a new balancer, with new clients. -/
def supervise (s : Supervised) (message : BalancerMessage) : Supervised :=
  match s.balancer.receive maxClients message with
  | some b => { s with balancer := b }
  | none => {
      balancer := fresh ((List.range seedNodes).map (s.created + ·))
      created := s.created + seedNodes }

/-- What has become of the balancer after some messages. -/
def run (messages : List BalancerMessage) : Supervised :=
  messages.foldl (supervise maxClients seedNodes) ⟨fresh (List.range seedNodes), seedNodes⟩

theorem run_concat (messages : List BalancerMessage) (message : BalancerMessage) :
    run maxClients seedNodes (messages ++ [message]) =
      (run maxClients seedNodes messages).supervise maxClients seedNodes message :=
  List.foldl_concat ..

end Supervised

section Terminated

theorem any_hash_iff {stats : GrpcStats} {hash : String} :
    stats.blocks.any (·.hash == hash) = true ↔ stats.OnChain hash := by
  unfold GrpcStats.OnChain
  simp only [List.any_eq_true, beq_iff_eq]

variable [Platform] {maxClients : Int} {a : Nat}

/-- Clients are created, and never taken back. -/
theorem created_le_supervise (s : Supervised) {seedNodes : Nat} (message : BalancerMessage) :
    s.created ≤ (s.supervise maxClients seedNodes message).created := by
  unfold Supervised.supervise
  split
  · exact le_refl _
  · exact Nat.le_add_right _ _

theorem created_le_run (seedNodes : Nat) (messages : List BalancerMessage) :
    seedNodes ≤ (Supervised.run maxClients seedNodes messages).created := by
  induction messages using List.reverseRecOn with
  | nil => exact le_refl _
  | append_singleton messages message ih =>
      rw [Supervised.run_concat]
      exact ih.trans (created_le_supervise _ _)

/-- How many of the nodes on a chain are faster does not depend on the order in
    which they are traversed. -/
theorem countP_faster (nodeStatuses : List (String × GrpcStats)) (hash : String) (time : Int) :
    (((Platform.order nodeStatuses).map (·.2)).filter fun stats =>
      stats.blocks.any (·.hash == hash)).countP (fun stats => decide (stats.responseTime < time)) =
    nodeStatuses.countP (fun other => decide (other.2.OnChain hash ∧
      other.2.responseTime < time)) := by
  rw [List.countP_filter, List.countP_map, (Platform.order_perm nodeStatuses).countP_eq]
  refine List.countP_congr fun other _ => ?_
  simp only [Function.comp, Bool.and_eq_true, decide_eq_true_eq, any_hash_iff]
  exact and_comm

/-- Whoever is routed to after an optimization could be selected. -/
theorem mem_routees {b t : GrpcBalancer} (h : b.optimizeNodes maxClients = some t)
    (ha : a ∈ t.routees) : Selectable maxClients b.nodeStatuses a := by
  rcases optimizeNodes_some h with ⟨hash, hhash, -, hroutees, hactive, -⟩
  rw [hroutees, hactive] at ha
  rcases List.mem_map.mp ha with ⟨stats, hstats, rfl⟩
  -- Being among the first after sorting, it has few that are faster.
  have hfaster := Lib.countP_lt_of_mem_take hstats
  rw [countP_faster] at hfaster
  have hmem := List.mem_filter.mp ((List.mem_insertionSort _).mp (List.mem_of_mem_take hstats))
  rcases List.mem_map.mp hmem.1 with ⟨status, hstatus, rfl⟩
  exact ⟨status, (Platform.order_perm _).mem_iff.mp hstatus, rfl, hash,
    mostCommonBlockHash_spec hhash, any_hash_iff.mp hmem.2, hfaster⟩

theorem routees_supervise {s : Supervised} {seedNodes : Nat} {message : BalancerMessage}
    (hold : a ∉ s.balancer.routees) (hcreated : a < s.created)
    (hsafe : message = .optimizeNodes → ¬ Selectable maxClients s.balancer.nodeStatuses a) :
    a ∉ (s.supervise maxClients seedNodes message).balancer.routees := by
  unfold Supervised.supervise
  cases ht : s.balancer.receive maxClients message with
  | none =>
      -- The clients made by a restart are new ones.
      intro hmem
      rcases List.mem_map.mp hmem with ⟨i, -, hi⟩
      omega
  | some t =>
      cases message with
      | request _ | retry _ | stats _ => cases ht; exact hold
      | terminated other => cases ht; exact fun hmem => hold (List.mem_of_mem_filter hmem)
      | optimizeNodes =>
          -- The router is new, and made from the reports.
          exact fun hmem => hsafe rfl (mem_routees ht hmem)

/-- A balancer that never optimizes while a client that has terminated could be
    selected never routes to it, restarted or not. -/
theorem terminated_not_routed {seedNodes : Nat} {messages : List BalancerMessage}
    (hcreated : ∀ handled, handled ++ [.terminated a] <+: messages →
      a < (Supervised.run maxClients seedNodes handled).created)
    (hsafe : ∀ handled, handled ++ [.optimizeNodes] <+: messages → .terminated a ∈ handled →
      ¬ Selectable maxClients (Supervised.run maxClients seedNodes handled).balancer.nodeStatuses
        a) :
    ∀ handled, handled <+: messages → .terminated a ∈ handled →
      a ∉ (Supervised.run maxClients seedNodes handled).balancer.routees := by
  -- That the client is no longer a new one is what a restart needs.
  suffices h : ∀ handled, handled <+: messages → .terminated a ∈ handled →
      a < (Supervised.run maxClients seedNodes handled).created ∧
      a ∉ (Supervised.run maxClients seedNodes handled).balancer.routees from
    fun handled hprefix hmem => (h handled hprefix hmem).2
  intro handled
  induction handled using List.reverseRecOn with
  | nil => exact fun _ ha => absurd ha List.not_mem_nil
  | append_singleton handled message ih =>
      intro hprefix ha
      have hstep := Supervised.run_concat maxClients seedNodes handled message
      rw [hstep]
      rcases List.mem_append.mp ha with hearlier | hlast
      · have hbefore := ih ((List.prefix_append _ _).trans hprefix) hearlier
        refine ⟨hbefore.1.trans_le (created_le_supervise _ _), ?_⟩
        refine routees_supervise hbefore.2 hbefore.1 ?_
        rintro rfl
        exact hsafe handled hprefix hearlier
      · -- The message takes the client out of the router.
        cases List.mem_singleton.mp hlast
        refine ⟨(hcreated handled hprefix).trans_le (created_le_supervise _ _), ?_⟩
        exact fun hmem => of_decide_eq_true (List.mem_filter.mp hmem).2 rfl

end Terminated

/-- The condition cannot be weakened, as far as traversal goes: in some order,
    a client that could be selected is, unless an ip is a block hash as well. -/
theorem exists_routed {maxClients : Int} {b : GrpcBalancer} {a : Nat}
    (hkeys : (b.nodeStatuses.map (·.1)).Nodup)
    (hips : ∀ status ∈ b.nodeStatuses, status.1 ∉ blockHashes b.nodeStatuses)
    (h : Selectable maxClients b.nodeStatuses a) :
    ∃ P : Platform, ∃ t, @GrpcBalancer.optimizeNodes P maxClients b = some t ∧ a ∈ t.routees := by
  rcases h with ⟨⟨ip, stats⟩, hstatus, rfl, hash, hcommon, hchain, hfaster⟩
  let P := Platform.startingAt [hash, ip]
  have hip : ip ≠ hash := fun h => hips _ hstatus (h ▸ hcommon.1)
  -- The report of the client is traversed first.
  rcases @startingAt_order _ [hash, ip] _ _ hstatus with ⟨first, rest, horder, hfirst⟩
  have hmem : first ∈ b.nodeStatuses :=
    (P.order_perm _).mem_iff.mp (horder ▸ List.mem_cons_self)
  have hkey : first.1 = ip := by
    have hle := hfirst _ hstatus
    have hhash : first.1 ≠ hash := fun h => hips _ hmem (h ▸ hcommon.1)
    by_contra hne
    simp [List.idxOf_cons, beq_false_of_ne hip.symm, beq_false_of_ne hhash.symm,
      beq_false_of_ne (Ne.symm hne)] at hle
  have hsame : first = (ip, stats) := List.inj_on_of_nodup_map hkeys hmem hstatus hkey
  subst hsame
  -- Insertion sort is stable, so ties are decided in its favour.
  have hsort : @sortedNodes P b.nodeStatuses hash = (stats :: (rest.map (·.2)).filter fun other =>
      other.blocks.any (·.hash == hash)).insertionSort (·.responseTime ≤ ·.responseTime) := by
    unfold sortedNodes
    rw [show @Platform.order P _ b.nodeStatuses = _ from horder, List.map_cons, List.filter_cons,
      if_pos (any_hash_iff.mpr hchain)]
  have hrest : ((rest.map (·.2)).filter fun other => other.blocks.any (·.hash == hash)).countP
      (fun other => decide (other.responseTime < stats.responseTime)) < maxClients.toNat := by
    refine lt_of_le_of_lt ?_ hfaster
    rw [← @countP_faster P, show @Platform.order P _ b.nodeStatuses = _ from horder, List.map_cons,
      List.filter_cons, if_pos (any_hash_iff.mpr hchain)]
    exact (List.sublist_cons_self _ _).countP_le
  have hhash := exists_mostCommonBlockHash hcommon [ip]
  rcases @optimizeNodes_of_hash P maxClients b hash hhash with ⟨t, ht, hroutees⟩
  refine ⟨P, t, ht, ?_⟩
  rw [hroutees, hsort]
  exact List.mem_map.mpr ⟨stats, Lib.mem_take_of_countP_lt hrest, rfl⟩

/-- The router is optimized, one of its clients terminates, and another on the same host
    reports before it is optimized again. -/
def overwrittenMessages : List BalancerMessage :=
  [.stats ⟨0, "127.0.0.1", 5, [⟨1, "a"⟩]⟩, .optimizeNodes, .terminated 0,
    .stats ⟨1, "127.0.0.1", 5, [⟨1, "a"⟩]⟩, .optimizeNodes]

/-- The other client is routed to, and this one is not. -/
theorem terminated_not_routed_late :
    (@Supervised.run examplePlatform 12 2 overwrittenMessages).balancer.routees = [1] ∧
      0 ∉ (@Supervised.run examplePlatform 12 2 overwrittenMessages).balancer.routees := by
  refine ⟨by decide, @terminated_not_routed examplePlatform 12 0 2 _ ?_ ?_ _ List.prefix_rfl
    (by simp [overwrittenMessages])⟩
  · exact fun handled _ => lt_of_lt_of_le (by decide) (@created_le_run examplePlatform 12 2 handled)
  · rintro handled ⟨rest, hall⟩ hmem
    rw [overwrittenMessages] at hall
    rcases handled with _ | ⟨_, _ | ⟨_, _ | ⟨_, _ | ⟨_, handled⟩⟩⟩⟩
    · cases hmem
    · -- The first optimization is before the termination.
      cases hall
      simp at hmem
    · cases hall
    · cases hall
    · -- At the second, the report of the client has been overwritten.
      have hnil : handled = [] := by
        have hlength := congrArg List.length hall
        simp only [List.length_append, List.length_cons, List.length_nil] at hlength
        exact List.eq_nil_of_length_eq_zero (by omega)
      subst hnil
      cases hall
      rintro ⟨status, hstatus, href, _⟩
      have hgone : ∀ status ∈ (@Supervised.run examplePlatform 12 2
          (overwrittenMessages.take 4)).balancer.nodeStatuses, status.2.ref ≠ 0 := by decide
      exact hgone status hstatus href

/-- A client reports, terminates, and is routed to again. -/
theorem not_terminatedStayOut_reported : ¬ ∀ handled, handled <+:
      [.stats ⟨0, "127.0.0.1", 5, [⟨1, "a"⟩]⟩, .terminated 0, .optimizeNodes] →
    .terminated 0 ∈ handled →
    0 ∉ (@Supervised.run examplePlatform 12 1 handled).balancer.routees := by
  intro h
  exact absurd (h _ List.prefix_rfl (by simp)) (by decide)

end Tronscan
