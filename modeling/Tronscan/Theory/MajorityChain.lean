import Tronscan.Grpc.Pings
import Mathlib.Data.Fintype.EquivFin

/-!
# The Chain of the Majority

Which chain the balancer follows, after any history of pings.

The balancer should be on the chain that most nodes are on. What it compares is
not how many nodes have a hash among their recent blocks, but how often the hash
is in all of their lists together. A node whose head stands still reports it once
more at every ping, until its list has nothing else in it, and can then outweigh
a dozen nodes that move on. Nodes that share an ip also count as one, the last
that was pinged.

`followsMajority_iff` compares the two counts. They are the same for a hash that no node
has twice, if no two nodes share an ip. So a node that stands still does no harm
when no other head has more followers than the one it stands on.

## Main definitions

* `followers`: How many nodes have a hash among their recent blocks.
* `entries`: How often the balancer counts it.
* `FollowsMajority`: No hash has more followers.

## Theorems

* `count_blockHashes`: The balancer's count, in terms of the pings.
* `followsMajority_iff`: When the balancer follows the majority, in terms of the counts.
* `followers_le_entries`, `entries_eq_followers`: The counts where no ip is shared.
* `followsMajority_of_repeated`: The nodes that stand still do so on a head of the majority.
* `not_followsMajority_stalled`: A node that stands still.
-/

namespace Tronscan

section Majority

variable {seedNodes : List NodeAddress} (pings : List (Ping seedNodes)) (hash : String)

/-- The hashes among the recent blocks of a node. -/
def recentHashes (client : Fin seedNodes.length) : List String :=
  (recent pings client).map (·.hash)

/-- How many nodes have the hash among their recent blocks. -/
def followers : Nat :=
  (List.finRange seedNodes.length).countP fun client => decide (hash ∈ recentHashes pings client)

/-- How often the hash is among the recent blocks, taken once for each ip, from
    the node that was last pinged. -/
def entries : Nat :=
  ((seedNodes.map (·.ip)).dedup.flatMap fun ip =>
    (Lib.latest Ping.ip ip pings).elim [] fun p => recentHashes pings p.client).count hash

/-- No other hash is among the recent blocks of more nodes. -/
def FollowsMajority : Prop :=
  ∀ other, followers pings other ≤ followers pings hash

variable {pings hash}

theorem ip_mem_sent {stats : GrpcStats} (h : stats ∈ sent pings) :
    stats.ip ∈ (seedNodes.map (·.ip)).dedup := by
  rw [List.mem_dedup]
  induction pings using List.reverseRecOn with
  | nil => cases h
  | append_singleton pings p ih =>
      rcases sent_concat pings p with ⟨responseTime, hsent⟩
      rw [hsent] at h
      rcases List.mem_append.mp h with h | h
      · exact ih h
      · cases List.mem_singleton.mp h
        exact List.mem_map_of_mem (List.get_mem _ _)

/-- What the balancer counts are the recent blocks, once for each ip. -/
theorem count_blockHashes : (blockHashes (statuses (sent pings))).count hash =
    entries pings hash := by
  have hperm : (statuses (sent pings)).Perm ((seedNodes.map (·.ip)).dedup.filterMap fun ip =>
      (Lib.latest (·.ip) ip (sent pings)).map fun stats => (stats.ip, stats)) := by
    have hips : ∀ status ∈ (sent pings).map fun stats => (stats.ip, stats),
        status.1 ∈ (seedNodes.map (·.ip)).dedup := by
      intro status hstatus
      rcases List.mem_map.mp hstatus with ⟨stats, hstats, rfl⟩
      exact ip_mem_sent hstats
    have h := Lib.foldl_upsert_perm (List.nodup_dedup _) hips
    unfold statuses
    simpa only [Lib.latest_map] using h
  unfold entries
  rw [(blockHashes_perm hperm).count_eq]
  unfold blockHashes
  rw [List.filterMap_eq_flatMap_toList, List.flatMap_assoc]
  congr 1
  refine List.flatMap_congr fun ip _ => ?_
  -- For each ip, both are read off the same ping.
  have hlatest : (Lib.latest (·.ip) ip (sent pings)).map (fun stats => (stats.ref, stats.blocks)) =
      (Lib.latest Ping.ip ip pings).map fun p => (p.client.val, recent pings p.client) :=
    latest_sent (fun p q h => by unfold Ping.ip; rw [h]) (fun _ _ _ => rfl) ip
  unfold recentHashes
  cases hstats : Lib.latest (·.ip) ip (sent pings) with
  | none =>
      rw [hstats] at hlatest
      rw [Option.map_eq_none_iff.mp hlatest.symm]
      rfl
  | some stats =>
      rw [hstats] at hlatest
      rcases Option.map_eq_some_iff.mp hlatest.symm with ⟨p, hp, hblocks⟩
      have hsame : recent pings p.client = stats.blocks := (Prod.ext_iff.mp hblocks).2
      rw [hp]
      simp [hsame]

theorem isMostCommon_iff : IsMostCommon (statuses (sent pings)) hash ↔
    0 < entries pings hash ∧ ∀ other, entries pings other ≤ entries pings hash := by
  unfold IsMostCommon
  rw [← List.count_pos_iff]
  simp only [count_blockHashes]

/-- Some hash is not among anybody's blocks. -/
theorem exists_followers_eq_zero (pings : List (Ping seedNodes)) :
    ∃ hash, followers pings hash = 0 := by
  rcases Infinite.exists_notMem_finset
    ((List.finRange seedNodes.length).flatMap (recentHashes pings)).toFinset with ⟨hash, hhash⟩
  refine ⟨hash, List.countP_eq_zero.mpr fun client hclient hmem => hhash ?_⟩
  exact List.mem_toFinset.mpr (List.mem_flatMap.mpr ⟨client, hclient, of_decide_eq_true hmem⟩)

theorem followers_pos : 0 < followers pings hash ↔
    ∃ client, hash ∈ recentHashes pings client := by
  unfold followers
  rw [List.countP_pos_iff]
  simp

/-- Whatever the order of traversal, the balancer follows the majority as long as
    some node has a recent block, exactly when a hash with fewer followers than
    another never has as many entries as any. -/
theorem followsMajority_iff (pings : List (Ping seedNodes)) :
    (∀ P : Platform, (∃ client, recent pings client ≠ []) →
      ∃ hash, @mostCommonBlockHash P (statuses (sent pings)) = some hash ∧
        FollowsMajority pings hash) ↔
    ∀ hash other, followers pings hash < followers pings other →
      ∃ most, entries pings hash < entries pings most := by
  constructor
  · intro h hash other hfewer
    by_contra hmost
    have hle : ∀ most, entries pings most ≤ entries pings hash :=
      fun most => Nat.le_of_not_lt fun hlt => hmost ⟨most, hlt⟩
    have hrecent : ∃ client, recent pings client ≠ [] := by
      rcases followers_pos.mp (Nat.zero_lt_of_lt hfewer) with ⟨client, hmem⟩
      exact ⟨client, List.ne_nil_of_mem (List.mem_map.mp hmem).choose_spec.1⟩
    -- Some hash is chosen, so the one with the most entries has one at least.
    rcases h examplePlatform hrecent with ⟨chosen, hchosen, -⟩
    have hpos := (isMostCommon_iff.mp (@mostCommonBlockHash_spec _ _ examplePlatform hchosen)).1
    have hcommon : IsMostCommon (statuses (sent pings)) hash :=
      isMostCommon_iff.mpr ⟨hpos.trans_le (hle chosen), hle⟩
    -- In the order that starts at this hash, it is the one chosen.
    rcases h (Platform.startingAt [hash]) hrecent with ⟨hash', hhash', hfollows⟩
    rw [exists_mostCommonBlockHash hcommon []] at hhash'
    cases hhash'
    exact absurd (hfollows other) (Nat.not_le_of_lt hfewer)
  · rintro h P ⟨client, hrecent⟩
    rcases List.exists_mem_of_ne_nil _ hrecent with ⟨block, hblock⟩
    have hpos : 0 < followers pings block.hash :=
      followers_pos.mpr ⟨client, List.mem_map_of_mem hblock⟩
    -- A hash without followers has fewer entries than some other.
    rcases exists_followers_eq_zero pings with ⟨absent, habsent⟩
    rcases h absent block.hash (habsent ▸ hpos) with ⟨most, hmost⟩
    cases hchosen : @mostCommonBlockHash P (statuses (sent pings)) with
    | none =>
        have hcount : (blockHashes (statuses (sent pings))).count most = entries pings most :=
          count_blockHashes
        rw [← hcount, mostCommonBlockHash_eq_none.mp hchosen] at hmost
        exact absurd hmost (Nat.not_lt_zero _)
    | some hash =>
        refine ⟨hash, rfl, fun other => Nat.le_of_not_lt fun hfewer => ?_⟩
        rcases h hash other hfewer with ⟨most', hmost'⟩
        have hle := (isMostCommon_iff.mp (@mostCommonBlockHash_spec _ _ P hchosen)).2 most'
        omega

/-- The last ping of an ip that no two seed nodes share is the last by its client. -/
theorem latest_ip (hips : (seedNodes.map (·.ip)).Nodup) (client : Fin seedNodes.length) :
    Lib.latest Ping.ip (seedNodes.get client).ip pings = Lib.latest (·.client) client pings := by
  unfold Lib.latest
  congr 2
  funext p
  refine decide_eq_decide.mpr ⟨fun h => ?_, fun h => ?_⟩
  · have hlt : p.client.val < (seedNodes.map (·.ip)).length := by
      rw [List.length_map]
      exact p.client.isLt
    refine Fin.ext ((List.getElem?_inj hlt hips).mp ?_)
    simp only [List.getElem?_map, List.getElem?_eq_getElem p.client.isLt,
      List.getElem?_eq_getElem client.isLt]
    exact congrArg some h
  · exact congrArg (fun c => (seedNodes.get c).ip) h

/-- Where no ip is shared, the balancer counts over the lists of all nodes. -/
theorem entries_eq_count (hips : (seedNodes.map (·.ip)).Nodup) :
    entries pings hash =
      ((List.finRange seedNodes.length).flatMap (recentHashes pings)).count hash := by
  have hmap : seedNodes.map (·.ip) =
      (List.finRange seedNodes.length).map fun client => (seedNodes.get client).ip := by
    conv_lhs => rw [← List.map_get_finRange seedNodes, List.map_map]
    rfl
  unfold entries
  rw [hips.dedup, hmap, List.flatMap_map]
  refine congrArg (List.count hash) (List.flatMap_congr fun client _ => ?_)
  rw [latest_ip hips]
  cases hlast : Lib.latest (·.client) client pings with
  | none =>
      unfold recentHashes recent
      rw [hlast]
      rfl
  | some p =>
      rw [Option.elim_some]
      exact congrArg _ (Lib.latest_mem hlast).2

/-- A follower has the hash once at least. -/
theorem followers_le_entries (hips : (seedNodes.map (·.ip)).Nodup) :
    followers pings hash ≤ entries pings hash := by
  rw [entries_eq_count hips, followers]
  induction List.finRange seedNodes.length with
  | nil => exact Nat.le_refl 0
  | cons client clients ih =>
      rw [List.flatMap_cons, List.count_append, List.countP_cons, Nat.add_comm]
      refine Nat.add_le_add ?_ ih
      split
      · rename_i hmem
        exact List.count_pos_iff.mpr (of_decide_eq_true hmem)
      · exact Nat.zero_le _

/-- A hash that nobody has twice has as many entries as followers. -/
theorem entries_eq_followers (hips : (seedNodes.map (·.ip)).Nodup)
    (honce : ∀ client, (recentHashes pings client).count hash ≤ 1) :
    entries pings hash = followers pings hash := by
  refine le_antisymm ?_ (followers_le_entries hips)
  rw [entries_eq_count hips, followers]
  induction List.finRange seedNodes.length with
  | nil => exact Nat.le_refl 0
  | cons client clients ih =>
      rw [List.flatMap_cons, List.count_append, List.countP_cons, Nat.add_comm]
      refine Nat.add_le_add ih ?_
      by_cases hmem : hash ∈ recentHashes pings client
      · rw [if_pos (decide_eq_true hmem)]
        exact honce client
      · rw [List.count_eq_zero.mpr hmem]
        exact Nat.zero_le _

/-- Where no ip is shared, and the nodes that stand still do so on a head that no other has
    more followers than, the balancer follows the majority. -/
theorem followsMajority_of_repeated (pings : List (Ping seedNodes))
    (hips : (seedNodes.map (·.ip)).Nodup)
    (hrepeated : ∀ client hash, 1 < (recentHashes pings client).count hash →
      FollowsMajority pings hash) :
    ∀ P : Platform, (∃ client, recent pings client ≠ []) →
      ∃ hash, @mostCommonBlockHash P (statuses (sent pings)) = some hash ∧
        FollowsMajority pings hash := by
  refine (followsMajority_iff pings).mpr fun hash other hfewer => ⟨other, ?_⟩
  -- With fewer followers than another, the hash is not repeated.
  have honce : ∀ client, (recentHashes pings client).count hash ≤ 1 := by
    intro client
    by_contra hmore
    exact absurd (hrepeated client hash (Nat.lt_of_not_le hmore) other) (Nat.not_le_of_lt hfewer)
  calc entries pings hash = followers pings hash := entries_eq_followers hips honce
    _ < followers pings other := hfewer
    _ ≤ entries pings other := followers_le_entries hips

end Majority

/-- Three nodes, of which the first two have the same three heads one after the
    other, and the last has one head all along. -/
def stalledPings : List (Ping [⟨"127.0.0.1", 50051⟩, ⟨"127.0.0.2", 50051⟩, ⟨"127.0.0.3", 50051⟩]) :=
  [⟨0, some (⟨1, "a"⟩, 5)⟩, ⟨1, some (⟨1, "a"⟩, 5)⟩, ⟨2, some (⟨1, "b"⟩, 5)⟩,
    ⟨0, some (⟨2, "c"⟩, 5)⟩, ⟨1, some (⟨2, "c"⟩, 5)⟩, ⟨2, some (⟨1, "b"⟩, 5)⟩,
    ⟨0, some (⟨3, "d"⟩, 5)⟩, ⟨1, some (⟨3, "d"⟩, 5)⟩, ⟨2, some (⟨1, "b"⟩, 5)⟩]

/-- With two nodes that stand still, and one that moves on, it does. -/
def steadyPings : List (Ping [⟨"127.0.0.1", 50051⟩, ⟨"127.0.0.2", 50051⟩, ⟨"127.0.0.3", 50051⟩]) :=
  [⟨0, some (⟨1, "a"⟩, 5)⟩, ⟨1, some (⟨1, "a"⟩, 5)⟩, ⟨2, some (⟨1, "b"⟩, 5)⟩,
    ⟨0, some (⟨1, "a"⟩, 5)⟩, ⟨1, some (⟨1, "a"⟩, 5)⟩, ⟨2, some (⟨2, "c"⟩, 5)⟩]

theorem followsMajority_of_repeated_steady :
    ∃ hash, @mostCommonBlockHash examplePlatform (statuses (sent steadyPings)) = some hash ∧
      FollowsMajority steadyPings hash := by
  have hlists : (List.finRange 3).map (recentHashes steadyPings) =
      [["a", "a"], ["a", "a"], ["b", "c"]] := by decide
  have hmajority : FollowsMajority steadyPings "a" := by
    have hfollowers : ∀ hash, followers steadyPings hash =
        ((List.finRange 3).map (recentHashes steadyPings)).countP
          fun hashes => decide (hash ∈ hashes) := fun hash => by
      rw [List.countP_map]
      rfl
    intro other
    rw [hfollowers, hfollowers, hlists]
    by_cases ha : other = "a"
    · rw [ha]
    · simp only [List.countP_cons, List.mem_cons, ha, List.not_mem_nil, or_false]
      split <;> simp
  refine followsMajority_of_repeated steadyPings (by decide) (fun client hash hmore => ?_)
    examplePlatform ⟨0, by decide⟩
  have hmem : recentHashes steadyPings client ∈ [["a", "a"], ["a", "a"], ["b", "c"]] :=
    hlists ▸ List.mem_map_of_mem (List.mem_finRange client)
  -- The head that is repeated is the one of the nodes that stand still.
  have hhash : hash = "a" := by
    simp only [List.mem_cons, List.not_mem_nil, or_false] at hmem
    rcases hmem with hmem | hmem | hmem <;> rw [hmem] at hmore
    · simpa using List.count_pos_iff.mp (Nat.zero_lt_of_lt hmore)
    · simpa using List.count_pos_iff.mp (Nat.zero_lt_of_lt hmore)
    · have honce : List.count hash ["b", "c"] ≤ 1 :=
        List.nodup_iff_count_le_one.mp (by decide) hash
      omega
  rw [hhash]
  exact hmajority

/-- The balancer goes with the last node. -/
theorem not_followsMajority_stalled : ¬ ∀ P : Platform,
    (∃ client, recent stalledPings client ≠ []) →
      ∃ hash, @mostCommonBlockHash P (statuses (sent stalledPings)) = some hash ∧
        FollowsMajority stalledPings hash := by
  intro h
  rcases h examplePlatform ⟨0, by decide⟩ with ⟨hash, hhash, hfollows⟩
  have hlast : @mostCommonBlockHash examplePlatform (statuses (sent stalledPings)) = some "b" := by
    decide
  rw [hlast] at hhash
  cases hhash
  exact absurd (hfollows "a") (by decide)

end Tronscan
