import Tronscan.Network.Scanner
import Tronscan.Core.Wire

/-!
# What a Scan Finds

A stage passes on what the addresses it gets have answered, and not these
addresses. So behind three stages there is what three requests in a row lead to,
and a node that is found sooner is only there if it is found again later.

Nodes usually know each other, which hides this. A node that is known to one of
the seeds alone, and knows no one, is found by the first stage and lost by the
second.

Each request goes to the same port, whatever the address says. Where all nodes
are on that port, the requests follow the graph.

## Main definitions

* `Edge`, `Asked`: The addresses a node knows, and those that asking one gives.
* `HopsFrom`: What so many steps from the seeds lead to.
* `ScanComplete`: A scan emits each address within three hops once.

## Theorems

* `readNodeChannels_spec`: What a scan emits.
* `scanComplete_iff`: When it is complete.
* `scanComplete_iff_of_port`: The same where all nodes are on one port.
* `not_scanComplete_leaf`: A node that is known to a seed alone.
-/

namespace Tronscan

/-- What `n` steps from the seeds lead to. -/
def HopsFrom {α : Type} (step : α → α → Prop) (seeds : List α) : ℕ → α → Prop
  | 0, a => a ∈ seeds
  | n + 1, b => ∃ a, HopsFrom step seeds n a ∧ step a b

theorem hopsFrom_congr {α : Type} {step step' : α → α → Prop} {seeds : List α}
    (h : ∀ n a, HopsFrom step seeds n a → ∀ b, step a b ↔ step' a b) (n : ℕ) (a : α) :
    HopsFrom step seeds n a ↔ HopsFrom step' seeds n a := by
  induction n generalizing a with
  | zero => exact Iff.rfl
  | succ n ih =>
      refine exists_congr fun b => ?_
      rw [← ih b]
      exact and_congr_right fun hb => h n b hb a

section Scan

variable [Codec] (network : Network) {seeds out : List NodeAddress}

/-- The node at the one address lists the other. -/
def Edge (a b : NodeAddress) : Prop := ∃ nodes, network.nodes a.ip a.port = some nodes ∧ b ∈ nodes

/-- Asking the one address gives the other. -/
def Asked (a b : NodeAddress) : Prop :=
  ∃ nodes, network.nodes a.ip 50051 = some nodes ∧ b ∈ nodes

/-- The addresses within one, two or three hops. -/
def WithinThree (seeds : List NodeAddress) (a : NodeAddress) : Prop :=
  ∃ n, 1 ≤ n ∧ n ≤ 3 ∧ HopsFrom (Edge network) seeds n a

/-- Every scan emits each address within three hops, once. -/
def ScanComplete (seeds : List NodeAddress) : Prop :=
  ∀ out, readNodeChannels network seeds out → ∀ a, WithinThree network seeds a → out.count a = 1

variable {network}

theorem mem_networkScanner {a b : NodeAddress} :
    b ∈ NetworkStreams.networkScanner network nodeFromIp a ↔ Asked network a b := by
  unfold NetworkStreams.networkScanner Asked
  simp only [nodeFromIp, channelFromIp]
  cases network.nodes a.ip 50051 with
  | none => exact iff_of_false List.not_mem_nil fun ⟨_, h, _⟩ => by cases h
  | some nodes => simp only [Option.getD_some, Option.some.injEq, exists_eq_left']

/-- A stage takes every hop one further. -/
theorem buildReadStream_hops {ips : List NodeAddress} {n : ℕ}
    (hips : ∀ a, a ∈ ips ↔ HopsFrom (Asked network) seeds n a)
    (h : buildReadStream network ips out) (a : NodeAddress) :
    a ∈ out ↔ HopsFrom (Asked network) seeds (n + 1) a := by
  rw [Lib.Expansion.mem_iff h]
  simp only [hips, mem_networkScanner, HopsFrom]

/-- A scan emits what three requests in a row lead to, each address once, in
    whatever order the requests complete. -/
theorem readNodeChannels_spec (h : readNodeChannels network seeds out) :
    out.Nodup ∧ ∀ a, a ∈ out ↔ HopsFrom (Asked network) seeds 3 a := by
  rcases h with ⟨first, second, hfirst, hsecond, hout⟩
  have hone := buildReadStream_hops (n := 0) (fun _ => Iff.rfl) hfirst
  have htwo := buildReadStream_hops hone hsecond
  exact ⟨Lib.Expansion.nodup hout, buildReadStream_hops htwo hout⟩

theorem exists_readNodeChannels (seeds : List NodeAddress) :
    ∃ out, readNodeChannels network seeds out := by
  have hrun : ∀ ips, ∃ out, buildReadStream network ips out :=
    Lib.Expansion.exists_run (Nat.succ_pos 3) _
  rcases hrun seeds with ⟨first, hfirst⟩
  rcases hrun first with ⟨second, hsecond⟩
  rcases hrun second with ⟨out, hout⟩
  exact ⟨out, first, second, hfirst, hsecond, hout⟩

/-- A scan is complete exactly when three requests in a row, each to the one port,
    lead to every address within three hops. -/
theorem scanComplete_iff (network : Network) (seeds : List NodeAddress) :
    ScanComplete network seeds ↔
      ∀ a, WithinThree network seeds a → HopsFrom (Asked network) seeds 3 a := by
  constructor
  · intro h a ha
    have hscan : ∃ out, readNodeChannels network seeds out := exists_readNodeChannels seeds
    rcases hscan with ⟨out, hout⟩
    have hcount := h out hout a ha
    rw [← (readNodeChannels_spec hout).2]
    exact List.count_pos_iff.mp (by omega)
  · intro h out hout a ha
    rcases readNodeChannels_spec hout with ⟨hnodup, hmem⟩
    exact List.count_eq_one_of_mem hnodup ((hmem a).mpr (h a ha))

/-- Where all addresses are on the port that is asked, a scan is complete exactly
    when what is one or two hops away is three hops away as well. -/
theorem scanComplete_iff_of_port {network : Network} {seeds : List NodeAddress}
    (hport : ∀ n a, HopsFrom (Edge network) seeds n a → a.port = 50051) :
    ScanComplete network seeds ↔ ∀ a, HopsFrom (Edge network) seeds 1 a ∨
      HopsFrom (Edge network) seeds 2 a → HopsFrom (Edge network) seeds 3 a := by
  have hasked : ∀ a, HopsFrom (Edge network) seeds 3 a ↔ HopsFrom (Asked network) seeds 3 a := by
    refine hopsFrom_congr (fun n a ha b => ?_) 3
    unfold Edge Asked
    rw [hport n a ha]
  rw [scanComplete_iff]
  constructor
  · rintro h a (ha | ha)
    · exact (hasked a).mpr (h a ⟨1, by omega, by omega, ha⟩)
    · exact (hasked a).mpr (h a ⟨2, by omega, by omega, ha⟩)
  · rintro h a ⟨n, hlow, hhigh, ha⟩
    rw [← hasked]
    have hn : n = 1 ∨ n = 2 ∨ n = 3 := by omega
    rcases hn with rfl | rfl | rfl
    · exact h a (Or.inl ha)
    · exact h a (Or.inr ha)
    · exact ha

end Scan

/-! ## A node that is known to a seed alone -/

/-- A seed that lists one node, which does not answer. -/
def leafNetwork : Network where
  listNodes ip port :=
    if ip = "a" ∧ port = 50051 then some [some { host := [98], port := 50051 }] else none

/-- The node a seed lists is not found, on whichever port it is. -/
theorem not_scanComplete_leaf :
    @WithinThree exampleCodec leafNetwork [{ ip := "a", port := 50051 }]
      { ip := "b", port := 50051 } ∧
    ¬ @ScanComplete exampleCodec leafNetwork [{ ip := "a", port := 50051 }] := by
  have hedge : @Edge exampleCodec leafNetwork { ip := "a", port := 50051 }
      { ip := "b", port := 50051 } := ⟨_, rfl, List.mem_singleton.mpr rfl⟩
  have hwithin : @WithinThree exampleCodec leafNetwork [{ ip := "a", port := 50051 }]
      { ip := "b", port := 50051 } :=
    ⟨1, by omega, by omega, _, List.mem_singleton.mpr rfl, hedge⟩
  refine ⟨hwithin, fun h => ?_⟩
  rw [@scanComplete_iff exampleCodec] at h
  rcases h _ hwithin with ⟨c, ⟨b, ⟨a, ha, hab⟩, hbc⟩, _⟩
  -- The first request leads to the node, and the second to nothing.
  rcases List.mem_singleton.mp ha with rfl
  rcases hab with ⟨nodes, hnodes, hb⟩
  cases hnodes
  rcases List.mem_singleton.mp hb with rfl
  rcases hbc with ⟨_, hnodes, _⟩
  cases hnodes

end Tronscan
