import Tronscan.Network.Scanner

/-!
# Seed Nodes

A node of the configuration is permanent, and nothing that happens to the map
removes it: it is not cleaned up, and no update overwrites it. What may happen is
that it never gets in. The map is keyed by host, so a second permanent node on a
host is refused as an update of the first, be it on another port. A full node and
a solidity node on one machine are two such nodes.

The pool of channels, next to it, has host and port for its keys.

## Main definitions

* `scannerRun`: The state behind a list of messages.
* `SeedsKept`: Every permanent node that was reported is in the map from then on.

## Theorems

* `keeps_concat`: A message keeps the permanent nodes.
* `seedsKept_iff`: When all of them are kept.
* `not_seedsKept_ports`: Two permanent nodes on one host.
-/

namespace Tronscan

open ScannerState

/-- The state behind a list of messages. -/
def scannerRun (messages : List ScannerMessage) : ScannerState :=
  messages.foldl ScannerState.receive {}

/-- The map has an entry with exactly this node. -/
def ScannerState.Contains (s : ScannerState) (node : NetworkNode) : Prop :=
  ∃ key, (key, node) ∈ s.networkNodes

/-- Once a permanent node was reported, the map has it in every later state. -/
def SeedsKept (messages : List ScannerMessage) : Prop :=
  ∀ before node later after, messages = before ++ .updateNode node :: later ++ after →
    node.permanent = true → (scannerRun (before ++ .updateNode node :: later)).Contains node

/-- Two permanent nodes that are reported are the same, or on different hosts. -/
def HostsDiffer (messages : List ScannerMessage) : Prop :=
  ∀ m n, .updateNode m ∈ messages → .updateNode n ∈ messages → m.permanent = true →
    n.permanent = true → m.ip = n.ip → m = n

theorem scannerRun_wf (messages : List ScannerMessage) : (scannerRun messages).Wf := by
  unfold scannerRun
  induction messages using List.reverseRecOn with
  | nil => exact ⟨List.nodup_nil, fun x hx => absurd hx List.not_mem_nil⟩
  | append_singleton messages message ih =>
      rw [List.foldl_concat]
      exact wf_receive ih message

/-- The permanent nodes of a map are those that were reported. -/
structure Keeps (messages : List ScannerMessage) (s : ScannerState) : Prop where
  reported : ∀ x ∈ s.networkNodes, x.2.permanent = true → .updateNode x.2 ∈ messages
  kept : ∀ node, .updateNode node ∈ messages → node.permanent = true →
    (node.ip, node) ∈ s.networkNodes

/-- A message keeps the permanent nodes, as long as they are on different hosts. -/
theorem keeps_concat {messages : List ScannerMessage} {message : ScannerMessage} {s : ScannerState}
    (hwf : s.Wf) (hdiffer : HostsDiffer (messages ++ [message])) (h : Keeps messages s) :
    Keeps (messages ++ [message]) (s.receive message) := by
  have hother : (∀ node, message ≠ .updateNode node) → ∀ node,
      .updateNode node ∈ messages ++ [message] → .updateNode node ∈ messages := by
    intro hne node hnode
    rcases List.mem_append.mp hnode with hnode | hnode
    · exact hnode
    · exact absurd (List.mem_singleton.mp hnode).symm (hne node)
  cases message with
  | updateNode update =>
      have hready : ({ s with syncStatus := "ready" } : ScannerState).Wf := ⟨hwf.nodup, hwf.key_eq⟩
      have hlast : .updateNode update ∈ messages ++ [ScannerMessage.updateNode update] :=
        List.mem_append_right _ List.mem_cons_self
      by_cases hrefuses : ({ s with syncStatus := "ready" } : ScannerState).Refuses update
      · simp only [receive, updateNode_of_refuses hready hrefuses]
        refine ⟨fun x hx hp => List.mem_append_left _ (h.reported x hx hp), fun node hnode hp => ?_⟩
        rcases List.mem_append.mp hnode with hnode | hnode
        · exact h.kept node hnode hp
        · -- What refuses the update is the same node.
          cases List.mem_singleton.mp hnode
          rcases hrefuses with ⟨existing, hmem, hexisting⟩
          have hreported := h.reported _ hmem hexisting
          have hsame := hdiffer existing update (List.mem_append_left _ hreported) hlast hexisting hp
            (hwf.key_eq _ hmem).symm
          rwa [hsame] at hmem
      · -- What the update overwrites is not permanent.
        simp only [receive, updateNode_of_not_refuses hready hrefuses]
        refine ⟨fun x hx hp => ?_, fun node hnode hp => ?_⟩
        · rcases mem_put.mp hx with rfl | ⟨hx, _⟩
          · exact hlast
          · exact List.mem_append_left _ (h.reported x hx hp)
        · rcases List.mem_append.mp hnode with hnode | hnode
          · have hmem := h.kept node hnode hp
            refine mem_put.mpr (Or.inr ⟨hmem, fun hip => hrefuses ⟨node, ?_, hp⟩⟩)
            exact congrArg (·, node) hip ▸ hmem
          · cases List.mem_singleton.mp hnode
            exact mem_put.mpr (Or.inl rfl)
  | requestStatus =>
      refine ⟨fun x hx hp => List.mem_append_left _ (h.reported x hx hp), fun node hnode => ?_⟩
      exact h.kept node (hother (fun _ hne => by cases hne) node hnode)
  | cleanupNodes now =>
      -- However long ago it was seen, a permanent node passes the filter.
      refine ⟨fun x hx hp => ?_, fun node hnode hp => ?_⟩
      · exact List.mem_append_left _ (h.reported x (mem_cleanup.mp hx).1 hp)
      · refine mem_cleanup.mpr ⟨?_, Or.inl hp⟩
        exact h.kept node (hother (fun _ hne => by cases hne) node hnode) hp
  | getBestNodes count filter =>
      refine ⟨fun x hx hp => List.mem_append_left _ (h.reported x hx hp), fun node hnode => ?_⟩
      exact h.kept node (hother (fun _ hne => by cases hne) node hnode)

theorem scannerRun_keeps {messages : List ScannerMessage} (h : HostsDiffer messages) :
    Keeps messages (scannerRun messages) := by
  induction messages using List.reverseRecOn with
  | nil =>
      refine ⟨fun x hx => absurd hx List.not_mem_nil, fun node hnode => ?_⟩
      exact absurd hnode List.not_mem_nil
  | append_singleton messages message ih =>
      unfold scannerRun at ih ⊢
      rw [List.foldl_concat]
      refine keeps_concat (scannerRun_wf messages) h (ih fun m n hm hn => ?_)
      exact h m n (List.mem_append_left _ hm) (List.mem_append_left _ hn)

/-- All permanent nodes are kept exactly when no two that are reported are on one
    host. -/
theorem seedsKept_iff (messages : List ScannerMessage) :
    SeedsKept messages ↔ HostsDiffer messages := by
  constructor
  · intro h m n hm hn hmp hnp hip
    have hcontains : ∀ node, .updateNode node ∈ messages → node.permanent = true →
        (node.ip, node) ∈ (scannerRun messages).networkNodes := by
      intro node hnode hpermanent
      rcases List.append_of_mem hnode with ⟨before, later, hmessages⟩
      rcases h before node later [] (by rw [hmessages, List.append_nil]) hpermanent with ⟨key, hkey⟩
      rw [← hmessages] at hkey
      rw [← (scannerRun_wf messages).key_eq _ hkey]
      exact hkey
    -- Both are under the one key.
    have hm' := (get_eq_some (scannerRun_wf messages)).mpr (hcontains m hm hmp)
    have hn' := (get_eq_some (scannerRun_wf messages)).mpr (hcontains n hn hnp)
    rw [hip, hn'] at hm'
    exact (Option.some.inj hm').symm
  · intro h before node later after hmessages hpermanent
    have hprefix : HostsDiffer (before ++ .updateNode node :: later) := by
      intro m n hm hn
      refine h m n ?_ ?_
      · rw [hmessages]
        exact List.mem_append_left _ hm
      · rw [hmessages]
        exact List.mem_append_left _ hn
    refine ⟨node.ip, (scannerRun_keeps hprefix).kept node ?_ hpermanent⟩
    exact List.mem_append_right _ List.mem_cons_self

/-- A full node and a solidity node on one host, reported one after the other. -/
def twoSeeds : List ScannerMessage :=
  [.updateNode (seedNode ⟨"a", 50051⟩ 0), .updateNode (soliditySeedNode ⟨"a", 50061⟩ 0)]

/-- The second of two permanent nodes on one host is not kept. -/
theorem not_seedsKept_ports : ¬ SeedsKept twoSeeds := by
  rw [seedsKept_iff]
  intro h
  have hsame := h (seedNode ⟨"a", 50051⟩ 0) (soliditySeedNode ⟨"a", 50061⟩ 0) List.mem_cons_self
    (List.mem_cons_of_mem _ List.mem_cons_self) rfl rfl rfl
  have hports : (50051 : Int) = 50061 := congrArg NetworkNode.port hsame
  revert hports
  decide

end Tronscan
