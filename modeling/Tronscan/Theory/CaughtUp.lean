import Tronscan.Theory.MirroredRuns

/-!
# The Explorer Catches Up

While the heads stay where they are, the importers come to rest. Two full node runs are
enough to get to the end of what is read, the first of them leaving out a block if it
reads in batches, and one solidity run after them confirms what can be confirmed. It does
not matter what else runs, or when.

At rest the explorer is short of the last two blocks of the node, and its own last block
may be unconfirmed although the solidity node has it: a solidity run does not start for
a single block. It does not start either for more blocks than can be counted, which would
never be confirmed then.

## Main definitions

* `View.CaughtUp`: Nothing is left to do.
* `View.Countable`: Solidity runs can count what they have to confirm.
* `Observed.Told`: A run was told of these heads.
* `ImportRun.FollowsAt`: It follows the chain, with the heads where they are.

## Theorems

* `View.Countable.step`: What can be counted stays so.
* `View.CaughtUp.step`: Caught up is caught up.
* `View.caughtUp_foldl`: Two full node runs and a solidity run, among others.
* `queries_caughtUp`: A run then has nothing to write.
* `history_caughtUp`: The importers come to rest.
-/

namespace Tronscan

open BlockImporter BlockChainStreamBuilder ImportStreamFactory

/-- The explorer has all that the runs read of a chain with these heads. -/
structure View.CaughtUp (v : View) (heads : Heads) : Prop where
  height : heads.fullNodeBlock.toInt - 1 ≤ v.height
  confirmed : ∀ n : ℕ, (n : Int) ≤ heads.solidityBlock.toInt → n + 1 < v.height → v.confirmed n = true

/-- The blocks there are to confirm can be counted, now and when the explorer has got to the
    head. -/
def View.Countable (v : View) (heads : Heads) : Prop :=
  min (max v.latest (heads.fullNodeBlock.toInt - 2)) heads.solidityBlock.toInt < 2147483647

instance (v : View) (heads : Heads) : Decidable (v.Countable heads) :=
  inferInstanceAs (Decidable (min (max v.latest (heads.fullNodeBlock.toInt - 2))
    heads.solidityBlock.toInt < 2147483647))

/-- The run was told of these heads, if it did anything. -/
def Observed.Told (heads : Heads) : Observed → Prop
  | .nothing => True
  | .full head _ => head = heads.fullNodeBlock.toInt
  | .solidity head solidityHead => head = heads.fullNodeBlock.toInt ∧ solidityHead = heads.solidityBlock.toInt

section Views

variable {v : View} {heads : Heads} {o : Observed}

/-- A run that reads in batches gets to all but one of the blocks. -/
theorem View.le_height_full (v : View) (head : Int) (c : Bool) :
    head - 2 ≤ (v.step (.full head c)).height := by
  show head - 2 ≤ (max v.height (v.target head) : ℕ)
  rw [View.target]
  split <;> omega

theorem View.le_height_full_again {head : Int} (h : head - 2 ≤ v.height) (c : Bool) :
    head - 1 ≤ (v.step (.full head c)).height := by
  show head - 1 ≤ (max v.height (v.target head) : ℕ)
  rw [View.target, View.latest, if_pos (by omega)]
  omega

/-- A run leaves the last block where it is or takes it to where full node runs get. -/
theorem View.Countable.step (h : v.Countable heads) (ho : o.Told heads) :
    (v.step o).Countable heads := by
  cases o with
  | nothing => exact h
  | full head c =>
      cases ho
      have hlatest : (v.step (.full heads.fullNodeBlock.toInt c)).latest ≤
          max v.latest (heads.fullNodeBlock.toInt - 2) := by
        show ((max v.height (v.target heads.fullNodeBlock.toInt) : ℕ) : Int) - 1 ≤ _
        rw [View.target, View.latest]
        split <;> omega
      rw [View.Countable] at h ⊢
      omega
  | solidity head solidityHead =>
      rw [View.step]
      split <;> exact h

theorem View.Countable.foldl {os : List Observed} (htold : ∀ o ∈ os, o.Told heads)
    (h : v.Countable heads) : (os.foldl View.step v).Countable heads := by
  induction os generalizing v with
  | nil => exact h
  | cons o os ih =>
      rw [List.forall_mem_cons] at htold
      exact ih htold.2 (h.step htold.1)

/-- Near the head, a solidity run confirms what it can. -/
theorem View.caughtUp_solidity (h : heads.fullNodeBlock.toInt - 1 ≤ v.height)
    (hcount : v.Countable heads) :
    (v.step (.solidity heads.fullNodeBlock.toInt heads.solidityBlock.toInt)).CaughtUp heads := by
  have hnear : ¬heads.fullNodeBlock.toInt - v.latest > 100 := by
    rw [View.latest]
    omega
  rw [View.step]
  by_cases hstay : v.latest - v.unconfirmed ≤ 0 ∨
      2147483647 ≤ min v.latest heads.solidityBlock.toInt - v.unconfirmed
  · -- At most the last block is unconfirmed.
    rw [if_pos (.inr hstay)]
    refine ⟨h, fun n _ hn => ?_⟩
    rcases v.unconfirmed_spec with ⟨-, hall⟩ | ⟨u, hu, -, -, hbelow⟩
    · exact hall n (by omega)
    · have hlatest : v.latest = v.height - 1 := rfl
      rw [View.Countable] at hcount
      rw [hu] at hstay
      exact hbelow n (by omega)
  · rw [if_neg (not_or.mpr ⟨hnear, hstay⟩)]
    refine ⟨h, fun n hn _ => ?_⟩
    show (v.confirmed n || decide ((n : Int) ≤ heads.solidityBlock.toInt)) = true
    rw [decide_eq_true hn, Bool.or_true]

theorem View.CaughtUp.max_target (h : v.CaughtUp heads) :
    max v.height (v.target heads.fullNodeBlock.toInt) = v.height := by
  have hheight := h.height
  rw [View.target, View.latest, if_pos (by omega)]
  omega

theorem View.CaughtUp.step (h : v.CaughtUp heads) (hcount : v.Countable heads)
    (ho : o.Told heads) : (v.step o).CaughtUp heads := by
  cases o with
  | nothing => exact h
  | full head c =>
      cases ho
      refine ⟨h.height.trans (Int.ofNat_le.mpr (v.height_le_step _)), fun n hn hlt => ?_⟩
      replace hlt : n + 1 < max v.height (v.target heads.fullNodeBlock.toInt) := hlt
      rw [h.max_target] at hlt
      refine (if_pos ?_).trans (h.confirmed n hn hlt)
      omega
  | solidity head solidityHead =>
      obtain ⟨rfl, rfl⟩ := ho
      exact View.caughtUp_solidity h.height hcount

/-- Two full node runs and a solidity run, in this order, whatever comes between them. -/
theorem View.caughtUp_foldl {os : List Observed} (htold : ∀ o ∈ os, o.Told heads) {c c' : Bool}
    (hruns : [.full heads.fullNodeBlock.toInt c, .full heads.fullNodeBlock.toInt c',
      .solidity heads.fullNodeBlock.toInt heads.solidityBlock.toInt].Sublist os) {v : View}
    (hcount : v.Countable heads) :
    (os.foldl View.step v).CaughtUp heads := by
  have hkeep (k : Int) (v : View) (o : Observed) (h : k ≤ v.height) : k ≤ (v.step o).height :=
    h.trans (Int.ofNat_le.mpr (v.height_le_step o))
  obtain ⟨first, rest, rfl, hfirst, hruns⟩ := List.cons_sublist_iff.mp hruns
  obtain ⟨second, rest, rfl, hsecond, hruns⟩ := List.cons_sublist_iff.mp hruns
  rw [List.singleton_sublist] at hruns
  rw [← List.append_assoc] at htold ⊢
  rw [List.forall_mem_append] at htold
  rw [List.foldl_append]
  have hcount' : ((first ++ second).foldl View.step v).Countable heads :=
    hcount.foldl htold.1
  rw [List.foldl_append] at hcount' ⊢
  have htwo : heads.fullNodeBlock.toInt - 2 ≤ (first.foldl View.step v).height :=
    Lib.foldl_stage (P := fun _ => True) hfirst (fun _ _ _ _ => trivial)
      (fun v _ => v.le_height_full _ _) (fun o _ v => hkeep _ v o) trivial
  have hone : heads.fullNodeBlock.toInt - 1 ≤ (second.foldl View.step (first.foldl View.step v)).height :=
    Lib.foldl_stage (P := fun v => heads.fullNodeBlock.toInt - 2 ≤ v.height) hsecond
      (fun o _ v => hkeep _ v o) (fun v h => View.le_height_full_again h _)
      (fun o _ v => hkeep _ v o) htwo
  have hcaught : (rest.foldl View.step (second.foldl View.step (first.foldl View.step v))).CaughtUp
      heads ∧ _ :=
    Lib.foldl_stage (P := fun v => heads.fullNodeBlock.toInt - 1 ≤ v.height ∧ v.Countable heads)
      (Q := fun v => v.CaughtUp heads ∧ v.Countable heads) hruns
      (fun o ho v h => ⟨hkeep _ v o h.1, h.2.step (htold.2 o ho)⟩)
      (fun v h => ⟨View.caughtUp_solidity h.1 h.2, h.2.step ⟨rfl, rfl⟩⟩)
      (fun o ho v h => ⟨h.1.step h.2 (htold.2 o ho), h.2.step (htold.2 o ho)⟩) ⟨hone, hcount'⟩
  exact hcaught.1

end Views

section Runs

variable [Codec] {chain : Blockchain} {v : View} {db : Database} {run : ImportRun} {heads : Heads}

/-- The run follows the chain, and is told of these heads. -/
def ImportRun.FollowsAt (run : ImportRun) (chain : Blockchain) (heads : Heads) (db : Database) :
    Prop := run.Follows chain db ∧ run.status.heads = heads

theorem ImportRun.FollowsAt.status_eq (h : run.FollowsAt chain heads db) :
    run.status = nodeState heads db := by
  obtain ⟨heads', hstatus⟩ := h.1.status
  rw [← h.2, hstatus]
  rfl

theorem ImportRun.FollowsAt.told (h : run.FollowsAt chain heads db) :
    (run.observed db).Told heads := by
  rw [ImportRun.observed, h.status_eq]
  cases run.action db with
  | none => trivial
  | some action =>
      cases run.source with
      | fullNode => rfl
      | solidity => exact ⟨rfl, rfl⟩

/-- A run has nothing to write when the explorer has caught up. -/
theorem queries_caughtUp (h : Mirrors chain v db) (hfits : v.Fits) (hv : v.CaughtUp heads)
    (hrun : run.FollowsAt chain heads db) : run.queries db = [] := by
  have hserved := hrun.1.served
  have hlow := hrun.1.low
  have hhigh := hrun.1.high
  have hstatus := hrun.status_eq
  rw [hstatus] at hlow hhigh
  have hsees := h.sees hfits hlow hhigh
  rw [ImportTick.queries, ImportTick.blocks]
  cases run.action db with
  | none => rfl
  | some action =>
      cases hsource : run.source with
      | fullNode node =>
          rw [hsource, hstatus] at hserved
          have htake := take_append_stream hsees hserved
          have htarget : max v.height (v.target (nodeState heads db).fullNodeBlock.toInt) =
              v.height :=
            hv.max_target
          rw [htarget, List.self_eq_append_right] at htake
          rw [hstatus]
          show fullNodeQueries _ (fullNodeStream node _) = []
          rw [htake]
          rfl
      | solidity node =>
          rw [hsource, hstatus] at hserved
          rw [hstatus]
          show (solidityStream node _).flatMap _ = []
          rcases v.unconfirmed_spec with ⟨-, hall⟩ | ⟨u, hu, -, hunconfirmed, -⟩
          · exact h.flatMap_confirmed hall _
          · rw [solidityStream]
            by_cases hcheck : solidityNodePreSynchronisationChecker (nodeState heads db) = true
            · -- The first unconfirmed block is above the head of the solidity node.
              have hrest := (h.solidity_check hsees).mp hcheck
              rw [View.latest, hu] at hrest
              have hnil : v.asked u heads.solidityBlock.toInt = [] := by
                refine List.eq_nil_iff_forall_not_mem.mpr fun n hn => ?_
                obtain ⟨hlow, -, hhead⟩ := v.mem_asked.mp hn
                rw [hv.confirmed u (by omega) (by omega)] at hunconfirmed
                cases hunconfirmed
              rw [if_pos hcheck]
              by_cases hcount : min v.latest heads.solidityBlock.toInt - v.unconfirmed < 2147483647
              · rw [h.buildSolidityBlockSource_eq hfits hu hcount hserved, hnil]
                rfl
              · rw [buildSolidityBlockSource,
                  if_neg (mt (h.isCountable_iff hfits heads).mp hcount)]
                rfl
            · rw [if_neg hcheck]
              rfl

/-- A run without queries leaves everything as it is. -/
theorem historyStep_quiet {s t : History} (hqueries : run.queries s.db = [])
    (hstep : historyStep s run = some t) :
    t.db = s.db ∧ ∃ record, t.runs = s.runs ++ [record] ∧ record.written = [] := by
  obtain ⟨written, hruns, hwritten, hdb⟩ := historyStep_spec hstep
  rw [hqueries, List.sublist_nil] at hwritten
  rw [hwritten] at hdb
  exact ⟨(Option.some.inj hdb).symm, _, hruns, hwritten⟩

/-- While the heads stay where they are, two full node runs and a solidity run, in this
    order and among any others, bring the importers to rest. -/
theorem history_caughtUp (chain : Blockchain) {s t : History} {runs : List ImportRun}
    {c c' : Bool} (hmirrors : Mirrors chain v s.db) (hfits : v.Fits)
    (hcount : v.Countable heads)
    (hfollows : Lib.Along historyStep (fun s run => run.FollowsAt chain heads s.db) s runs)
    (hrun : Lib.runFrom historyStep s runs = some t)
    (hruns : [.full heads.fullNodeBlock.toInt c, .full heads.fullNodeBlock.toInt c',
      .solidity heads.fullNodeBlock.toInt heads.solidityBlock.toInt].Sublist
        (Lib.observations historyStep (fun s run => run.observed s.db) s runs)) :
    ∃ rest : View, Mirrors chain rest t.db ∧ rest.CaughtUp heads ∧ ∀ later u,
      Lib.Along historyStep (fun s run => run.FollowsAt chain heads s.db) t later →
      Lib.runFrom historyStep t later = some u → u.db = t.db ∧
        ∃ records, u.runs = t.runs ++ records ∧ ∀ record ∈ records, record.written = [] := by
  obtain ⟨hrest, hrestfits⟩ := Lib.simulation_along (R := fun v s => Mirrors chain v s.db ∧ v.Fits)
    (C := fun s run => run.FollowsAt chain heads s.db)
    (fun _ _ _ _ h hC => mirrors_step h hC.1) ⟨hmirrors, hfits⟩ hfollows hrun
  have hcaught := View.caughtUp_foldl
    (Lib.forall_observations (fun _ _ => ImportRun.FollowsAt.told) hfollows) hruns hcount
  refine ⟨_, hrest, hcaught, fun later u hlater hu => ?_⟩
  refine Lib.invariant_along (I := fun s => s.db = t.db ∧
    ∃ records, s.runs = t.runs ++ records ∧ ∀ record ∈ records, record.written = [])
    ?_ t u later ⟨rfl, [], (List.append_nil _).symm, fun _ h => absurd h List.not_mem_nil⟩
    hlater hu
  rintro s run s' ⟨hdb, records, hrecords, hquiet⟩ hC hstep
  rw [hdb] at hC
  obtain ⟨hdb', record, hrecord, hwritten⟩ :=
    historyStep_quiet (hdb ▸ queries_caughtUp hrest hrestfits hcaught hC) hstep
  refine ⟨hdb'.trans hdb, records ++ [record], ?_, ?_⟩
  · rw [hrecord, hrecords, List.append_assoc]
  · intro r hr
    rcases List.mem_append.mp hr with hr | hr
    · exact hquiet r hr
    · rwa [List.mem_singleton.mp hr]

end Runs

/-- From nothing, with a second full node run that has nothing to read. -/
def transferRuns : List ImportRun :=
  [fullRun Database.empty, fullRun fullRunDatabase, solidityRun fullRunDatabase]

/-- The history after the runs. -/
def restingHistory : History :=
  (Lib.runFrom (@historyStep exampleCodec) History.empty transferRuns).getD History.empty

/-- One more run from there. -/
theorem history_caughtUp_transfer : ∃ (rest : View) (u : History),
    Lib.runFrom (@historyStep exampleCodec) History.empty transferRuns = some restingHistory ∧
    Lib.runFrom (@historyStep exampleCodec) restingHistory [fullRun restingHistory.db] = some u ∧
    @Mirrors exampleCodec transferChain rest restingHistory.db ∧ rest.CaughtUp transferHeads ∧
    u.db = restingHistory.db := by
  let _ := exampleCodec
  have hfollows : Lib.Along historyStep
      (fun s run => run.FollowsAt transferChain transferHeads s.db) History.empty transferRuns := by
    refine ⟨⟨fullRun_follows (by decide), rfl⟩, fun t ht => ?_⟩
    cases ht
    refine ⟨⟨fullRun_follows (by decide), rfl⟩, fun t ht => ?_⟩
    cases ht
    exact ⟨⟨solidityRun_follows (by decide), rfl⟩, fun _ _ => trivial⟩
  have hlater : Lib.Along historyStep
      (fun s run => run.FollowsAt transferChain transferHeads s.db) restingHistory
      [fullRun restingHistory.db] :=
    ⟨⟨fullRun_follows (by decide), rfl⟩, fun _ _ => trivial⟩
  obtain ⟨rest, hmirrors, hrest, hquiet⟩ :=
    history_caughtUp transferChain mirrors_empty View.fits_empty (by decide) hfollows rfl (.refl _)
  exact ⟨rest, _, rfl, rfl, hmirrors, hrest, (hquiet _ _ hlater rfl).1⟩

end Tronscan
