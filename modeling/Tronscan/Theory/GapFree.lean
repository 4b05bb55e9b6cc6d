import Tronscan.Importer.System
import Tronscan.Core.Wire
import Tronscan.Lib.Cursor

/-!
# The Imported Chain Has No Gaps

A run starts after the highest number in the database and never looks back. So
the numbers in the table have to be an interval from zero at all times. If a
number is missing from what a run reads while a later one is there, it stays
missing.

What a run reads is up to the nodes. A number they answer without a header, or
leave out of a range, is skipped without a word, and so is a block the importer
cannot read. `Gapless` is the condition on the answers. If a number is answered
with a block that can be read, then so is every number asked for below it, and
the run does not wrap. For a run that does not it is the exact condition:
`consecutive_iff_gapless` shows that an honest node's blocks count up from the
cursor under it, and not otherwise.

The invariant of the system is about what is still to come as well. The table is
filled up to some number, and the blocks a run has yet to insert count up from
a number that is at most the next.

## Main definitions

* `Gapless`: No number is skipped.
* `FilledUpTo`: The invariant.

## Theorems

* `stream_sorted`: An honest node's blocks come in ascending order.
* `consecutive_iff_gapless`: The condition for one run is exact.
* `filledUpTo_step`: Each event keeps the invariant.
* `filled_of_gapless`: The table is an interval in every state of a run whose
  ticks are gapless.
* `gapless_of_filled`: And only then: if a run that can commit leaves the table
  an interval wherever its queries are cut, it skips no number.
* `not_gapFree_skipped`: One block answered without a header leaves a hole.
-/

namespace Tronscan

open BlockImporter BlockChainStreamBuilder ImportStreamFactory

variable [Codec]

/-- The number is answered with a block that has a header and can be read. -/
def FullNode.Has (source : FullNode) (status : NodeState) (n : Int) : Prop :=
  ∃ block, source.Answers status block ∧ block.blockHeader.isSome = true ∧ block.Readable ∧
    block.number = n

/-- No number is skipped: with a number, the nodes answer every number between it and
    the cursor. It is above the cursor, unless that is the last 64-bit integer, and the run
    does not come back to where it began. -/
def Gapless (source : FullNode) (status : NodeState) : Prop :=
  ∀ n, source.Has status n → ¬ status.Wraps ∧ status.dbLatestBlock.toInt < n ∧
    ∀ k, status.dbLatestBlock.toInt < k → k < n → source.Has status k

section Stream

variable {source : FullNode} {status : NodeState} {block : Block}

omit [Codec] in
/-- Each range ends where the later ones have yet to start. -/
theorem batches_pairwise {toBlock batchSize : Int} (hsize : 0 < batchSize) (fuel : Nat)
    (prev : Int) : (batches toBlock batchSize fuel prev).Pairwise fun r r' => r.2 ≤ r'.1 := by
  induction fuel generalizing prev with
  | zero => exact List.Pairwise.nil
  | succ fuel ih =>
      rw [batches]
      split
      · exact List.pairwise_cons.mpr
          ⟨fun range hrange => ((mem_batches hsize fuel _).1 range hrange).1, ih _⟩
      · exact List.Pairwise.nil

omit [Codec] in
theorem range_pairwise_lt (a b : Int) : (Int.range a b).Pairwise (· < ·) := by
  rw [Int.range, List.pairwise_map]
  exact List.pairwise_lt_range.imp fun h => by omega

omit [Codec] in
theorem readBlocks_sorted {fromBlock toBlock : Int} {getBlockByNum : Int → Option Block}
    (hnumber : ∀ n block, getBlockByNum n = some block → block.blockHeader.isSome = true →
      block.number = n) :
    ((readBlocks fromBlock toBlock getBlockByNum).map Block.number).Pairwise (· < ·) := by
  rw [readBlocks, List.pairwise_map, List.pairwise_filter, List.pairwise_filterMap]
  refine (range_pairwise_lt _ _).imp fun {n k} hlt block hblock block' hblock' hheader hheader' => ?_
  rw [hnumber n block hblock hheader, hnumber k block' hblock' hheader']
  exact hlt

omit [Codec] in
/-- What is passed on of one range is in ascending order. -/
theorem sorted_of_distinct {blocks : List Block} (hdistinct : (blocks.map Block.number).Nodup) :
    ((blocks.insertionSort (·.number ≤ ·.number)).map Block.number).Pairwise (· < ·) := by
  have hle := List.pairwise_insertionSort (fun a b : Block => a.number ≤ b.number) blocks
  have hnodup : ((blocks.insertionSort (·.number ≤ ·.number)).map Block.number).Nodup :=
    ((List.perm_insertionSort _ blocks).map Block.number).nodup_iff.mpr hdistinct
  rw [List.Nodup, List.pairwise_map] at hnodup
  rw [List.pairwise_map]
  exact hle.imp₂ (fun _ _ h hne => lt_of_le_of_ne h hne) hnodup

omit [Codec] in
theorem readFullNodeBlocksBatched_sorted (hsource : source.Honest) {fromBlock toBlock : Int} :
    ((readFullNodeBlocksBatched fromBlock toBlock 100 source).map Block.number).Pairwise
      (· < ·) := by
  rw [readFullNodeBlocksBatched, readRanges, List.map_flatMap, List.pairwise_flatMap]
  constructor
  · -- Within a range the blocks are sorted.
    intro blocks hblocks
    rcases List.mem_filterMap.mp hblocks with ⟨range, _, hblocks⟩
    exact sorted_of_distinct (hsource.distinct _ _ blocks hblocks)
  · -- From one range to a later one, the end of the first lies between.
    rw [List.pairwise_filterMap]
    refine (batches_pairwise (by omega) _ _).imp fun {r r'} hle blocks hblocks blocks' hblocks' => ?_
    intro n hn k hk
    rcases List.mem_map.mp hn with ⟨block, hblock, rfl⟩
    rcases List.mem_map.mp hk with ⟨block', hblock', rfl⟩
    rw [List.mem_insertionSort, List.mem_filter] at hblock hblock'
    have hlow := (hsource.byLimit _ _ blocks hblocks block hblock.1 hblock.2).2
    have hhigh := (hsource.byLimit _ _ blocks' hblocks' block' hblock'.1 hblock'.2).1
    omega

omit [Codec] in
/-- The blocks of an honest node come in ascending order, in a run that does not wrap. -/
theorem stream_sorted (hsource : source.Honest) (hwraps : ¬ status.Wraps) :
    ((fullNodeStream source status).map Block.number).Pairwise (· < ·) := by
  rw [fullNodeStream]
  by_cases hsync : fullNodePreSynchronisationChecker status = true
  · rw [if_pos hsync]
    by_cases hbatch : status.fullNodeBlocksToSync < 100
    · rw [buildBlockSource, if_pos hbatch]
      split
      · exact readBlocks_sorted hsource.byNum
      · exact List.Pairwise.nil
    · rw [buildBlockSource_of_not_wraps hbatch hwraps]
      exact readFullNodeBlocksBatched_sorted hsource
  · rw [if_neg hsync]
    exact List.Pairwise.nil

/-- What a run inserts are numbers of its blocks, in their order. -/
theorem blockNumbers_sublist (c : Bool) (blocks : List Block) :
    (blockNumbers (fullNodeQueries c blocks)).Sublist (blocks.map Block.number) := by
  induction blocks with
  | nil => exact List.Sublist.refl _
  | cons block blocks ih =>
      rw [fullNodeQueries, List.flatMap_cons, blockNumbers_append, List.map_cons,
        ← List.singleton_append (l := blocks.map Block.number)]
      refine List.Sublist.append ?_ ih
      rw [fullNodeBlockQueries_eq]
      cases he : extract block with
      | error e => exact List.nil_sublist _
      | ok e =>
          have hrows : blockNumbers (e.fullNodeQueries c) = [block.number] := by
            rw [blockNumbers, (e.fullNodeQueries_rows c).1, List.map_singleton,
              (extract_sound he).block_eq]
            rfl
          exact (congrArg (List.Sublist · _) hrows).mpr (List.Sublist.refl _)

/-- What a run inserts are the numbers it is answered with a block it can read. -/
theorem mem_blockNumbers_stream (c : Bool) {n : Int} :
    n ∈ blockNumbers (fullNodeQueries c (fullNodeStream source status)) ↔ source.Has status n := by
  rw [mem_blockNumbers]
  refine exists_congr fun block => ?_
  rw [mem_fullNodeStream, and_assoc]

/-- What a run inserts counts up from the cursor when no number is skipped. -/
theorem consecutive_of_gapless (hsource : source.Honest) (c : Bool) (h : Gapless source status) :
    Lib.Consecutive (status.dbLatestBlock.toInt + 1)
      (blockNumbers (fullNodeQueries c (fullNodeStream source status))) := by
  by_cases hwraps : status.Wraps
  · -- A run that wraps has nothing to insert.
    have hnil : blockNumbers (fullNodeQueries c (fullNodeStream source status)) = [] :=
      List.eq_nil_iff_forall_not_mem.mpr fun n hn =>
        (h n ((mem_blockNumbers_stream c).mp hn)).1 hwraps
    rw [hnil]
    trivial
  · refine Lib.consecutive_of_downward ((stream_sorted hsource hwraps).sublist
      (blockNumbers_sublist c _)) (fun n hn => (h n ((mem_blockNumbers_stream c).mp hn)).2.1) ?_
    exact fun n hn k hk hkn => (mem_blockNumbers_stream c).mpr
      ((h n ((mem_blockNumbers_stream c).mp hn)).2.2 k hk hkn)

/-- For an honest node and a run that does not wrap the condition is exact: what the run
    inserts counts up from the cursor when no number is skipped, and only then. -/
theorem consecutive_iff_gapless (hsource : source.Honest) (hwraps : ¬ status.Wraps) (c : Bool) :
    Lib.Consecutive (status.dbLatestBlock.toInt + 1)
        (blockNumbers (fullNodeQueries c (fullNodeStream source status))) ↔
      Gapless source status := by
  refine ⟨fun h n hn => ?_, consecutive_of_gapless hsource c⟩
  have hn := (mem_blockNumbers_stream c).mpr hn
  refine ⟨hwraps, ((Lib.mem_consecutive h).mp hn).1, fun k hk hkn => ?_⟩
  exact (mem_blockNumbers_stream c).mp (Lib.downward_of_consecutive h n hn k hk hkn)

end Stream

/-- The table is filled up to `m`, and what each run has yet to insert counts up
    from a number that is at most the next. -/
structure FilledUpTo (s : ImportState) (m : Int) : Prop where
  stored : storedNumbers s.db = Set.Icc 0 m
  low : -1 ≤ m
  high : m < 2 ^ 63
  imports : ∀ run ∈ s.runs, ∀ q ∈ run.queries, q.isImport = true
  fits : ∀ run ∈ s.runs, ∀ n ∈ blockNumbers run.pending, n < 2 ^ 63
  rest : ∀ run ∈ s.runs, ∃ a, 0 ≤ a ∧ a ≤ m + 1 ∧ Lib.Consecutive a (blockNumbers run.pending)

/-- The nodes are honest, and no batch fails. -/
def ImportEvent.Commits : ImportEvent → Prop
  | .start _ _ source => source.Honest
  | .commit _ _ => True
  | .fail _ _ => False

/-- The condition on a tick. -/
def GaplessTick (s : ImportState) : ImportEvent → Prop
  | .start heads _ source => Gapless source (nodeState heads s.db)
  | _ => True

section Invariant

variable {s t : ImportState} {m : Int}

omit [Codec] in
/-- The cursor of a filled table is its end. -/
theorem cursor_of_stored {db : Database} (hstored : storedNumbers db = Set.Icc 0 m)
    (hlow : -1 ≤ m) : cursor db = m := by
  have hmem : ∀ n, n ∈ storedNumbers db ↔ 0 ≤ n ∧ n ≤ m := by
    intro n
    rw [hstored, Set.mem_Icc]
  have hlast : m ∈ storedNumbers db → m ≤ cursor db := le_cursor
  cases hlatest : findLatest db with
  | none =>
      -- An empty table is filled up to -1.
      have hblocks : db.blocks = [] := Lib.highest_eq_none.mp hlatest
      have hout : m ∉ storedNumbers db := by
        rintro ⟨row, hrow, _⟩
        rw [hblocks] at hrow
        exact absurd hrow List.not_mem_nil
      rw [hmem] at hout
      simp only [cursor, hlatest, Option.map_none, Option.getD_none]
      omega
  | some latest =>
      have hin : latest.number ∈ storedNumbers db := ⟨latest, (findLatest_spec hlatest).1, rfl⟩
      rw [hmem] at hin
      have hcursor : cursor db = latest.number := by
        simp only [cursor, hlatest, Option.map_some, Option.getD_some]
      have hm := hlast ((hmem m).mpr (by omega))
      omega

omit [Codec] in
/-- So it is what a run is told. -/
theorem dbLatestBlock_of_stored {heads : Heads} {db : Database}
    (hstored : storedNumbers db = Set.Icc 0 m) (hlow : -1 ≤ m) (hhigh : m < 2 ^ 63) :
    (nodeState heads db).dbLatestBlock.toInt = m := by
  have hcursor := cursor_of_stored hstored hlow
  rw [dbLatestBlock_toInt (by omega) (by omega), hcursor]

/-- What a run submits are 64-bit integers. -/
theorem lt_of_mem_startQueries {heads : Heads} {status source : FullNode} {db : Database}
    (hsource : source.Honest) {n : Int}
    (hn : n ∈ blockNumbers (startQueries heads status source db)) : n < 2 ^ 63 := by
  rw [startQueries] at hn
  split at hn
  · exact absurd hn List.not_mem_nil
  · rcases mem_blockNumbers.mp hn with ⟨block, hblock, _, rfl⟩
    exact number_lt_of_honest hsource hblock

/-- A tick appends a run whose blocks follow the table's end. -/
theorem filledUpTo_start {heads : Heads} {status source : FullNode} (hI : FilledUpTo s m)
    (hsource : source.Honest) (hgap : Gapless source (nodeState heads s.db)) :
    FilledUpTo { s with runs := s.runs ++ [⟨startQueries heads status source s.db, 0⟩] } m := by
  have hcursor : (nodeState heads s.db).dbLatestBlock.toInt = m :=
    dbLatestBlock_of_stored hI.stored hI.low hI.high
  -- A run that cannot be set up submits nothing.
  have hnew : Lib.Consecutive (m + 1) (blockNumbers (startQueries heads status source s.db)) := by
    rw [startQueries]
    split
    · trivial
    · rw [← hcursor]
      exact consecutive_of_gapless hsource _ hgap
  have hlow := hI.low
  constructor
  · exact hI.stored
  · exact hI.low
  · exact hI.high
  · intro run hrun
    rcases List.mem_append.mp hrun with hrun | hrun
    · exact hI.imports run hrun
    · rw [List.mem_singleton.mp hrun]
      exact isImport_startQueries
  · intro run hrun
    rcases List.mem_append.mp hrun with hrun | hrun
    · exact hI.fits run hrun
    · rw [List.mem_singleton.mp hrun]
      exact fun n => lt_of_mem_startQueries hsource
  · intro run hrun
    rcases List.mem_append.mp hrun with hrun | hrun
    · exact hI.rest run hrun
    · rw [List.mem_singleton.mp hrun]
      exact ⟨m + 1, by omega, le_refl _, hnew⟩

omit [Codec] in
/-- A batch that commits fills the table further. Its numbers are new, so they
    start right after the end, unless it has none. -/
theorem filledUpTo_commit {i size : Nat} {run : FullNodeRun} (hI : FilledUpTo s m)
    (hrun : s.runs[i]? = some run) (hexec : execQueries (run.batch size) s.db = some t.db)
    (hruns : t.runs = s.runs.set i (run.take size)) :
    FilledUpTo t (m + (blockNumbers (run.batch size)).length) := by
  have hmem : run ∈ s.runs := List.mem_of_getElem? hrun
  have himport : ∀ q ∈ run.batch size, q.isImport = true := fun q hq =>
    hI.imports run hmem q (List.mem_of_mem_drop (List.mem_of_mem_take hq))
  rcases exec_batch himport hexec with ⟨hstored, hnew⟩
  rcases hI.rest run hmem with ⟨a, ha0, ham, hcons⟩
  have hfits := hI.fits run hmem
  rw [← batch_append_pending run size, blockNumbers_append] at hcons hfits
  rw [Lib.consecutive_append] at hcons
  have hlow := hI.low
  -- Its first number is new, so the run has not been overtaken.
  have hstart : blockNumbers (run.batch size) ≠ [] → a = m + 1 := by
    intro hne
    rcases List.exists_cons_of_ne_nil hne with ⟨n, ns, hns⟩
    have hfirst : n = a := by
      rw [hns] at hcons
      exact hcons.1.1
    have hout := hnew n (by rw [hns]; exact List.mem_cons_self)
    rw [hI.stored, Set.mem_Icc] at hout
    omega
  constructor
  · rw [hstored]
    by_cases hne : blockNumbers (run.batch size) = []
    · -- A batch may be all transactions and contracts.
      rw [hne, List.length_nil, Nat.cast_zero, add_zero, hI.stored]
      simp only [List.not_mem_nil, Set.ofPred_false, Set.union_empty]
    · exact Lib.filled_append hI.stored hI.low (hstart hne ▸ hcons.1)
  · omega
  · -- The end of the table is the last number of the batch.
    by_cases hne : blockNumbers (run.batch size) = []
    · rw [hne, List.length_nil, Nat.cast_zero, add_zero]
      exact hI.high
    · have hlength := List.length_pos_iff.mpr hne
      refine hfits _ (List.mem_append_left _ ((Lib.mem_consecutive hcons.1).mpr ?_))
      have ha := hstart hne
      omega
  · intro r hr
    rw [hruns] at hr
    rcases List.mem_or_eq_of_mem_set hr with hr | rfl
    · exact hI.imports r hr
    · exact hI.imports run hmem
  · intro r hr
    rw [hruns] at hr
    rcases List.mem_or_eq_of_mem_set hr with hr | rfl
    · exact hI.fits r hr
    · exact fun n hn => hfits n (List.mem_append_right _ hn)
  · intro r hr
    rw [hruns] at hr
    rcases List.mem_or_eq_of_mem_set hr with hr | rfl
    · rcases hI.rest r hr with ⟨b, hb0, hbm, hb⟩
      exact ⟨b, hb0, by omega, hb⟩
    · exact ⟨_, by omega, by omega, hcons.2⟩

theorem filledUpTo_step {e : ImportEvent} (hI : ∃ m, FilledUpTo s m)
    (he : GaplessTick s e ∧ e.Commits) (h : importStep s e = some t) : ∃ m, FilledUpTo t m := by
  rcases hI with ⟨m, hI⟩
  cases e with
  | start heads status source =>
      rw [importStep_start h]
      exact ⟨m, filledUpTo_start hI he.2 he.1⟩
  | commit i size =>
      rcases importStep_commit h with ⟨run, hrun, _, hexec, hruns⟩
      exact ⟨_, filledUpTo_commit hI hrun hexec hruns⟩
  | fail i size => exact absurd he.2 id

end Invariant

/-- From an empty table, through any sequence of ticks and commits, runs
    overlapping as they like: if no tick's answers skip a number, the block
    numbers in the table are an interval from zero in every state. -/
theorem filled_of_gapless {db : Database} (hempty : db.blocks = []) {s : ImportState}
    {events : List ImportEvent} (hcommits : ∀ e ∈ events, e.Commits)
    (hgapless : Lib.Along importStep GaplessTick ⟨db, []⟩ events)
    (hrun : Lib.runFrom importStep ⟨db, []⟩ events = some s) :
    Lib.Filled (storedNumbers s.db) := by
  have hinit : ∃ m, FilledUpTo ⟨db, []⟩ m := by
    refine ⟨-1, ?_, le_refl _, by decide, fun _ h => absurd h List.not_mem_nil,
      fun _ h => absurd h List.not_mem_nil, fun _ h => absurd h List.not_mem_nil⟩
    ext n
    simp only [storedNumbers, HasBlock, hempty, List.not_mem_nil, false_and, exists_false,
      Set.mem_ofPred_eq, Set.mem_Icc, false_iff, not_and]
    omega
  rcases Lib.invariant_along (fun _ _ _ => filledUpTo_step) _ s events hinit
    (Lib.along_and _ events hgapless (Lib.along_of_forall _ events hcommits)) hrun with ⟨m, hI⟩
  exact ⟨m, hI.stored⟩

/-- The condition cannot be weakened for a run that does not wrap. Where its queries can
    all execute, and every cut leaves the table an interval, the run skipped no number. -/
theorem gapless_of_filled {db : Database} {m : Int} (hstored : storedNumbers db = Set.Icc 0 m)
    (hlow : -1 ≤ m) (hhigh : m < 2 ^ 63) {heads : Heads} {source : FullNode}
    (hsource : source.Honest) (hwraps : ¬ (nodeState heads db).Wraps) (c : Bool)
    {qs : List Query} (hqs : qs = fullNodeQueries c (fullNodeStream source (nodeState heads db)))
    {last : Database} (hexec : execQueries qs db = some last)
    (hfilled : ∀ xs ys db', qs = xs ++ ys → execQueries xs db = some db' →
      Lib.Filled (storedNumbers db')) :
    Gapless source (nodeState heads db) := by
  have himport : ∀ q ∈ qs, q.isImport = true := hqs ▸ isImport_fullNodeQueries
  rcases exec_batch himport hexec with ⟨_, hnew⟩
  have hnodup : (blockNumbers qs).Nodup := by
    rw [hqs]
    exact ((stream_sorted hsource hwraps).sublist (blockNumbers_sublist c _)).imp
      fun h => ne_of_lt h
  rw [← consecutive_iff_gapless hsource hwraps c, dbLatestBlock_of_stored hstored hlow hhigh,
    ← hqs]
  refine Lib.consecutive_of_filled hstored hlow hnew hnodup fun ns ks hsplit => ?_
  -- A prefix of the numbers is what a prefix of the queries inserts.
  rcases List.map_eq_append_iff.mp hsplit with ⟨rows, rows', hrows, rfl, rfl⟩
  rcases List.filterMap_eq_append_iff.mp hrows with ⟨xs, ys, hxys, rfl, rfl⟩
  rcases Lib.execAll_append_some.mp (hxys ▸ hexec) with ⟨db', hprefix, _⟩
  have hxs := exec_batch (fun q hq => himport q (hxys ▸ List.mem_append_left ys hq)) hprefix
  rw [← blockNumbers, ← hxs.1]
  exact hfilled xs ys db' hxys hprefix

/-- The property as one would like to have it, with no condition on the ticks. -/
def GapFree : Prop :=
  ∀ (db : Database) (events : List ImportEvent) (s : ImportState), db.blocks = [] →
    (∀ e ∈ events, e.Commits) → Lib.runFrom importStep ⟨db, []⟩ events = some s →
    Lib.Filled (storedNumbers s.db)

omit [Codec]

/-- A node that answers one number, and no other, without a header. -/
def laggingNode (missing : Int) : FullNode where
  getBlockByNum n := some (if n = missing then {} else emptyBlock n)
  getBlockByLimitNext _ _ := none

theorem honest_laggingNode (missing : Int) : (laggingNode missing).Honest := by
  constructor
  · intro n block h hheader
    rw [laggingNode, Option.some.injEq] at h
    subst h
    split at hheader
    · cases hheader
    · rename_i hn
      rw [if_neg hn]
      rfl
  · intro _ _ _ h
    cases h
  · intro _ _ _ h
    cases h

/-- One tick with the full node at 5, and one batch. -/
def laggingEvents (missing : Int) : List ImportEvent :=
  [.start { fullNodeBlock := 5 } (laggingNode missing) (laggingNode missing), .commit 0 1000]

theorem commits_laggingEvents (missing : Int) : ∀ e ∈ laggingEvents missing, e.Commits := by
  intro e he
  rcases List.mem_cons.mp he with rfl | he
  · exact honest_laggingNode missing
  · rw [List.mem_singleton.mp he]
    trivial

/-- Missing the last block of the range is no gap. -/
theorem gapless_laggingNode {heads : Heads} (hheads : heads.fullNodeBlock = 5) :
    @Gapless exampleCodec (laggingNode 3) (nodeState heads Database.empty) := by
  have hhead : (nodeState heads Database.empty).fullNodeBlock = 5 := hheads
  have hlatest : (nodeState heads Database.empty).dbLatestBlock = -1 := rfl
  have hsingle : (nodeState heads Database.empty).fullNodeBlocksToSync < 100 := by
    rw [NodeState.fullNodeBlocksToSync, hhead, hlatest]
    decide
  rintro n ⟨block, hanswers, hheader, _, rfl⟩
  rw [FullNode.Answers, if_pos hsingle] at hanswers
  rcases hanswers with ⟨hsync, hcount, n, hfrom, hto, hn⟩
  have hnumber := (honest_laggingNode 3).byNum n block hn hheader
  rw [hlatest] at hfrom
  rw [hlatest, hnumber]
  refine ⟨fun hwraps => hwraps.1 hsingle, Int.lt_of_add_one_le hfrom, fun k hk hkn => ?_⟩
  have hk3 : k ≠ 3 := by
    rw [hhead] at hto
    exact ne_of_lt (lt_of_lt_of_le hkn hto)
  refine ⟨emptyBlock k, ?_, rfl, @readable_of_nil exampleCodec _ rfl, rfl⟩
  rw [FullNode.Answers, if_pos hsingle]
  exact ⟨hsync, hcount, k, by rw [hlatest]; exact Int.add_one_le_of_lt hk, hkn.le.trans hto,
    congrArg some (if_neg hk3)⟩

/-- A node that lags at the end of the range only. -/
theorem filled_of_gapless_end :
    ∃ s, Lib.runFrom (@importStep exampleCodec) ⟨Database.empty, []⟩ (laggingEvents 3) = some s ∧
      Lib.Filled (storedNumbers s.db) := by
  have hsome : (Lib.runFrom (@importStep exampleCodec) ⟨Database.empty, []⟩
      (laggingEvents 3)).isSome = true := by decide +kernel
  rcases Option.isSome_iff_exists.mp hsome with ⟨s, hrun⟩
  exact ⟨s, hrun, @filled_of_gapless exampleCodec Database.empty rfl s (laggingEvents 3)
    (commits_laggingEvents 3)
    ⟨gapless_laggingNode rfl, fun t _ => ⟨trivial, fun _ _ => trivial⟩⟩ hrun⟩

/-- Block 1 is answered without a header and the rest as it should be. The table
    ends up with 0, 2 and 3, and the next run starts at 4. -/
theorem not_gapFree_skipped : ¬ @GapFree exampleCodec := by
  intro h
  have hnumbers : (Lib.runFrom (@importStep exampleCodec) ⟨Database.empty, []⟩
      (laggingEvents 1)).map (fun s => s.db.blocks.map (·.number)) = some [0, 2, 3] := by
    decide +kernel
  rcases Option.map_eq_some_iff.mp hnumbers with ⟨s, hrun, hblocks⟩
  rcases h Database.empty (laggingEvents 1) s rfl (commits_laggingEvents 1) hrun with ⟨m, hm⟩
  have hmem : ∀ n, n ∈ [0, 2, 3] ↔ 0 ≤ n ∧ n ≤ m := by
    intro n
    rw [← hblocks, List.mem_map, ← Set.mem_Icc, ← hm]
    exact Iff.rfl
  have htwo := (hmem 2).mp (by decide)
  have hone : (1 : Int) ∈ [0, 2, 3] := (hmem 1).mpr (by omega)
  exact absurd hone (by decide)

end Tronscan
