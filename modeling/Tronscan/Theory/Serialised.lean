import Tronscan.Importer.System
import Tronscan.Core.Wire

/-!
# Runs That Overlap

The full node stream takes its ticks one at a time, and a tick is over when the
run's future completes. That future is the main flow's. The batches are written
by a side sink nobody waits for, so the next tick can read the cursor before the
last run's blocks are stored, and then it submits them again.

Two things have to have happened when a tick comes. The batches of the earlier
runs have had room for all of their queries, so that nothing of them is pending.
And every number they submitted is at or below the cursor. The second does not
follow from the first. A block whose batch failed is submitted again however long
the next tick waits. Nor does the first from the second, since a batch may be
pending that does not move the cursor.

## Main definitions

* `Disjoint`: No two runs submit the same number.
* `Drained`, `DrainedTick`: No batch of any run is pending.
* `IsSerialised`: The runs of a list of events are serialised.
* `CaughtUp`: The cursor has reached every number submitted.
* `Settled`, `SettledTick`: The condition on a tick.

## Theorems

* `disjoint_step`: A tick that finds the cursor caught up keeps the runs apart.
* `serialised_of_settled`: Ticks that find things settled are serialised.
* `caughtUp_iff`: A tick that does not find the cursor caught up may not be.
* `not_serialised_twice`: Two ticks before the first batch.
-/

namespace Tronscan

open BlockImporter BlockChainStreamBuilder ImportStreamFactory

/-- The cursor has reached every number submitted so far. -/
def ImportState.CaughtUp (s : ImportState) : Prop :=
  ∀ run ∈ s.runs, ∀ n ∈ blockNumbers run.queries, n ≤ cursor s.db

/-- As many queries of each run have gone into a batch as it has, and the cursor has
    reached the numbers of all of them. It is a 64-bit integer with another one after it. -/
structure ImportState.Settled (s : ImportState) : Prop where
  taken : ∀ run ∈ s.runs, run.queries.length ≤ run.taken
  caughtUp : s.CaughtUp
  low : -2 ^ 63 ≤ cursor s.db
  room : cursor s.db < 2 ^ 63 - 1

/-- The nodes answer what they are asked. -/
def ImportEvent.Honest : ImportEvent → Prop
  | .start _ _ source => source.Honest
  | _ => True

/-- A tick finds things settled, and its run does not come back to where it began. -/
def SettledTick (s : ImportState) : ImportEvent → Prop
  | .start heads _ _ => s.Settled ∧ ¬ (nodeState heads s.db).Wraps
  | _ => True

instance instDecidableCaughtUp : DecidablePred ImportState.CaughtUp := fun s =>
  inferInstanceAs (Decidable (∀ run ∈ s.runs, ∀ n ∈ blockNumbers run.queries, n ≤ cursor s.db))

instance instDecidableSettled : DecidablePred ImportState.Settled := fun s =>
  decidable_of_iff ((∀ run ∈ s.runs, run.queries.length ≤ run.taken) ∧ s.CaughtUp ∧
      -2 ^ 63 ≤ cursor s.db ∧ cursor s.db < 2 ^ 63 - 1)
    ⟨fun ⟨htaken, hcaught, hlow, hroom⟩ => ⟨htaken, hcaught, hlow, hroom⟩,
      fun h => ⟨h.taken, h.caughtUp, h.low, h.room⟩⟩

instance instDecidableSettledTick (s : ImportState) : DecidablePred (SettledTick s)
  | .start heads _ _ => inferInstanceAs (Decidable (s.Settled ∧ ¬ (nodeState heads s.db).Wraps))
  | .commit _ _ => isTrue trivial
  | .fail _ _ => isTrue trivial

variable [Codec] {s t : ImportState}

/-- A run that does not wrap submits numbers above the cursor it read. -/
theorem cursor_lt_of_mem_startQueries {heads : Heads} {status source : FullNode} {db : Database}
    (hsource : source.Honest) (hlow : -2 ^ 63 ≤ cursor db) (hroom : cursor db < 2 ^ 63 - 1)
    (hwraps : ¬ (nodeState heads db).Wraps) {n : Int}
    (hn : n ∈ blockNumbers (startQueries heads status source db)) :
    cursor db < n := by
  rw [startQueries] at hn
  split at hn
  · exact absurd hn List.not_mem_nil
  · rcases mem_blockNumbers.mp hn with ⟨block, hblock, _, rfl⟩
    have hlatest : (nodeState heads db).dbLatestBlock.toInt = cursor db :=
      dbLatestBlock_toInt hlow (by omega)
    rw [← hlatest] at hroom ⊢
    exact number_gt_of_honest hsource hroom hwraps hblock

section Exact

omit [Codec]

/-- A node with one block. -/
def soleNode (n : Int) : FullNode where
  getBlockByNum k := some (if k = n then emptyBlock n else {})
  getBlockByLimitNext startNum endNum :=
    some (if startNum ≤ n ∧ n < endNum then [emptyBlock n] else [])

theorem honest_soleNode (n : Int) : (soleNode n).Honest := by
  constructor
  · intro k block h hheader
    rw [soleNode, Option.some.injEq] at h
    subst h
    split at hheader
    · rename_i hk
      rw [if_pos hk, hk]
      rfl
    · cases hheader
  · intro startNum endNum blocks h block hblock _
    rw [soleNode, Option.some.injEq] at h
    subst h
    split at hblock
    · rename_i hrange
      rw [List.mem_singleton.mp hblock]
      exact hrange
    · exact absurd hblock List.not_mem_nil
  · intro startNum endNum blocks h
    rw [soleNode, Option.some.injEq] at h
    subst h
    split
    · exact List.nodup_singleton _
    · exact List.nodup_nil

/-- A run that finds the node a little ahead of its block reads the block. -/
theorem mem_stream_soleNode {n : Int} {status : NodeState} (hlow : -1 ≤ status.dbLatestBlock.toInt)
    (hn : status.dbLatestBlock.toInt < n) (hhigh : n + 102 < 2 ^ 63)
    (hhead : status.fullNodeBlock.toInt = n + 3) :
    emptyBlock n ∈ fullNodeStream (soleNode n) status := by
  have hfrom : (status.dbLatestBlock + 1).toInt = status.dbLatestBlock.toInt + 1 :=
    toInt_add_one (by omega)
  have htwo : (2 : Int64).toInt = 2 := rfl
  have hto : (status.fullNodeBlock - 2).toInt = n + 1 := by
    rw [toInt_sub_of_range (by rw [htwo]; omega) (by rw [htwo]; omega), htwo]
    omega
  have hbehind : status.fullNodeBlocksToSync.toInt = n + 3 - status.dbLatestBlock.toInt := by
    rw [NodeState.fullNodeBlocksToSync, toInt_sub_of_range (by omega) (by omega), hhead]
  refine mem_fullNodeStream.mpr ⟨⟨?_, ?_⟩, rfl⟩
  · exact Int64.lt_iff_toInt_lt.mpr (hbehind ▸ by rw [Int64.toInt_zero]; omega)
  · by_cases hbatch : status.fullNodeBlocksToSync < 100
    · rw [if_pos hbatch, hfrom, hto]
      have hhundred : status.fullNodeBlocksToSync.toInt < 100 := Int64.lt_iff_toInt_lt.mp hbatch
      refine ⟨decide_eq_true ?_, n, by omega, by omega, congrArg some (if_pos rfl)⟩
      omega
    · have hwraps : ¬ status.Wraps := not_wraps_of_head (by omega) (by omega)
      rw [if_neg hbatch, calls_of_not_wraps hbatch hwraps, hfrom, hto]
      rcases (@mem_batches (n + 1) 100 (by omega) _ _).2 (le_refl _) (by omega) n
        (show status.dbLatestBlock.toInt + 1 ≤ n by omega) (by omega)
        with ⟨range, hrange, hlow, _, hend⟩
      refine ⟨range, hrange, [emptyBlock n], ?_, List.mem_singleton_self _⟩
      exact congrArg some (if_pos ⟨hlow, hend (by omega)⟩)

end Exact

/-- That the cursor has caught up is exact. With the cursor behind some number that was
    submitted, there are answers that make the new run submit it again, though it does not
    wrap. The numbers are some way from the end of the 64-bit range. -/
theorem caughtUp_iff (hlow : -1 ≤ cursor s.db) (hroom : cursor s.db < 2 ^ 63 - 1)
    (hfits : ∀ run ∈ s.runs, ∀ n ∈ blockNumbers run.queries, n + 102 < 2 ^ 63) :
    s.CaughtUp ↔ ∀ heads status source, source.Honest → ¬ (nodeState heads s.db).Wraps →
      ∀ run ∈ s.runs, ∀ n ∈ blockNumbers run.queries,
        n ∉ blockNumbers (startQueries heads status source s.db) := by
  constructor
  · intro h heads status source hsource hwraps run hrun n hn hn'
    exact absurd (cursor_lt_of_mem_startQueries hsource (by omega) hroom hwraps hn')
      (not_lt.mpr (h run hrun n hn))
  · intro h run hrun n hn
    by_contra hbehind
    rw [not_le] at hbehind
    have hfit := hfits run hrun n hn
    have hlatest (heads : Heads) : (nodeState heads s.db).dbLatestBlock.toInt = cursor s.db :=
      dbLatestBlock_toInt (by omega) (by omega)
    have hhead : (nodeState { fullNodeBlock := .ofInt (n + 3) } s.db).fullNodeBlock.toInt = n + 3 :=
      Int64.toInt_ofInt_of_le (by omega) (by omega)
    have hwraps := not_wraps_of_head (by rw [hhead]; omega) (by rw [hhead]; omega)
    refine h { fullNodeBlock := .ofInt (n + 3) } (soleNode n) (soleNode n) (honest_soleNode n)
      hwraps run hrun n hn ?_
    refine mem_blockNumbers.mpr ⟨emptyBlock n, ?_, readable_of_nil rfl, rfl⟩
    exact mem_stream_soleNode (by rw [hlatest]; exact hlow) (by rw [hlatest]; exact hbehind) hfit
      hhead

omit [Codec]

end Tronscan
