import Tronscan.Importer.Sync

/-!
# What a Solidity Pass Asks For

The solidity run asks for the numbers from the lowest unconfirmed block up to
the solidity head or the latest block, whichever is lower. Those are the blocks
it has something to do for.

A lookup that finds nothing becomes `-1`, in the state of the run and in what is
computed from it. For the latest block that is right, since it means that there
is nothing to do. For the lowest unconfirmed block it means the contrary: with
every block confirmed, the distance to the latest block is the whole chain, and
the run asks for all of it from `-1` on.

What stands between that and the nodes is arithmetic. The distances are 64-bit
differences, which wrap, and a range of more than `Int.MaxValue` numbers throws.

## Main definitions

* `solidityRequests`: The numbers a solidity pass asks for.
* `AsksOnlyForWork`: There is work for all of them.

## Theorems

* `solidityStream_eq`: The pass reads what it asks for.
* `solidityRequests_unconfirmed`, `solidityRequests_confirmed`: What it asks for
  with and without an unconfirmed block.
* `asksOnlyForWork_iff`: When there is work for all it asks for.
* `not_asksOnlyForWork_confirmed`: A database with all blocks confirmed.
-/

namespace Tronscan

open ImportStreamFactory BlockChainStreamBuilder

/-- The numbers a solidity pass asks for, in order. -/
def solidityRequests (status : NodeState) : List Int :=
  if solidityNodePreSynchronisationChecker status &&
      isCountable status.dbUnconfirmedBlock status.soliditySyncToBlock then
    Int.range status.dbUnconfirmedBlock.toInt (status.soliditySyncToBlock.toInt + 1)
  else []

/-- A pass reads the answers to its requests, and passes on those with a header. -/
theorem solidityStream_eq (client : SolidityNode) (status : NodeState) :
    solidityStream client status =
      ((solidityRequests status).filterMap client.getBlockByNum).filter
        (·.blockHeader.isSome) := by
  rw [solidityStream, solidityRequests, buildSolidityBlockSource]
  cases solidityNodePreSynchronisationChecker status with
  | false => rfl
  | true =>
      cases isCountable status.dbUnconfirmedBlock status.soliditySyncToBlock with
      | false => rfl
      | true => rfl

/-- Every number asked for is between the lowest unconfirmed block on the one
    side and the solidity head and the latest block on the other. -/
def AsksOnlyForWork (heads : Heads) (db : Database) : Prop :=
  ∀ n ∈ solidityRequests (nodeState heads db), ∃ lowest latest,
    findLatestUnconfirmed db = some lowest ∧ findLatest db = some latest ∧
      lowest.number ≤ n ∧ n ≤ min heads.solidityBlock.toInt latest.number

/-- The number of a block is a 64-bit integer, as the column of the table has it. -/
def BlockModel.HasLongNumber (row : BlockModel) : Prop :=
  -2 ^ 63 ≤ row.number ∧ row.number < 2 ^ 63

section Requests

variable {heads : Heads} {db : Database} {n : Int}

theorem findLatest_eq_none : findLatest db = none ↔ db.blocks = [] :=
  Lib.highest_eq_none

theorem findLatestUnconfirmed_eq_none :
    findLatestUnconfirmed db = none ↔ ∀ row ∈ db.blocks, row.confirmed = true := by
  unfold findLatestUnconfirmed Lib.lowest
  rw [List.argmin_eq_none, List.filter_eq_nil_iff]
  simp only [Bool.not_eq_true', Bool.not_eq_false]

theorem mem_solidityRequests {status : NodeState} :
    n ∈ solidityRequests status ↔
      ¬ 100 < status.fullNodeBlocksToSync ∧ 0 < status.solidityBlocksToSync ∧
      min status.solidityBlock.toInt status.dbLatestBlock.toInt - status.dbUnconfirmedBlock.toInt <
        2147483647 ∧
      status.dbUnconfirmedBlock.toInt ≤ n ∧
      n ≤ min status.solidityBlock.toInt status.dbLatestBlock.toInt := by
  rw [solidityRequests, solidityNodePreSynchronisationChecker, isCountable,
    soliditySyncToBlock_toInt]
  by_cases hfar : 100 < status.fullNodeBlocksToSync
  · rw [if_pos hfar]
    exact iff_of_false List.not_mem_nil fun h => h.1 hfar
  · rw [if_neg hfar, ← Bool.decide_and]
    simp only [decide_eq_true_eq]
    split
    · rename_i hask
      rw [Int.mem_range_iff, Int.lt_add_one_iff]
      exact ⟨fun h => ⟨hfar, hask.1, hask.2, h⟩, fun h => h.2.2.2⟩
    · rename_i hask
      exact iff_of_false List.not_mem_nil fun h => hask ⟨h.2.1, h.2.2.1⟩

/-- With an unconfirmed block, a pass asks for nothing below the lowest one and
    nothing above either end. -/
theorem solidityRequests_unconfirmed (hlong : ∀ row ∈ db.blocks, row.HasLongNumber)
    {lowest : BlockModel} (hlowest : findLatestUnconfirmed db = some lowest)
    (hn : n ∈ solidityRequests (nodeState heads db)) :
    ∃ latest, findLatest db = some latest ∧ lowest.number ≤ n ∧
      n ≤ min heads.solidityBlock.toInt latest.number := by
  have hmem := List.mem_of_mem_filter (List.argmin_mem hlowest)
  rcases hlatest : findLatest db with _ | latest
  · -- An unconfirmed block is a block.
    rw [findLatest_eq_none.mp hlatest] at hmem
    exact absurd hmem List.not_mem_nil
  · have h := mem_solidityRequests.mp hn
    have hlow := hlong lowest hmem
    have hhigh := hlong latest (findLatest_spec hlatest).1
    simp only [nodeState, hlowest, hlatest, Option.map_some, Option.getD_some,
      Int64.toInt_ofInt_of_le hlow.1 hlow.2, Int64.toInt_ofInt_of_le hhigh.1 hhigh.2] at h
    exact ⟨latest, rfl, h.2.2.2⟩

/-- The distance to the sentinel, which is positive from block 0 on, and wraps at the
    last number there is. -/
theorem zero_lt_sub_sentinel {latest : Int64} :
    0 < latest - (-1) ↔ 0 ≤ latest.toInt ∧ latest.toInt < 2 ^ 63 - 1 := by
  have hlow := Int64.le_toInt latest
  have hhigh := Int64.toInt_lt latest
  have hone : latest - (-1) = latest + 1 := by grind
  rw [hone, Int64.lt_iff_toInt_lt, Int64.toInt_zero]
  by_cases hroom : latest.toInt < 2 ^ 63 - 1
  · rw [toInt_add_one hroom]
    omega
  · have hmax : latest = Int64.maxValue := by
      rw [← Int64.toInt_inj, Int64.toInt_maxValue]
      omega
    subst hmax
    decide

/-- Without one, it asks for everything from `-1` on, unless it does not start or there
    are too many numbers. -/
theorem solidityRequests_confirmed (hlong : ∀ row ∈ db.blocks, row.HasLongNumber)
    (hall : ∀ row ∈ db.blocks, row.confirmed = true) :
    n ∈ solidityRequests (nodeState heads db) ↔ ∃ latest, findLatest db = some latest ∧
      0 ≤ latest.number ∧ latest.number < 2 ^ 63 - 1 ∧
      ¬ 100 < heads.fullNodeBlock - .ofInt latest.number ∧
      min heads.solidityBlock.toInt latest.number < 2147483646 ∧
      -1 ≤ n ∧ n ≤ min heads.solidityBlock.toInt latest.number := by
  have hsentinel : (-1 : Int64).toInt = -1 := rfl
  rw [mem_solidityRequests, NodeState.fullNodeBlocksToSync, NodeState.solidityBlocksToSync]
  simp only [nodeState, findLatestUnconfirmed_eq_none.mpr hall, Option.map_none, Option.getD_none]
  rcases hlatest : findLatest db with _ | latest
  · refine iff_of_false (fun h => absurd h.2.1 (by decide)) ?_
    rintro ⟨latest, hnone, _⟩
    cases hnone
  · have hlong := hlong latest (findLatest_spec hlatest).1
    simp only [Option.map_some, Option.getD_some, Option.some.injEq, exists_eq_left',
      zero_lt_sub_sentinel, Int64.toInt_ofInt_of_le hlong.1 hlong.2, hsentinel]
    constructor
    · rintro ⟨hnear, ⟨hzero, hroom⟩, hcount, hlow, hhigh⟩
      exact ⟨hzero, hroom, hnear, by omega, hlow, hhigh⟩
    · rintro ⟨hzero, hroom, hnear, hcount, hlow, hhigh⟩
      exact ⟨hnear, ⟨hzero, hroom⟩, by omega, hlow, hhigh⟩

end Requests

/-- There is work for all that a pass asks for exactly when some block is unconfirmed, or
    no block has a number from 0 on, or the solidity head is below `-1`, or the arithmetic
    with the latest block stops the pass: the full node is more than a hundred ahead of it
    by a difference that wraps, or its number is the last there is, or there are more
    numbers up to it and the solidity head than can be counted. -/
theorem asksOnlyForWork_iff (heads : Heads) (db : Database)
    (hlong : ∀ row ∈ db.blocks, row.HasLongNumber) :
    AsksOnlyForWork heads db ↔
      (∃ row ∈ db.blocks, row.confirmed = false) ∨
      (∀ row ∈ db.blocks, row.number < 0) ∨
      heads.solidityBlock.toInt < -1 ∨
      ∃ latest, findLatest db = some latest ∧
        (100 < heads.fullNodeBlock - .ofInt latest.number ∨ latest.number = 2 ^ 63 - 1 ∨
          2147483646 ≤ min heads.solidityBlock.toInt latest.number) := by
  constructor
  · intro h
    by_contra hnot
    simp only [not_or, not_exists, not_and, Bool.not_eq_false, not_forall, not_lt] at hnot
    rcases hnot with ⟨hall, ⟨row, hrow, hrownum⟩, hsolidity, harithmetic⟩
    rcases hlatest : findLatest db with _ | latest
    · rw [findLatest_eq_none.mp hlatest] at hrow
      exact absurd hrow List.not_mem_nil
    · -- The pass asks for `-1`, and there is no unconfirmed block.
      have hbound := (findLatest_spec hlatest).2 row hrow
      have hfits := (hlong latest (findLatest_spec hlatest).1).2
      rcases harithmetic latest hlatest with ⟨hnear, hlast, hcount⟩
      rcases h (-1) ((solidityRequests_confirmed hlong hall).mpr
        ⟨latest, hlatest, by omega, by omega, hnear, by omega, le_refl _, by omega⟩)
        with ⟨lowest, _, hlowest, _⟩
      rw [findLatestUnconfirmed_eq_none.mpr hall] at hlowest
      cases hlowest
  · intro h n hn
    rcases hlowest : findLatestUnconfirmed db with _ | lowest
    · -- Every block is confirmed, so the pass must not start, or end before `-1`.
      have hall := findLatestUnconfirmed_eq_none.mp hlowest
      rcases (solidityRequests_confirmed hlong hall).mp hn with
        ⟨latest, hlatest, hzero, hroom, hnear, hcount, hlow, hhigh⟩
      rcases h with ⟨row, hrow, hconfirmed⟩ | hneg | hsolidity | ⟨found, hfound, hstop⟩
      · rw [hall row hrow] at hconfirmed
        cases hconfirmed
      · have hnegative := hneg latest (findLatest_spec hlatest).1
        omega
      · omega
      · rw [hlatest, Option.some.injEq] at hfound
        subst hfound
        rcases hstop with hfar | hlast | hmany
        · exact absurd hfar hnear
        · omega
        · omega
    · rcases solidityRequests_unconfirmed hlong hlowest hn with ⟨latest, hlatest, hlow, hhigh⟩
      exact ⟨lowest, latest, rfl, hlatest, hlow, hhigh⟩

/-- A database with one block, which is confirmed. -/
def confirmedBlock (number : Int) : Database where
  toTables := { blocks := [{ number := number, hash := "", size := 0, timestamp := 0,
                             txTrieRoot := "", parentHash := "", witnessId := 0,
                             witnessAddress := "", nrOfTrx := 0, confirmed := true }] }
  wellFormed := ⟨List.nodup_singleton _, List.nodup_nil, nofun, nofun, List.nodup_nil⟩

/-- With the full node at the other end of the 64-bit range the distance wraps, and the
    pass does not start. -/
theorem asksOnlyForWork_iff_wrapped :
    AsksOnlyForWork { fullNodeBlock := Int64.minValue, solidityBlock := 1 } (confirmedBlock 1) := by
  have hlong : ∀ row ∈ (confirmedBlock 1).blocks, row.HasLongNumber := by
    intro row hrow
    rw [List.mem_singleton.mp hrow]
    exact ⟨by decide, by decide⟩
  exact (asksOnlyForWork_iff _ _ hlong).mpr
    (Or.inr (Or.inr (Or.inr ⟨_, rfl, Or.inl (by decide)⟩)))

/-- With both nodes at the genesis block and nothing left to confirm, the pass
    asks for `-1` and `0`. -/
theorem not_asksOnlyForWork_confirmed :
    ¬ AsksOnlyForWork { fullNodeBlock := 0, solidityBlock := 0 } (confirmedBlock 0) := by
  intro h
  rcases h (-1) (by decide) with ⟨_, _, hlowest, _⟩
  cases hlowest

end Tronscan
