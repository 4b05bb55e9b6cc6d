import Tronscan.Theory.AutoConfirm
import Tronscan.Theory.GapFree

/-!
# The Block a Batched Read Leaves Out

There are two readers for the blocks of a full node, one that asks for each
number and one that asks for ranges. They are called with the same bounds and
should read the same blocks.

A node takes the end of a range to be exclusive, which is why the ranges of a
batched read can share their ends. The first reader takes its upper bound to be
inclusive. So the ranges cover everything below the upper bound and the bound
itself is in none of them. `readFullNodeBlocks_eq_batched` says that this is the
whole difference, whatever the size of the batches, and so there is no call for
which the two agree.

## Main definitions

* `Chain.ServedBy`: The node answers from the chain, ranges in any order.
* `ReadersAgree`: The two readers read the same blocks.

## Theorems

* `batches_flatMap_range`: The ranges of a batched read, joined.
* `readFullNodeBlocks_of_served`, `readFullNodeBlocksBatched_of_served`: What
  the two readers read.
* `readFullNodeBlocks_eq_batched`: They differ by the last block.
* `readFullNodeBlocks_ne_long`: They differ where sums wrap too.
-/

namespace Tronscan

open BlockChainStreamBuilder

/-- The node answers a number with the block the chain has there, and a range
    with the blocks from its start up to but not including its end, in any
    order. -/
structure Chain.ServedBy (chain : Chain) (node : FullNode) : Prop where
  byNum : ∀ n block, chain.read n = some block → node.getBlockByNum n = some block
  byLimit : ∀ startNum endNum, ∃ blocks,
    node.getBlockByLimitNext startNum endNum = some blocks ∧
      blocks.Perm ((Int.range startNum endNum).filterMap chain.read)

/-- The two readers read the same blocks. -/
def ReadersAgree (fromBlock toBlock batchSize : Int) (node : FullNode) : Prop :=
  readFullNodeBlocksBatched fromBlock toBlock batchSize node =
    readFullNodeBlocks fromBlock toBlock node

theorem range_append {a b c : Int} (hab : a ≤ b) (hbc : b ≤ c) :
    Int.range a b ++ Int.range b c = Int.range a c := by
  have hsorted : (Int.range a b ++ Int.range b c).Pairwise (· < ·) := by
    refine List.pairwise_append.mpr ⟨range_pairwise_lt a b, range_pairwise_lt b c, ?_⟩
    intro x hx y hy
    rw [Int.mem_range_iff] at hx hy
    omega
  -- Ascending lists with the same members are the same list.
  refine List.Subset.antisymm_of_pairwise hsorted (range_pairwise_lt a c) ?_ ?_ <;> intro n hn
  · rw [List.mem_append, Int.mem_range_iff, Int.mem_range_iff] at hn
    rw [Int.mem_range_iff]
    omega
  · rw [Int.mem_range_iff] at hn
    rw [List.mem_append, Int.mem_range_iff, Int.mem_range_iff]
    omega

/-- The ranges of a batched read, joined, end below the upper bound. -/
theorem batches_flatMap_range {toBlock batchSize : Int} (hsize : 0 < batchSize) (fuel : Nat)
    (prev : Int) (hfuel : (toBlock - prev).toNat ≤ fuel) :
    (batches toBlock batchSize fuel prev).flatMap (fun range => Int.range range.1 range.2) =
      Int.range prev toBlock := by
  induction fuel generalizing prev with
  | zero =>
      have hempty : (toBlock - prev).toNat = 0 := Nat.le_zero.mp hfuel
      rw [batches, List.flatMap_nil, Int.range, hempty, List.range_zero, List.map_nil]
  | succ fuel ih =>
      rw [batches]
      by_cases hprev : prev < toBlock
      · rw [if_pos hprev]
        have hnext : prev < (if prev + batchSize > toBlock then toBlock else prev + batchSize) ∧
            (if prev + batchSize > toBlock then toBlock else prev + batchSize) ≤ toBlock := by
          split <;> omega
        generalize (if prev + batchSize > toBlock then toBlock else prev + batchSize) = next
          at hnext ⊢
        -- The next range starts where this one ends.
        rw [List.flatMap_cons, ih next (by omega)]
        exact range_append (le_of_lt hnext.1) hnext.2
      · have hempty : (toBlock - prev).toNat = 0 := by omega
        rw [if_neg hprev, List.flatMap_nil, Int.range, hempty, List.range_zero, List.map_nil]

section Served

variable {chain : Chain} {node : FullNode} {fromBlock toBlock batchSize : Int}

/-- The blocks of a range of the chain are in ascending order. -/
theorem chain_range_sorted (chain : Chain) (startNum endNum : Int) :
    ((Int.range startNum endNum).filterMap chain.read).Pairwise
      fun block block' => block.number < block'.number := by
  rw [List.pairwise_filterMap]
  refine (range_pairwise_lt _ _).imp fun {n k} hlt block hblock block' hblock' => ?_
  rwa [chain.number_eq n block hblock, chain.number_eq k block' hblock']

/-- A reply with the blocks of a range comes out sorted, whatever its order. -/
theorem insertionSort_reply {blocks : List Block} {startNum endNum : Int}
    (hperm : blocks.Perm ((Int.range startNum endNum).filterMap chain.read)) :
    (blocks.filter (·.blockHeader.isSome)).insertionSort (·.number ≤ ·.number) =
      (Int.range startNum endNum).filterMap chain.read := by
  have hheader : ∀ block ∈ blocks, block.blockHeader.isSome = true := by
    intro block hblock
    rcases List.mem_filterMap.mp (hperm.mem_iff.mp hblock) with ⟨n, _, hn⟩
    exact chain.header_isSome n block hn
  rw [List.filter_eq_self.mpr hheader]
  have hsorted := chain_range_sorted chain startNum endNum
  refine ((List.perm_insertionSort _ blocks).trans hperm).eq_of_pairwise ?_
    (List.pairwise_insertionSort _ blocks) (hsorted.imp le_of_lt)
  -- Blocks of the chain with one number are one block.
  intro block block' hblock hblock' hle hle'
  have hmem := (List.perm_insertionSort _ blocks).trans hperm |>.mem_iff.mp hblock
  rcases List.mem_filterMap.mp hmem with ⟨n, _, hn⟩
  rcases List.mem_filterMap.mp hblock' with ⟨k, _, hk⟩
  have hnumber : n = k := by
    rw [← chain.number_eq n block hn, ← chain.number_eq k block' hk]
    exact le_antisymm hle hle'
  subst hnumber
  exact Option.some.inj (hn.symm.trans hk)

/-- The reader by number reads the blocks of the chain up to the upper bound. -/
theorem readFullNodeBlocks_of_served (hserved : chain.ServedBy node)
    (hchain : ∀ n, fromBlock ≤ n → n ≤ toBlock → (chain.read n).isSome = true) :
    readFullNodeBlocks fromBlock toBlock node =
      (Int.range fromBlock (toBlock + 1)).filterMap chain.read := by
  have hread : ∀ n ∈ Int.range fromBlock (toBlock + 1),
      node.getBlockByNum n = chain.read n := by
    intro n hn
    rw [Int.mem_range_iff, Int.lt_add_one_iff] at hn
    rcases Option.isSome_iff_exists.mp (hchain n hn.1 hn.2) with ⟨block, hblock⟩
    rw [hblock, hserved.byNum n block hblock]
  rw [readFullNodeBlocks, readBlocks, List.filterMap_congr hread, List.filter_eq_self]
  intro block hblock
  rcases List.mem_filterMap.mp hblock with ⟨n, _, hn⟩
  exact chain.header_isSome n block hn

/-- The reader by ranges reads the blocks below the upper bound. -/
theorem readFullNodeBlocksBatched_of_served (hserved : chain.ServedBy node)
    (hsize : 1 ≤ batchSize) :
    readFullNodeBlocksBatched fromBlock toBlock batchSize node =
      (Int.range fromBlock toBlock).filterMap chain.read := by
  rw [← batches_flatMap_range hsize _ fromBlock (le_refl _), List.filterMap_flatMap]
  dsimp only [readFullNodeBlocksBatched]
  generalize batches toBlock batchSize (toBlock - fromBlock).toNat fromBlock = ranges
  induction ranges with
  | nil => rfl
  | cons range ranges ih =>
      rcases hserved.byLimit range.1 range.2 with ⟨blocks, hblocks, hperm⟩
      rw [readRanges] at ih ⊢
      simp only [List.filterMap_cons, hblocks, List.flatMap_cons]
      rw [ih, insertionSort_reply hperm]

/-- The readers differ by the block at the upper bound, so they never agree. -/
theorem readFullNodeBlocks_eq_batched (hserved : chain.ServedBy node)
    (hchain : ∀ n, fromBlock ≤ n → n ≤ toBlock → (chain.read n).isSome = true)
    (hle : fromBlock ≤ toBlock) (hsize : 1 ≤ batchSize) :
    (∃ last, chain.read toBlock = some last ∧
      readFullNodeBlocks fromBlock toBlock node =
        readFullNodeBlocksBatched fromBlock toBlock batchSize node ++ [last]) ∧
    ¬ ReadersAgree fromBlock toBlock batchSize node := by
  rcases Option.isSome_iff_exists.mp (hchain toBlock hle (le_refl _)) with ⟨last, hlast⟩
  have hsplit : readFullNodeBlocks fromBlock toBlock node =
      readFullNodeBlocksBatched fromBlock toBlock batchSize node ++ [last] := by
    have hone : Int.range toBlock (toBlock + 1) = [toBlock] := by
      rw [Int.range, add_sub_cancel_left]
      exact congrArg (· :: []) (add_zero toBlock)
    rw [readFullNodeBlocks_of_served hserved hchain,
      readFullNodeBlocksBatched_of_served hserved hsize,
      ← range_append hle (le_of_lt (Int.lt_succ toBlock)), List.filterMap_append, hone,
      List.filterMap_cons_some hlast, List.filterMap_nil]
  refine ⟨⟨last, hlast, hsplit⟩, fun hagree => ?_⟩
  have hlength := congrArg List.length (hagree.trans hsplit)
  rw [List.length_append, List.length_singleton] at hlength
  omega

/-- Nor do they where sums wrap, since no range has the upper bound in it. -/
theorem readFullNodeBlocks_ne_long {first last size : Int64} (hserved : chain.ServedBy node)
    (hchain : ∀ n, first.toInt ≤ n → n ≤ last.toInt → (chain.read n).isSome = true)
    (hle : first ≤ last) :
    Long.readFullNodeBlocksBatched first last size node ≠
      readFullNodeBlocks first.toInt last.toInt node := by
  intro hagree
  have hle := Int64.le_iff_toInt_le.mp hle
  rcases Option.isSome_iff_exists.mp (hchain last.toInt hle (le_refl _)) with ⟨block, hblock⟩
  have hmem : block ∈ readFullNodeBlocks first.toInt last.toInt node :=
    mem_readBlocks.mpr ⟨⟨last.toInt, hle, le_refl _, hserved.byNum _ _ hblock⟩,
      chain.header_isSome _ _ hblock⟩
  rw [← hagree, Long.readFullNodeBlocksBatched, mem_readRanges] at hmem
  rcases hmem with ⟨⟨range, hrange, blocks, hblocks, hmem⟩, -⟩
  rcases hserved.byLimit range.1 range.2 with ⟨blocks', hblocks', hperm⟩
  cases hblocks.symm.trans hblocks'
  rcases List.mem_filterMap.mp (hperm.mem_iff.mp hmem) with ⟨n, hn, hread⟩
  -- The number of the block is the upper bound, and it lies before the end of a range.
  have hnumber : n = last.toInt := by
    rw [← chain.number_eq n block hread, chain.number_eq _ block hblock]
  have hend := le_of_mem_calls hrange
  rw [Int.mem_range_iff, hnumber] at hn
  omega

end Served

/-- The property as one would like to have it, for all bounds and batches. -/
def ReadersAlwaysAgree : Prop :=
  ∀ (chain : Chain) (node : FullNode) (fromBlock toBlock batchSize : Int),
    chain.ServedBy node → (∀ n, fromBlock ≤ n → n ≤ toBlock → (chain.read n).isSome = true) →
    fromBlock ≤ toBlock → 1 ≤ batchSize → ReadersAgree fromBlock toBlock batchSize node

theorem servedBy_fullNode (chain : Chain) : chain.ServedBy (chain.fullNode false) where
  byNum _ _ h := congrArg (fun answer : Option Block => some (answer.getD {})) h
  byLimit _ _ := ⟨_, rfl, List.Perm.refl _⟩

theorem emptyChain_isSome {height n : Int} (hlow : 0 ≤ n) (hhigh : n ≤ height) :
    ((emptyChain height).read n).isSome = true :=
  Option.isSome_iff_exists.mpr ⟨emptyBlock n, if_pos ⟨hlow, hhigh⟩⟩

/-- Of the blocks 0 to 100, in two batches. -/
theorem readFullNodeBlocks_eq_batched_hundred :
    (∃ last, (emptyChain 100).read 100 = some last ∧
      readFullNodeBlocks 0 100 ((emptyChain 100).fullNode false) =
        readFullNodeBlocksBatched 0 100 50 ((emptyChain 100).fullNode false) ++ [last]) ∧
    ¬ ReadersAgree 0 100 50 ((emptyChain 100).fullNode false) :=
  readFullNodeBlocks_eq_batched (servedBy_fullNode _) (fun _ => emptyChain_isSome)
    (by decide) (by decide)

/-- A read of a single block reads nothing in batches. -/
theorem not_readersAlwaysAgree_single : ¬ ReadersAlwaysAgree := by
  intro h
  have hagree := h (emptyChain 0) ((emptyChain 0).fullNode false) 0 0 50 (servedBy_fullNode _)
    (fun _ => emptyChain_isSome) (le_refl 0) (by decide)
  have hnone : readFullNodeBlocksBatched 0 0 50 ((emptyChain 0).fullNode false) = [] := rfl
  have hone : readFullNodeBlocks 0 0 ((emptyChain 0).fullNode false) = [emptyBlock 0] := rfl
  rw [ReadersAgree, hnone, hone] at hagree
  cases hagree

end Tronscan
