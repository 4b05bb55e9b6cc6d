import Tronscan.Importer.Run
import Tronscan.Importer.Solidity
import Tronscan.Core.Wire
import Tronscan.Lib.Writes

/-!
# Votes of a Replaced Block

A vote replaces all earlier votes of its voter, so the table of votes is a table
of groups, one for each voter, and a block is a log of writes to it. Importing
a chain applies the logs of its blocks in order.

A replacement deletes what the orphaned block put into most tables, by block
number. The votes it does not delete. It applies the log of the new block as if
the block came last, which overwrites what later blocks voted and leaves what
only the orphaned block voted standing.

`replacedVotes_iff` says when this amounts to importing the chain with the new
block in the place of the old one. It is `Lib.replay_perm_iff` for this log:
rows carry the number of their block, so groups from different blocks agree
only when both are empty.

## Main definitions

* `Block.voteWrites`: The log of a block.
* `lastVote`: The last votes a list of blocks has for a voter.
* `VotesSettled`: For no voter does it matter which comes last.

## Theorems

* `fullNodeQueries_votes`, `replaceQueries_votes`: Both importers apply logs.
* `exec_replacedVotes`: What a replacement does to the votes.
* `replacedVotes_iff`: When replacing a block rewrites the votes correctly.
* `not_rewritesVotes_orphaned`: A vote only the orphaned block cast.
-/

namespace Tronscan

open DatabaseImporter BlockImporter

/-- The votes a model writes, with their voter. -/
def ContractModel.voteWrite? : ContractModel → Option (String × List VoteWitnessContractModel)
  | .voteWitnessList votes => some (votes.voterAddress, votes.votes)
  | _ => none

/-- Applying a log to the table of votes. -/
def applyVotes (writes : List (String × List VoteWitnessContractModel)) :
    List VoteWitnessContractModel → List VoteWitnessContractModel :=
  Lib.applyWrites VoteWitnessContractModel.voterAddress writes

theorem applyVotes_flatMap {α : Type} (xs : List α)
    (f : α → List (String × List VoteWitnessContractModel))
    (rows : List VoteWitnessContractModel) :
    xs.foldl (fun rows x => applyVotes (f x) rows) rows = applyVotes (xs.flatMap f) rows :=
  List.foldl_flatMap.symm

theorem insertVotes_onVotes (votes rows : List VoteWitnessContractModel) :
    (votes.map Query.insertVote).foldl (fun rows q => q.onVotes rows) rows = rows ++ votes := by
  induction votes generalizing rows with
  | nil => exact (List.append_nil rows).symm
  | cons vote votes ih =>
      rw [List.map_cons, List.foldl_cons, ih]
      exact List.append_assoc rows [vote] votes

/-- The queries of a model write its votes. -/
theorem queries_votes (model : ContractModel) (rows : List VoteWitnessContractModel) :
    model.queries.foldl (fun rows q => q.onVotes rows) rows =
      applyVotes model.voteWrite?.toList rows := by
  cases model with
  | voteWitnessList votes => exact insertVotes_onVotes votes.votes _
  | _ => rfl

namespace Extracted

/-- The votes of a block, in order. -/
def voteWrites (e : Extracted) : List (String × List VoteWitnessContractModel) :=
  e.models.filterMap ContractModel.voteWrite?

variable (e : Extracted) (c : Bool) (rows : List VoteWitnessContractModel)

theorem contractQueries_votes :
    (e.contractQueries c).foldl (fun rows q => q.onVotes rows) rows =
      applyVotes e.voteWrites rows := by
  have hconfirm (model : ContractModel) :
      (model.confirm c).voteWrite? = model.voteWrite? := by
    cases model <;> rfl
  rw [contractQueries, List.foldl_flatMap]
  simp only [queries_votes, hconfirm]
  rw [applyVotes_flatMap, voteWrites, List.filterMap_eq_flatMap_toList]

theorem fullNodeQueries_votes :
    (e.fullNodeQueries c).foldl (fun rows q => q.onVotes rows) rows =
      applyVotes e.voteWrites rows := by
  have hrows : (e.transactions.map fun row => Query.insertTransaction (row.confirm c)).foldl
      (fun rows q => q.onVotes rows) rows = rows := by
    refine foldl_same (fun q hq rows => ?_) rows
    rcases List.mem_map.mp hq with ⟨_, _, rfl⟩
    rfl
  rw [fullNodeQueries, List.foldl_cons, List.foldl_append]
  refine Eq.trans (congrArg (fun rows => (e.contractQueries _).foldl _ rows) hrows) ?_
  exact e.contractQueries_votes _ rows

theorem upsertQueries_votes :
    e.upsertQueries.foldl (fun rows q => q.onVotes rows) rows = rows := by
  refine foldl_same (fun q hq rows => ?_) rows
  rcases List.mem_map.mp hq with ⟨_, _, rfl⟩
  rfl

/-- A replacement applies the log of its block and deletes no votes. -/
theorem replaceQueries_votes :
    e.replaceQueries.foldl (fun rows q => q.onVotes rows) rows = applyVotes e.voteWrites rows := by
  rw [replaceQueries, List.foldl_append, List.foldl_append]
  refine Eq.trans (congrArg (fun rows => (e.contractQueries true).foldl _ rows)
    (e.upsertQueries_votes rows)) ?_
  exact e.contractQueries_votes true rows

end Extracted

variable [Codec]

/-- The log of a block, empty when the block cannot be read. -/
def Block.voteWrites (block : Block) : List (String × List VoteWitnessContractModel) :=
  match extract block with
  | .ok e => e.voteWrites
  | .error _ => []

section Writes

variable {block : Block} {c : Bool}

/-- The votes of a block are keyed by their voter and carry its number. -/
theorem voteWrites_rows {w : String × List VoteWitnessContractModel}
    (hw : w ∈ block.voteWrites) : ∀ row ∈ w.2, row.block = block.number ∧ row.voterAddress = w.1 := by
  rw [Block.voteWrites] at hw
  cases he : extract block with
  | error _ =>
      rw [he] at hw
      exact absurd hw List.not_mem_nil
  | ok e =>
      rw [he] at hw
      rcases List.mem_filterMap.mp hw with ⟨model, hmodel, hwrite⟩
      have hblock := (extract_sound he).models_block model hmodel
      cases model with
      | voteWitnessList votes =>
          cases hwrite
          exact hblock
      | _ => cases hwrite

theorem wellKeyed_voteWrites (blocks : List Block) :
    Lib.WellKeyed VoteWitnessContractModel.voterAddress (blocks.flatMap Block.voteWrites) := by
  intro w hw row hrow
  rcases List.mem_flatMap.mp hw with ⟨block, _, hw⟩
  exact (voteWrites_rows hw row hrow).2

theorem tagged_voteWrites {blocks : List Block} {p : Int → Prop}
    (h : ∀ block ∈ blocks, p block.number) :
    Lib.Tagged VoteWitnessContractModel.block p (blocks.flatMap Block.voteWrites) := by
  intro w hw row hrow
  rcases List.mem_flatMap.mp hw with ⟨block, hblock, hw⟩
  rw [(voteWrites_rows hw row hrow).1]
  exact h block hblock

/-- Importing a chain applies the logs of its blocks. -/
theorem importChain_votes {blocks : List Block} {db : Database}
    (h : execQueries (fullNodeQueries c blocks) Database.empty = some db) :
    db.voteWitnessContract = applyVotes (blocks.flatMap Block.voteWrites) [] := by
  rw [execQueries_votes h, fullNodeQueries, List.foldl_flatMap, ← applyVotes_flatMap]
  refine List.foldl_ext _ _ _ fun rows block _ => ?_
  rw [fullNodeBlockQueries_eq, Block.voteWrites]
  cases extract block with
  | error _ => rfl
  | ok e => exact e.fullNodeQueries_votes c rows

end Writes

/-- The last votes the blocks have for a voter, if they have any. -/
def lastVote (voter : String) (blocks : List Block) : Option (List VoteWitnessContractModel) :=
  Lib.lastWrite voter (blocks.flatMap Block.voteWrites)

/-- For no voter does it matter that the new block comes last. Where it votes and
    a later block does too, neither names a candidate. Where neither does and the
    orphaned block does, its last votes name none, and nor do those before it. -/
def VotesSettled (before : List Block) (orphaned new : Block) (after : List Block) : Prop :=
  ∀ voter,
    (∀ votes votes', lastVote voter [new] = some votes → lastVote voter after = some votes' →
      votes = [] ∧ votes' = []) ∧
    (lastVote voter [new] = none → lastVote voter after = none →
      ∀ votes, lastVote voter [orphaned] = some votes →
        votes = [] ∧ (lastVote voter before).getD [] = [])

/-- The blocks are numbered from zero on. -/
def Numbered (blocks : List Block) : Prop :=
  ∀ (i : Nat) (block : Block), blocks[i]? = some block → block.number = i

omit [Codec] in
theorem number_ne_of_numbered {before after : List Block} {block : Block}
    (h : Numbered (before ++ block :: after)) :
    (∀ b ∈ before, b.number ≠ block.number) ∧ ∀ b ∈ after, b.number ≠ block.number := by
  -- The number of a block is its position.
  have hblock : block.number = before.length := by
    refine h before.length block ?_
    rw [List.getElem?_append_right (le_refl _), Nat.sub_self, List.getElem?_cons_zero]
  constructor
  · intro b hb
    rcases List.mem_iff_getElem?.mp hb with ⟨i, hi⟩
    have hlt := (List.getElem?_eq_some_iff.mp hi).1
    have hnumber := h i b (by rw [List.getElem?_append_left hlt, hi])
    omega
  · intro b hb
    rcases List.mem_iff_getElem?.mp hb with ⟨i, hi⟩
    have hnumber := h (before.length + 1 + i) b (by
      rw [List.getElem?_append_right (by omega),
        show before.length + 1 + i - before.length = i + 1 by omega, List.getElem?_cons_succ, hi])
    omega

/-- The solidity importer finds the row of the orphaned block and replaces it,
    which applies the log of the new block to the votes that are there. -/
theorem exec_replacedVotes {before after : List Block} {orphaned new : Block} {db : Database}
    (hreadable : orphaned.Readable)
    (hdb : execQueries (fullNodeQueries false (before ++ orphaned :: after)) Database.empty =
      some db)
    (hnumber : new.number = orphaned.number) (hheader : new.blockHeader.isSome = true)
    (hhash : new.hash ≠ orphaned.hash) :
    ∃ db', execQueries (solidityBlockQueries new (findByNumber new.number db)) db = some db' ∧
      db'.voteWitnessContract = applyVotes new.voteWrites db.voteWitnessContract := by
  have hrow : (BlockModel.fromProto orphaned).confirm false ∈ db.blocks := by
    rw [(execQueries_import (fun q hq => isImport_fullNodeQueries q hq) hdb).1]
    have hquery : .insertBlock ((BlockModel.fromProto orphaned).confirm false) ∈
        fullNodeQueries false (before ++ orphaned :: after) := insertBlock_mem_fullNodeQueries.mpr
      ⟨orphaned, List.mem_append_right before List.mem_cons_self, hreadable, rfl⟩
    exact List.mem_append_right _ (Query.mem_blockRow.mpr hquery)
  have hfound : findByNumber new.number db =
      some ((BlockModel.fromProto orphaned).confirm false) := by
    rw [hnumber]
    exact findByNumber_of_mem hrow
  have hqueries : solidityBlockQueries new (findByNumber new.number db) =
      emitted ((extract new).map Extracted.replaceQueries) := by
    rw [hfound, solidityBlockQueries, hheader, buildSolidityBlockQueries_eq]
    have hne : new.hash ≠ ((BlockModel.fromProto orphaned).confirm false).hash := hhash
    simp only [if_neg hne]
    rfl
  rw [hqueries, Block.voteWrites]
  cases he : extract new with
  | error _ => exact ⟨db, rfl, rfl⟩
  | ok e =>
      rcases exec_replaceQueries (extract_sound he) db with ⟨db', hdb'⟩
      exact ⟨db', hdb', (execQueries_votes hdb').trans (e.replaceQueries_votes _)⟩

/-- The votes after a block is replaced are those of the chain with the new block
    in its place exactly when the votes are settled. -/
theorem replacedVotes_iff {before after : List Block} {orphaned new : Block} {c : Bool}
    {db right : Database} (hchain : Numbered (before ++ orphaned :: after))
    (hreadable : orphaned.Readable)
    (hdb : execQueries (fullNodeQueries false (before ++ orphaned :: after)) Database.empty =
      some db)
    (hnumber : new.number = orphaned.number) (hheader : new.blockHeader.isSome = true)
    (hhash : new.hash ≠ orphaned.hash)
    (hright : execQueries (fullNodeQueries c (before ++ new :: after)) Database.empty =
      some right) :
    ∃ db', execQueries (solidityBlockQueries new (findByNumber new.number db)) db = some db' ∧
      (db'.voteWitnessContract.Perm right.voteWitnessContract ↔
        VotesSettled before orphaned new after) := by
  rcases exec_replacedVotes hreadable hdb hnumber hheader hhash with ⟨db', hdb', hvotes⟩
  refine ⟨db', hdb', ?_⟩
  -- Both tables are those of a log in parts, what comes before the block, the
  -- block, and what comes after. On the left the new block's log is at the end.
  have hsplit (block : Block) : (before ++ block :: after).flatMap Block.voteWrites =
      before.flatMap Block.voteWrites ++ [block].flatMap Block.voteWrites ++
        after.flatMap Block.voteWrites := by
    rw [← List.flatMap_append, ← List.flatMap_append, List.append_assoc, List.singleton_append]
  have hsingle : new.voteWrites = [new].flatMap Block.voteWrites :=
    (List.flatMap_singleton Block.voteWrites new).symm
  rw [hvotes, importChain_votes hdb, importChain_votes hright, hsplit, hsplit, hsingle,
    applyVotes, applyVotes, ← Lib.applyWrites_append]
  -- Rows are keyed by their voter and tagged with the number of their block.
  rcases number_ne_of_numbered hchain with ⟨hbefore, hafter⟩
  exact Lib.replay_perm_iff VoteWitnessContractModel.block orphaned.number _ _ _ _
    (wellKeyed_voteWrites _) (wellKeyed_voteWrites _) (wellKeyed_voteWrites _)
    (wellKeyed_voteWrites _) (tagged_voteWrites hbefore)
    (tagged_voteWrites (by simp only [List.mem_singleton, forall_eq]))
    (tagged_voteWrites (by simpa only [List.mem_singleton, forall_eq] using hnumber))
    (tagged_voteWrites hafter)

/-- The property as one would like to have it, for all votes. -/
def RewritesVotes : Prop :=
  ∀ (before after : List Block) (orphaned new : Block) (db db' right : Database),
    Numbered (before ++ orphaned :: after) → orphaned.Readable →
    execQueries (fullNodeQueries false (before ++ orphaned :: after)) Database.empty = some db →
    new.number = orphaned.number → new.blockHeader.isSome = true → new.hash ≠ orphaned.hash →
    execQueries (fullNodeQueries false (before ++ new :: after)) Database.empty = some right →
    execQueries (solidityBlockQueries new (findByNumber new.number db)) db = some db' →
    db'.voteWitnessContract.Perm right.voteWitnessContract

omit [Codec]

theorem numbered_pair {a b : Block} (ha : a.number = 0) (hb : b.number = 1) :
    Numbered [a, b] := by
  intro i block hi
  match i with
  | 0 =>
      cases hi
      exact ha
  | 1 =>
      cases hi
      exact hb
  | _ + 2 => cases hi

/-- Two blocks on top of block 0, the first with a vote and the second with the
    given transactions. -/
def votedBlock : Block := childBlock (emptyBlock 0) 0 [voteTransaction]

/-- The block the solidity node has instead. -/
def replacingBlock (transactions : List Transaction) : Block :=
  childBlock (emptyBlock 0) 1 transactions

/-- The new block casts the vote again. -/
theorem replacedVotes_iff_revoted : ∃ db db' right,
    execQueries (@fullNodeQueries exampleCodec false [emptyBlock 0, votedBlock])
      Database.empty = some db ∧
    execQueries (@fullNodeQueries exampleCodec false
      [emptyBlock 0, replacingBlock [voteTransaction]]) Database.empty = some right ∧
    execQueries (@solidityBlockQueries exampleCodec (replacingBlock [voteTransaction])
      (findByNumber 1 db)) db = some db' ∧
    db'.voteWitnessContract.Perm right.voteWitnessContract := by
  let _ := exampleCodec
  have hleft : (execQueries (fullNodeQueries false [emptyBlock 0, votedBlock])
      Database.empty).isSome = true := by decide +kernel
  have hright : (execQueries (fullNodeQueries false
      [emptyBlock 0, replacingBlock [voteTransaction]]) Database.empty).isSome = true := by
    decide +kernel
  rcases Option.isSome_iff_exists.mp hleft with ⟨db, hdb⟩
  rcases Option.isSome_iff_exists.mp hright with ⟨right, hright⟩
  rcases @replacedVotes_iff exampleCodec [emptyBlock 0] [] votedBlock
    (replacingBlock [voteTransaction]) false db right (numbered_pair rfl rfl) (by decide +kernel)
    hdb rfl rfl (by decide +kernel) hright with ⟨db', hdb', hvotes⟩
  refine ⟨db, db', right, hdb, hright, hdb', hvotes.mpr fun voter => ⟨?_, ?_⟩⟩
  · intro _ _ _ hafter
    cases hafter
  · -- Both blocks have the same voters.
    intro hnone _ votes hvote
    have hvoters : votedBlock.voteWrites.map (·.1) =
        (replacingBlock [voteTransaction]).voteWrites.map (·.1) := by decide +kernel
    rw [lastVote, List.flatMap_singleton, Lib.lastWrite_eq_none, ← hvoters] at hnone
    rw [lastVote, List.flatMap_singleton, Lib.lastWrite_eq_none.mpr hnone] at hvote
    cases hvote

/-- The new block casts no vote, and that of the orphaned block stays. -/
theorem not_rewritesVotes_orphaned : ¬ @RewritesVotes exampleCodec := by
  let _ := exampleCodec
  intro h
  have hleft : (execQueries (fullNodeQueries false [emptyBlock 0, votedBlock])
      Database.empty).bind (fun db => (execQueries (solidityBlockQueries (replacingBlock [])
        (findByNumber 1 db)) db).map fun db' => db'.voteWitnessContract.length) = some 1 := by
    decide +kernel
  have hright : (execQueries (fullNodeQueries false [emptyBlock 0, replacingBlock []])
      Database.empty).map (fun db => db.voteWitnessContract.length) = some 0 := by decide +kernel
  rcases Option.bind_eq_some_iff.mp hleft with ⟨db, hdb, hleft⟩
  rcases Option.map_eq_some_iff.mp hleft with ⟨db', hdb', hlength⟩
  rcases Option.map_eq_some_iff.mp hright with ⟨right, hright, hnone⟩
  have hperm := h [emptyBlock 0] [] votedBlock (replacingBlock []) db db' right
    (numbered_pair rfl rfl) (by decide +kernel) hdb rfl rfl (by decide +kernel) hright hdb'
  rw [hperm.length_eq, hnone] at hlength
  cases hlength

end Tronscan
