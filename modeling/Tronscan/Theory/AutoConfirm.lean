import Tronscan.Importer.Run
import Tronscan.Core.Wire

/-!
# Confirming Without the Solidity Node

A full node run that finds the database far enough behind the solidity head,
and the full node in agreement with it, imports its blocks as confirmed. The
decision is taken once, and the run then goes on to the head of the full node.
The blocks between the two heads are confirmed with the rest, and the solidity
importer never looks at a confirmed block again.

The theorem says when nothing goes wrong, for all heights, those next to the ends
of the 64-bit range included. The condition reads the heights and the part of the
chain that the run covers, and nothing else of the run.

## Main definitions

* `ConfirmsEverything`: The decision, against a chain.
* `ConfirmsUpToHead`: No row the run adds is confirmed above the solidity head.

## Theorems

* `confirmsUpToHead_of_quiet`, `not_confirmsUpToHead`: The two directions.
* `confirmsUpToHead_iff`: When a run confirms up to the solidity head only.
* `not_confirmsUpToHead_overrun`: A run that goes fifty blocks too far.
-/

namespace Tronscan

open ImportStreamFactory BlockImporter

variable [Codec]

/-- The database is well behind the solidity head, and the chain's block there
    has the solidity node's hash. -/
def ConfirmsEverything (chain : Chain) (status : NodeState) : Prop :=
  status.dbLatestBlock ≤ status.solidityBlock - 250 ∧
    ((chain.read status.solidityBlock.toInt).getD {}).hash = status.solidityBlockHash

/-- Whatever the database, the cut of the queries and the batches that fail, no
    row the run adds is confirmed above the solidity head. -/
def ConfirmsUpToHead (chain : Chain) (inclusive : Bool) (status : NodeState) : Prop :=
  ∀ db action,
    buildImportActionFromImportStatus (chain.fullNode inclusive) db status = some action →
    ∀ fired commits db',
      importRun action.confirmBlocks (fullNodeStream (chain.fullNode inclusive) status)
        fired commits db = some db' →
      ∀ row ∈ db'.blocks, row ∉ db.blocks → row.confirmed = true →
        row.number ≤ status.solidityBlock.toInt

/-- Of the numbers the run covers, none above the solidity head is that of a block the
    importer can read. -/
def QuietAboveHead (chain : Chain) (inclusive : Bool) (status : NodeState) : Prop :=
  ∀ n block, status.solidityBlock.toInt < n → status.Covers inclusive n →
    chain.read n = some block → ¬ block.Readable

variable {chain : Chain} {inclusive : Bool} {status : NodeState}

theorem confirmBlocks_chain (henabled : status.solidityEnabled = true) {db : Database}
    {action : ImportAction}
    (h : buildImportActionFromImportStatus (chain.fullNode inclusive) db status = some action) :
    action.confirmBlocks = true ↔ ConfirmsEverything chain status := by
  rcases importAction_spec h with ⟨block, hblock, hconfirm, _⟩
  cases hblock
  rw [hconfirm, henabled]
  simp only [Bool.true_eq_false, false_or]
  exact Iff.rfl

/-- A run that does not confirm adds no confirmed row, and one that does reaches
    the solidity head before it reaches a block it must not confirm. -/
theorem confirmsUpToHead_of_quiet (henabled : status.solidityEnabled = true)
    (h : ConfirmsEverything chain status → QuietAboveHead chain inclusive status) :
    ConfirmsUpToHead chain inclusive status := by
  intro db action haction fired commits db' hrun row hrow hnew hconfirmed
  rcases importRun_block hrun hrow with hold | ⟨block, hblock, hreadable, rfl⟩
  · exact absurd hold hnew
  have hgate := (confirmBlocks_chain henabled haction).mp hconfirmed
  rcases mem_stream_chain.mp hblock with ⟨n, hn, hcovers⟩
  have hnumber : block.number = n := chain.number_eq n block hn
  by_contra habove
  refine h hgate n block ?_ hcovers hn hreadable
  rw [← hnumber]
  exact not_le.mp habove

/-- With a block above the head that the importer can read, there is a run in
    which the row of that block is what commits. -/
theorem not_confirmsUpToHead (henabled : status.solidityEnabled = true)
    (hgate : ConfirmsEverything chain status) (h : ¬ QuietAboveHead chain inclusive status) :
    ¬ ConfirmsUpToHead chain inclusive status := by
  intro hsafe
  simp only [QuietAboveHead, not_forall, not_not] at h
  rcases h with ⟨n, block, habove, hcovers, hn, hreadable⟩
  -- The run is set up, confirms, and reads the block.
  have haction : ∃ action, buildImportActionFromImportStatus (chain.fullNode inclusive)
      Database.empty status = some action := ⟨_, rfl⟩
  rcases haction with ⟨action, haction⟩
  have hconfirm := (confirmBlocks_chain henabled haction).mpr hgate
  have hstream : block ∈ fullNodeStream (chain.fullNode inclusive) status :=
    mem_stream_chain.mpr ⟨n, hn, hcovers⟩
  -- Of its queries, let only the one that inserts the block commit.
  have hquery : .insertBlock ((BlockModel.fromProto block).confirm true) ∈
      fullNodeQueries action.confirmBlocks (fullNodeStream (chain.fullNode inclusive) status) :=
    insertBlock_mem_fullNodeQueries.mpr ⟨block, hstream, hreadable, by rw [hconfirm]⟩
  have hexec : ∃ db', Query.exec (.insertBlock ((BlockModel.fromProto block).confirm true))
      Database.empty = some db' := ⟨_, rfl⟩
  rcases hexec with ⟨db', hexec⟩
  rcases exists_importRun (List.singleton_sublist.mpr hquery)
    (Lib.execAll_cons_some.mpr ⟨db', hexec, rfl⟩) with ⟨fired, commits, hrun⟩
  have hblocks : db'.blocks = [(BlockModel.fromProto block).confirm true] := by
    rw [(Query.exec_eq_some.mp hexec).2]
    rfl
  have hnumber := hsafe Database.empty action haction fired commits db' hrun
    ((BlockModel.fromProto block).confirm true) (by rw [hblocks]; exact List.mem_singleton_self _)
    List.not_mem_nil rfl
  have hblock : block.number = n := chain.number_eq n block hn
  have hrow : ((BlockModel.fromProto block).confirm true).number = n := hblock
  omega

/-- With the solidity node enabled, a run confirms up to the solidity head only
    when it confirms nothing, or when it covers no block above the solidity head that
    it can read. -/
theorem confirmsUpToHead_iff (henabled : status.solidityEnabled = true) :
    ConfirmsUpToHead chain inclusive status ↔
      ¬ ConfirmsEverything chain status ∨ QuietAboveHead chain inclusive status := by
  rw [← imp_iff_not_or]
  constructor
  · intro hsafe hgate
    by_contra hquiet
    exact not_confirmsUpToHead henabled hgate hquiet hsafe
  · exact confirmsUpToHead_of_quiet henabled

/-- Blocks without transactions up to a height. -/
def emptyChain (height : Int) : Chain where
  read n := if 0 ≤ n ∧ n ≤ height then some (emptyBlock n) else none
  header_isSome n block h := by
    split at h
    · cases h
      rfl
    · cases h
  number_eq n block h := by
    split at h
    · cases h
      rfl
    · cases h

/-- The solidity node at 250, the full node at a height of its own, and only
    block 0 in the database. -/
def behindStatus (fullNodeBlock : Int64) : NodeState where
  fullNodeBlock := fullNodeBlock
  solidityBlock := 250
  dbUnconfirmedBlock := 0
  dbLatestBlock := 0
  fullNodeBlockHash := (emptyBlock fullNodeBlock.toInt).hash
  solidityBlockHash := (emptyBlock 250).hash
  dbBlockHash := (emptyBlock 0).hash

omit [Codec] in
/-- With the full node two blocks ahead, the run ends at the solidity head. -/
theorem confirmsUpToHead_iff_close :
    @ConfirmsUpToHead exampleCodec (emptyChain 252) true (@behindStatus exampleCodec 252) :=
  (@confirmsUpToHead_iff exampleCodec (emptyChain 252) true (@behindStatus exampleCodec 252)
    rfl).mpr (Or.inr fun n block habove hcovers _ => by
      have hlast : n ≤ 250 := by
        rcases hcovers.2.2 with hto | ⟨_, hto⟩
        · exact le_of_lt hto
        · exact le_of_eq hto
      exact absurd habove (not_lt.mpr hlast))

omit [Codec] in
/-- With the full node fifty blocks ahead, block 251 is stored as confirmed while
    the solidity node is at 250. -/
theorem not_confirmsUpToHead_overrun :
    ¬ @ConfirmsUpToHead exampleCodec (emptyChain 300) false (@behindStatus exampleCodec 300) := by
  let _ := exampleCodec
  have hgate : ConfirmsEverything (emptyChain 300) (behindStatus 300) :=
    ⟨by decide, by rfl⟩
  refine not_confirmsUpToHead rfl hgate fun hquiet => ?_
  exact hquiet 251 (emptyBlock 251) (by decide) (by decide) rfl (readable_of_nil rfl)

end Tronscan
