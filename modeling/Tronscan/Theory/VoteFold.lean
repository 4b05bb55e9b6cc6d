import Tronscan.Theory.VoteHistory

/-!
# Votes of an Account That Unfreezes

Votes are backed by frozen balance, so an account that unfreezes its balance
takes its votes back. The table of votes should be the fold of the chain over
these two kinds of contract: a vote replaces the votes of its voter, and
unfreezing removes them.

There is an importer for either kind. The one for unfreezing is never reached.
It is applied to the models of a block's contracts, and a contract that
unfreezes has no model, so it drops out a step before. What the table holds of a
voter are therefore the last votes cast, whatever came after.

## Main definitions

* `Ballot`: A contract as far as votes are concerned.
* `standing`: The votes of a voter after a list of ballots.
* `unfrozen`: The voter has unfrozen its balance since it last voted.

## Theorems

* `standing_eq`: The votes that stand are the last ones, or none.
* `voteWrites_eq_ballots`: The log of a block has its votes only.
* `voteTable_iff`: When the table is the fold of the chain.
* `not_voteTableIsFold_unfrozen`: Votes that outlive their balance.
-/

namespace Tronscan

open BlockImporter

/-- A contract as far as votes are concerned. -/
inductive Ballot where
  | vote (votes : VoteWitnessList)
  | unfreeze (voterAddress : String)
  deriving DecidableEq

/-- The votes a ballot casts, with their voter. -/
def Ballot.write? : Ballot → Option (String × List VoteWitnessContractModel)
  | .vote votes => some (votes.voterAddress, votes.votes)
  | .unfreeze _ => none

/-- A vote replaces the votes of its voter, and unfreezing removes them. -/
def cast (voter : String) (rows : List VoteWitnessContractModel) :
    Ballot → List VoteWitnessContractModel
  | .vote votes => if votes.voterAddress = voter then votes.votes else rows
  | .unfreeze voterAddress => if voterAddress = voter then [] else rows

/-- The votes of a voter after a list of ballots. -/
def standing (voter : String) (ballots : List Ballot) : List VoteWitnessContractModel :=
  ballots.foldl (cast voter) []

/-- The voter has unfrozen its balance since it last voted. -/
def unfrozen (voter : String) (ballots : List Ballot) : Bool :=
  ballots.foldl (fun since ballot =>
    match ballot with
    | .vote votes => if votes.voterAddress = voter then false else since
    | .unfreeze voterAddress => if voterAddress = voter then true else since) false

/-- The votes that stand are the last ones, or none after unfreezing. -/
theorem standing_eq (voter : String) (ballots : List Ballot) :
    standing voter ballots =
      if unfrozen voter ballots = true then []
      else (Lib.lastWrite voter (ballots.filterMap Ballot.write?)).getD [] := by
  induction ballots using List.reverseRecOn with
  | nil => rfl
  | append_singleton ballots ballot ih =>
      rw [standing, unfrozen] at ih ⊢
      rw [List.foldl_append, List.foldl_append, List.filterMap_append, Lib.lastWrite_append, ih]
      cases ballot with
      | vote votes =>
          simp only [List.foldl_cons, List.foldl_nil, cast, List.filterMap_cons, Ballot.write?,
            List.filterMap_nil, Lib.lastWrite, Option.none_or]
          by_cases hvoter : votes.voterAddress = voter
          · simp only [if_pos hvoter, Option.some_or, Option.getD_some, Bool.false_eq_true,
              if_false]
          · simp only [if_neg hvoter, Option.none_or]
      | unfreeze voterAddress =>
          simp only [List.foldl_cons, List.foldl_nil, cast, List.filterMap_cons, Ballot.write?,
            List.filterMap_nil, Lib.lastWrite, Option.none_or]
          by_cases hvoter : voterAddress = voter
          · simp only [if_pos hvoter, if_true]
          · simp only [if_neg hvoter]

variable [Codec]

/-- The ballot a contract is, if it is one. -/
def Contract.ballot (contract : Contract) (trx : Transaction) (block : Block) : Option Ballot :=
  match ProtoUtils.fromContract contract, ModelUtils.contractToModel contract trx block with
  | .ok (.unfreezeBalance c), _ => some (.unfreeze (encodeAddress c.ownerAddress))
  | _, .ok (some (.voteWitnessList votes)) => some (.vote votes)
  | _, _ => none

/-- The ballots of a block, in order. -/
def Block.ballots (block : Block) : List Ballot :=
  block.transactionContracts.filterMap fun tc => tc.2.ballot tc.1 block

section Ballots

variable {block : Block} {contract : Contract} {trx : Transaction}

/-- A contract writes the votes it has as a ballot; unfreezing writes nothing. -/
theorem ballot_write {model? : Option ContractModel}
    (h : ModelUtils.contractToModel contract trx block = .ok model?) :
    model?.bind ContractModel.voteWrite? =
      (contract.ballot trx block).bind Ballot.write? := by
  rw [Contract.ballot, h]
  rw [ModelUtils.contractToModel] at h
  cases hmessage : ProtoUtils.fromContract contract with
  | error e =>
      rw [hmessage] at h
      cases h
  | ok message =>
      rw [hmessage] at h
      cases message <;> cases h <;> rfl

/-- The log of a block has the votes among its ballots and nothing else. -/
theorem voteWrites_eq_ballots (hreadable : block.Readable) :
    block.voteWrites = block.ballots.filterMap Ballot.write? := by
  rcases extract_ok_iff.mpr hreadable with ⟨e, he⟩
  rw [Block.voteWrites, he]
  rcases Lib.bind_ok_iff.mp he with ⟨rows, _, he⟩
  rcases Lib.bind_ok_iff.mp he with ⟨models, hmodels, he⟩
  cases he
  have hmap : models.map (·.bind ContractModel.voteWrite?) =
      block.transactionContracts.map fun tc => (tc.2.ballot tc.1 block).bind Ballot.write? :=
    Lib.mapM_ok_map (fun _ _ h => ballot_write h) hmodels
  have hfilter := congrArg (List.filterMap id) hmap
  rw [List.filterMap_map, List.filterMap_map] at hfilter
  simp only [Extracted.voteWrites, List.reduceOption, Block.ballots, List.filterMap_filterMap]
  exact hfilter

end Ballots

/-- The table holds the last votes of each voter. It is the fold of the chain
    when nobody with votes has unfrozen its balance since, and only then. -/
theorem voteTable_iff {blocks : List Block} {c : Bool} {db : Database}
    (hreadable : ∀ block ∈ blocks, block.Readable)
    (hdb : execQueries (fullNodeQueries c blocks) Database.empty = some db) :
    (∀ voter, (Lib.rowsOf VoteWitnessContractModel.voterAddress voter
        db.voteWitnessContract).Perm (standing voter (blocks.flatMap Block.ballots))) ↔
      ∀ voter, unfrozen voter (blocks.flatMap Block.ballots) = true →
        (lastVote voter blocks).getD [] = [] := by
  have hwrites : blocks.flatMap Block.voteWrites =
      (blocks.flatMap Block.ballots).filterMap Ballot.write? := by
    rw [List.filterMap_flatMap]
    exact List.flatMap_congr fun block hblock => voteWrites_eq_ballots (hreadable block hblock)
  refine forall_congr' fun voter => ?_
  rw [importChain_votes hdb, applyVotes, Lib.rowsOf_applyWrites voter _ _
    (wellKeyed_voteWrites blocks), standing_eq, ← hwrites, lastVote]
  -- What was in the table before is no longer there, it started empty.
  have hempty : Lib.rowsOf VoteWitnessContractModel.voterAddress voter [] = [] := rfl
  rw [hempty]
  by_cases hunfrozen : unfrozen voter (blocks.flatMap Block.ballots) = true
  · rw [if_pos hunfrozen, List.perm_nil]
    exact ⟨fun h _ => h, fun h => h hunfrozen⟩
  · rw [if_neg hunfrozen]
    exact iff_of_true (List.Perm.refl _) fun h => absurd h hunfrozen

/-- The property as one would like to have it, for all chains. -/
def VoteTableIsFold : Prop :=
  ∀ (blocks : List Block) (c : Bool) (db : Database), (∀ block ∈ blocks, block.Readable) →
    execQueries (fullNodeQueries c blocks) Database.empty = some db →
    ∀ voter, (Lib.rowsOf VoteWitnessContractModel.voterAddress voter
      db.voteWitnessContract).Perm (standing voter (blocks.flatMap Block.ballots))

omit [Codec]

/-- The transaction with which the voter of the worked histories unfreezes. -/
def unfreezeTransaction : Transaction :=
  { rawData := some { contract := [{ type := .unfreezeBalanceContract
                                     parameter := Wire.bytes 1 exampleOwner }] } }

/-- The codec of the worked histories, with the answers for that transaction. -/
@[reducible] def unfreezeCodec : Codec :=
  { exampleCodec with
    sha256 := Wire.digest ((Wire.transactionRaw unfreezeTransaction.getRawData,
      [61, 219, 149, 240, 242, 16, 184, 124, 54, 189, 250, 184, 183, 196, 44, 206, 218, 152, 26,
        69, 146, 143, 185, 25, 73, 8, 151, 191, 161, 82, 237, 173]) :: exampleDigests)
    sha256_length := Wire.digest_length _
    unfreezeBalanceContract :=
      Wire.decoder [(Wire.bytes 1 exampleOwner, { ownerAddress := exampleOwner })] {} }

/-- A chain of two blocks, the second with the given transactions. -/
def ballotChain (transactions : List Transaction) : List Block :=
  [emptyBlock 0, childBlock (emptyBlock 0) 0 transactions]

theorem ballotChain_readable :
    (∀ block ∈ ballotChain [unfreezeTransaction, voteTransaction],
      @Block.Readable unfreezeCodec block) ∧
    ∀ block ∈ ballotChain [voteTransaction, unfreezeTransaction],
      @Block.Readable unfreezeCodec block := by decide +kernel

/-- The account unfreezes before it votes. -/
theorem voteTable_iff_refrozen : ∃ db,
    execQueries (@fullNodeQueries unfreezeCodec false
      (ballotChain [unfreezeTransaction, voteTransaction])) Database.empty = some db ∧
    ∀ voter, (Lib.rowsOf VoteWitnessContractModel.voterAddress voter
      db.voteWitnessContract).Perm (standing voter
        ((ballotChain [unfreezeTransaction, voteTransaction]).flatMap
          (@Block.ballots unfreezeCodec))) := by
  let _ := unfreezeCodec
  have himport : (execQueries (fullNodeQueries false
      (ballotChain [unfreezeTransaction, voteTransaction])) Database.empty).isSome = true := by
    decide +kernel
  have hballots : (ballotChain [unfreezeTransaction, voteTransaction]).flatMap Block.ballots =
      [.unfreeze (encodeAddress exampleOwner),
        .vote { voterAddress := encodeAddress exampleOwner
                votes := [{ block := 1
                            transaction := voteTransaction.hash
                            timestamp := 0
                            voterAddress := encodeAddress exampleOwner
                            candidateAddress := encodeAddress exampleRecipient
                            votes := 1 }] }] := by decide +kernel
  rcases Option.isSome_iff_exists.mp himport with ⟨db, hdb⟩
  refine ⟨db, hdb, (@voteTable_iff unfreezeCodec _ false db ballotChain_readable.1 hdb).mpr ?_⟩
  intro voter hunfrozen
  rw [hballots, unfrozen] at hunfrozen
  -- The vote comes last.
  simp only [List.foldl_cons, List.foldl_nil] at hunfrozen
  split at hunfrozen <;> cases hunfrozen

/-- The account unfreezes after it has voted, and its vote stays. -/
theorem not_voteTableIsFold_unfrozen : ¬ @VoteTableIsFold unfreezeCodec := by
  let _ := unfreezeCodec
  intro h
  have himport : (execQueries (fullNodeQueries false
      (ballotChain [voteTransaction, unfreezeTransaction])) Database.empty).map
        (fun db => (Lib.rowsOf VoteWitnessContractModel.voterAddress
          (encodeAddress exampleOwner) db.voteWitnessContract).length) = some 1 := by
    decide +kernel
  rcases Option.map_eq_some_iff.mp himport with ⟨db, hdb, hlength⟩
  have hnone : standing (encodeAddress exampleOwner)
      ((ballotChain [voteTransaction, unfreezeTransaction]).flatMap Block.ballots) = [] := by
    decide +kernel
  have hperm := h _ false db ballotChain_readable.2 hdb (encodeAddress exampleOwner)
  rw [hnone, List.perm_nil] at hperm
  rw [hperm] at hlength
  cases hlength

end Tronscan
