import Tronscan.Importer.Rows
import Tronscan.Core.Wire

/-!
# Blocks the Mapping Loses

The full node importer maps a block to its queries: an insert for the block, one
for each transaction, and one for each transfer among the contracts. A block for
which the mapping throws is dropped by the stream, with everything in it.

Most of what reads a contract makes do with one it has no case for. `getOwner`
answers an empty address, `getTo` and `contractToModel` answer nothing, and the
importer ends in `elseEmpty`. None of them gets to do so, as each asks
`fromContract` first, which throws. The other throw is that of `head`, for a
transaction without contracts.

## Main definitions

* `fromContractTypes`: The contract types that can be decoded.
* `MappedWhole`: The queries insert what is in the block, and nothing twice.

## Theorems

* `type_of_known`: A contract that decodes has one of these types.
* `mappedWhole_extract`: A block that can be read is mapped whole.
* `mappedWhole_iff`: Which blocks are mapped whole.
* `not_mappedWhole_voteAsset`: A block with a contract of another type.
-/

namespace Tronscan

open BlockImporter

/-- The types `fromContract` has a case for. -/
def fromContractTypes : List ContractType :=
  [.transferContract, .transferAssetContract, .voteWitnessContract, .assetIssueContract,
    .updateAssetContract, .participateAssetIssueContract, .witnessCreateContract,
    .witnessUpdateContract, .unfreezeBalanceContract, .freezeBalanceContract,
    .withdrawBalanceContract, .accountUpdateContract, .unfreezeAssetContract,
    .accountCreateContract]

/-- The contract moves TRX or a token. -/
def Contract.isTransfer (contract : Contract) : Bool :=
  contract.type = .transferContract ∨ contract.type = .transferAssetContract

section Codec

variable [Codec]

/-- The parameters of the types with a case parse. -/
def Block.ParametersParse (block : Block) : Prop :=
  ∀ tc ∈ block.transactionContracts, tc.2.type ∈ fromContractTypes → tc.2.Known

/-- The queries insert one row for the block, one for each of its transactions,
    and one for each of its transfers, in order. -/
structure MappedWhole (confirmBlocks : Bool) (block : Block) (queries : List Query) : Prop where
  blocks : queries.filterMap Query.blockRow = [(BlockModel.fromProto block).confirm confirmBlocks]
  transactions : List.Forall₂
    (fun trx row => ∃ model, ModelUtils.transactionToModel trx block = .ok model ∧
      row = model.confirm confirmBlocks)
    block.transactions (queries.filterMap Query.transactionRow)
  transfers : List.Forall₂
    (fun tc row => ∃ model, ModelUtils.contractToModel tc.2 tc.1 block =
        .ok (some (.transfer model)) ∧ row = model.confirm (confirmBlocks || block.number == 0))
    (block.transactionContracts.filter (·.2.isTransfer)) (queries.filterMap Query.transferRow)

section Mapping

variable {contract : Contract} {trx : Transaction} {block : Block} {c : Bool}

theorem type_of_known (h : contract.Known) : contract.type ∈ fromContractTypes := by
  rcases contract with ⟨type, bytes⟩
  rcases h with ⟨message, h⟩
  change type ∈ fromContractTypes
  -- The types without a case throw.
  cases type <;> first
    | cases h
    | decide

/-- The model is a transfer exactly when the declared type is. -/
theorem isTransfer_iff {model? : Option ContractModel}
    (h : ModelUtils.contractToModel contract trx block = .ok model?) :
    contract.isTransfer = true ↔ ∃ row, model? = some (.transfer row) := by
  unfold Contract.isTransfer
  rw [decide_eq_true_eq]
  constructor
  · intro htype
    rcases contract with ⟨type, bytes⟩
    rcases htype with rfl | rfl <;>
      simp only [ModelUtils.contractToModel, ProtoUtils.fromContract, parseFrom_map_bind] at h
    · rcases h with ⟨message, _, h⟩
      cases h
      exact ⟨_, rfl⟩
    · rcases h with ⟨message, _, h⟩
      cases h
      exact ⟨_, rfl⟩
  · rintro ⟨row, rfl⟩
    exact (contractToModel_spec h).1

/-- Each transfer among the contracts has its row, and no other contract has one. -/
theorem transfers_of_models {contracts : List (Transaction × Contract)}
    {models : List (Option ContractModel)} (flag : Bool)
    (h : List.Forall₂ (fun tc model? => ModelUtils.contractToModel tc.2 tc.1 block = .ok model?)
      contracts models) :
    List.Forall₂
      (fun tc row => ∃ model, ModelUtils.contractToModel tc.2 tc.1 block =
        .ok (some (.transfer model)) ∧ row = model.confirm flag)
      (contracts.filter (·.2.isTransfer))
      ((models.reduceOption.filterMap ContractModel.transfer?).map (TransferModel.confirm flag)) := by
  induction h with
  | nil => exact List.Forall₂.nil
  | @cons tc model? contracts models hmodel _ ih =>
      by_cases htransfer : tc.2.isTransfer = true
      · rcases (isTransfer_iff hmodel).mp htransfer with ⟨row, rfl⟩
        rw [List.filter_cons, if_pos htransfer]
        exact List.Forall₂.cons ⟨row, hmodel, rfl⟩ ih
      · rw [List.filter_cons, if_neg htransfer]
        rcases model? with _ | model
        · exact ih
        · -- The model is another one, which has no transfer.
          have hnone : model.transfer? = none := by
            cases model with
            | transfer row => exact absurd ((isTransfer_iff hmodel).mpr ⟨row, rfl⟩) htransfer
            | _ => rfl
          rw [List.reduceOption_cons_of_some, List.filterMap_cons_none hnone]
          exact ih

/-- A block that can be read is mapped whole. -/
theorem mappedWhole_extract {e : Extracted} (h : extract block = .ok e) :
    MappedWhole c block (e.fullNodeQueries c) := by
  rcases Lib.bind_ok_iff.mp h with ⟨rows, hrows, h⟩
  rcases Lib.bind_ok_iff.mp h with ⟨models, hmodels, h⟩
  cases h
  rcases Extracted.fullNodeQueries_rows _ c with ⟨hblocks, htransactions, htransfers, -⟩
  refine ⟨hblocks, ?_, ?_⟩
  · rw [htransactions, List.forall₂_map_right_iff]
    refine ((Lib.mapM_ok_iff _ _ _).mp hrows).imp fun trx row hrow => ?_
    exact ⟨row, hrow, rfl⟩
  · rw [htransfers]
    exact transfers_of_models _ ((Lib.mapM_ok_iff _ _ _).mp hmodels)

end Mapping

/-- A block is mapped, and then whole, exactly when each of its transactions has
    a contract and each of its contracts a type that `fromContract` has a case
    for. -/
theorem mappedWhole_iff (confirmBlocks : Bool) {block : Block} (hparse : block.ParametersParse) :
    (∃ queries, fullNodeBlockQueries confirmBlocks block = .ok queries ∧
      MappedWhole confirmBlocks block queries) ↔
    (∀ trx ∈ block.transactions, trx.getRawData.contract ≠ []) ∧
      ∀ tc ∈ block.transactionContracts, tc.2.type ∈ fromContractTypes := by
  rw [fullNodeBlockQueries_eq]
  constructor
  · rintro ⟨queries, hqueries, -⟩
    -- The importer reads all of the block before it has any query.
    have hreadable : block.Readable := by
      rw [← extract_ok_iff]
      cases he : extract block with
      | error _ => rw [he] at hqueries; cases hqueries
      | ok e => exact ⟨e, rfl⟩
    exact ⟨hreadable.nonempty, fun tc htc => type_of_known (hreadable.known tc htc)⟩
  · rintro ⟨hnonempty, htypes⟩
    have hreadable : block.Readable := ⟨hnonempty, fun tc htc => hparse tc htc (htypes tc htc)⟩
    rcases extract_ok_iff.mpr hreadable with ⟨e, he⟩
    rw [he]
    exact ⟨e.fullNodeQueries confirmBlocks, rfl, mappedWhole_extract he⟩

end Codec

theorem mappedWhole_iff_transfer :
    (∃ queries, @fullNodeBlockQueries exampleCodec false (transferBlock 1) = .ok queries ∧
      @MappedWhole exampleCodec false (transferBlock 1) queries) ↔
    (∀ trx ∈ (transferBlock 1).transactions, trx.getRawData.contract ≠ []) ∧
      ∀ tc ∈ (transferBlock 1).transactionContracts, tc.2.type ∈ fromContractTypes := by
  have hreadable : @Block.Readable exampleCodec (transferBlock 1) := by decide +kernel
  exact @mappedWhole_iff exampleCodec false (transferBlock 1) fun tc htc _ =>
    @Block.Readable.known exampleCodec _ hreadable tc htc

/-- A transaction with a vote for an asset, of which the enumeration knows. -/
def voteAssetBlock : Block :=
  { emptyBlock 1 with
    transactions := [{ rawData := some { contract := [{ type := .voteAssetContract }] } }] }

/-- The block with it is lost. -/
theorem not_mappedWhole_voteAsset :
    ¬ ∀ (confirmBlocks : Bool) (block : Block), block.blockHeader.isSome = true →
      @Block.ParametersParse exampleCodec block →
      ∃ queries, @fullNodeBlockQueries exampleCodec confirmBlocks block = .ok queries ∧
        @MappedWhole exampleCodec confirmBlocks block queries := by
  intro h
  have hparse : @Block.ParametersParse exampleCodec voteAssetBlock := by
    intro tc htc htype
    rw [List.mem_singleton.mp htc] at htype
    exact absurd htype (by decide)
  rcases h false voteAssetBlock rfl hparse with ⟨queries, hqueries, -⟩
  cases hqueries

end Tronscan
