import Tronscan.Importer.Queries
import Tronscan.Lib.Traverse
import Mathlib.Data.List.ReduceOption

/-!
# What a Block Says

Both importers read a block the same way and differ in what they do with what
they read. `extract` is the reading: the row of the block, the rows of its
transactions, and the models of its contracts. It is where a block can throw,
and the only place. The queries of either importer are then a pure function of
the result.

The partial functions of `DatabaseImporter` are keyed by the declared type of a
contract as well as by its model. The two always agree, a model being read off
a contract by its declared type, so `ContractModel.queries` needs the model
alone. In particular `importUnfreezeBalance` is never reached: its type has no
model.

## Main definitions

* `ContractModel.queries`: The queries of a contract's model.
* `Extracted`: The rows and models of a block.
* `extract`: Reading a block.
* `Block.Readable`: The blocks the program can read.
* `Extracted.fullNodeQueries`, `Extracted.confirmQueries`,
  `Extracted.replaceQueries`: What the importers send for it.

## Theorems

* `events_apply`: The partial functions agree with `ContractModel.queries`.
* `fullNodeBlockQueries_eq`: The full node importer is `extract` and a pure map.
* `buildSolidityBlockQueries_eq`: So is the solidity importer.
* `extract_ok_iff`: Which blocks can be read.
* `extract_sound`: Every row of a block carries its number.
-/

namespace Tronscan

open DatabaseImporter BlockImporter

/-- A row with its flag set. -/
def BlockModel.confirm (confirmed : Bool) (row : BlockModel) : BlockModel :=
  { row with confirmed := confirmed }

/-- The same for a transaction. -/
def TransactionModel.confirm (confirmed : Bool) (row : TransactionModel) : TransactionModel :=
  { row with confirmed := confirmed }

/-- The same for a transfer. -/
def TransferModel.confirm (confirmed : Bool) (row : TransferModel) : TransferModel :=
  { row with confirmed := confirmed }

section Confirm

variable (c : Bool)

@[simp] theorem BlockModel.confirm_number (row : BlockModel) :
    (row.confirm c).number = row.number := rfl

@[simp] theorem BlockModel.confirm_confirmed (row : BlockModel) :
    (row.confirm c).confirmed = c := rfl

@[simp] theorem TransactionModel.confirm_block (row : TransactionModel) :
    (row.confirm c).block = row.block := rfl

@[simp] theorem TransactionModel.confirm_hash (row : TransactionModel) :
    (row.confirm c).hash = row.hash := rfl

@[simp] theorem TransactionModel.confirm_confirmed (row : TransactionModel) :
    (row.confirm c).confirmed = c := rfl

@[simp] theorem TransferModel.confirm_block (row : TransferModel) :
    (row.confirm c).block = row.block := rfl

@[simp] theorem TransferModel.confirm_confirmed (row : TransferModel) :
    (row.confirm c).confirmed = c := rfl

end Confirm

/-- Set the flag of a transfer; the other models have none. -/
def ContractModel.confirm (confirmed : Bool) : ContractModel → ContractModel
  | .transfer row => .transfer (row.confirm confirmed)
  | model => model

/-- The queries of a contract's model. -/
def ContractModel.queries : ContractModel → List Query
  | .transfer row => [.insertTransfer row]
  | .voteWitnessList votes => buildUpdateVotes votes.voterAddress votes.votes
  | .assetIssue row => [.insertAssetIssue row]
  | .participate row => [.insertParticipate row]
  | .witness row => [.upsertWitness row]
  | .updateAsset columns => [.updateAsset columns]

/-- The rows and models of a block. -/
structure Extracted where
  block : BlockModel
  transactions : List TransactionModel
  models : List ContractModel

namespace Extracted

/-- The flag a run gives the transfers of a block; those of block 0 are always
    confirmed. -/
def transferFlag (e : Extracted) (confirmBlocks : Bool) : Bool :=
  confirmBlocks || e.block.number == 0

/-- The queries of a block's contracts. -/
def contractQueries (e : Extracted) (confirmed : Bool) : List Query :=
  e.models.flatMap fun model => (model.confirm confirmed).queries

/-- The queries of a full node run. -/
def fullNodeQueries (e : Extracted) (confirmBlocks : Bool) : List Query :=
  .insertBlock (e.block.confirm confirmBlocks) ::
    (e.transactions.map (fun row => .insertTransaction (row.confirm confirmBlocks)) ++
      e.contractQueries (e.transferFlag confirmBlocks))

/-- The transactions, upserted as confirmed. -/
def upsertQueries (e : Extracted) : List Query :=
  e.transactions.map fun row => .upsertTransaction (row.confirm true)

/-- The queries that confirm a stored block. -/
def confirmQueries (e : Extracted) (id : Int) : List Query :=
  buildConfirmBlock id ++ e.upsertQueries

/-- The queries that replace a stored block. The votes of the old block are not
    deleted. -/
def replaceQueries (e : Extracted) : List Query :=
  buildReplaceBlock e.block ++
    [.deleteTransactions e.block.number, .deleteTransfers e.block.number,
      .deleteAssetIssues e.block.number, .deleteParticipates e.block.number] ++
    e.upsertQueries ++ e.contractQueries true

end Extracted

variable [Codec]

/-- Read a block. -/
def extract (block : Block) : Except Thrown Extracted := do
  let transactions ← block.transactions.mapM fun trx => ModelUtils.transactionToModel trx block
  let models ← block.transactionContracts.mapM fun (trx, contract) =>
    ModelUtils.contractToModel contract trx block
  return ⟨BlockModel.fromProto block, transactions, models.reduceOption⟩

section Events

variable {contract : Contract} {trx : Transaction} {block : Block} {model : ContractModel}

/-- The models a contract of a given declared type can have. -/
def ContractModel.HasType : ContractModel → ContractType → Prop
  | .transfer _, type => type = .transferContract ∨ type = .transferAssetContract
  | .voteWitnessList _, type => type = .voteWitnessContract
  | .assetIssue _, type => type = .assetIssueContract
  | .participate _, type => type = .participateAssetIssueContract
  | .witness _, type => type = .witnessCreateContract ∨ type = .witnessUpdateContract
  | .updateAsset _, type => type = .updateAssetContract

/-- The rows of a model are rows of the block with the number. -/
def ContractModel.OfBlock (number : Int) : ContractModel → Prop
  | .transfer row => row.block = number ∧ row.confirmed = (number == 0)
  | .voteWitnessList votes =>
      ∀ row ∈ votes.votes, row.block = number ∧ row.voterAddress = votes.voterAddress
  | .assetIssue row => row.block = number
  | .participate row => row.block = number
  | .witness _ => True
  | .updateAsset _ => True

omit [Codec] in
theorem parseFrom_map_bind {α β γ : Type} {decoded : Option α} {f : α → β}
    {g : β → Except Thrown γ} {x : γ} :
    ((parseFrom decoded).map f >>= g) = .ok x ↔ ∃ c, decoded = some c ∧ g (f c) = .ok x := by
  cases decoded with
  | none => exact iff_of_false (fun h => by cases h) (fun ⟨_, h, _⟩ => by cases h)
  | some c => exact ⟨fun h => ⟨c, rfl, h⟩, fun ⟨_, hc, h⟩ => by cases hc; exact h⟩

theorem contractToModel_spec (h : ModelUtils.contractToModel contract trx block = .ok (some model)) :
    model.HasType contract.type ∧ model.OfBlock block.number := by
  rcases contract with ⟨type, bytes⟩
  -- The types without a model throw or give `none`, which closes their cases.
  cases type <;> simp only [ModelUtils.contractToModel, ProtoUtils.fromContract,
    parseFrom_map_bind] at h
  case transferContract =>
    rcases h with ⟨c, _, hc⟩
    cases hc
    exact ⟨Or.inl rfl, rfl, rfl⟩
  case transferAssetContract =>
    rcases h with ⟨c, _, hc⟩
    cases hc
    exact ⟨Or.inr rfl, rfl, rfl⟩
  case voteWitnessContract =>
    rcases h with ⟨c, _, hc⟩
    cases hc
    refine ⟨rfl, fun row hrow => ?_⟩
    rcases List.mem_map.mp hrow with ⟨vote, _, rfl⟩
    exact ⟨rfl, rfl⟩
  case witnessCreateContract =>
    rcases h with ⟨c, _, hc⟩
    cases hc
    exact ⟨Or.inl rfl, trivial⟩
  case witnessUpdateContract =>
    rcases h with ⟨c, _, hc⟩
    cases hc
    exact ⟨Or.inr rfl, trivial⟩
  case updateAssetContract =>
    rcases h with ⟨c, _, hc⟩
    cases hc
    exact ⟨rfl, trivial⟩
  case assetIssueContract =>
    rcases h with ⟨c, _, hc⟩
    cases hc
    exact ⟨rfl, rfl⟩
  case participateAssetIssueContract =>
    rcases h with ⟨c, _, hc⟩
    cases hc
    exact ⟨rfl, rfl⟩
  all_goals first
    | (rcases h with ⟨c, _, hc⟩; cases hc)
    | cases h

omit [Codec] in
theorem HasType_confirm {type : ContractType} (c : Bool) (h : model.HasType type) :
    (model.confirm c).HasType type := by
  cases model <;> exact h

/-- Where the model agrees with the declared type, the partial functions of
    either importer give the queries of the model. -/
theorem events_apply (h : model.HasType contract.type) :
    fullNodeEvents.apply contract.type contract model = .ok model.queries ∧
      solidityEvents.apply contract.type contract model = .ok model.queries := by
  rcases contract with ⟨type, bytes⟩
  cases model with
  | transfer row => rcases h with rfl | rfl <;> exact ⟨rfl, rfl⟩
  | voteWitnessList votes => cases h; exact ⟨rfl, rfl⟩
  | assetIssue row => cases h; exact ⟨rfl, rfl⟩
  | participate row => cases h; exact ⟨rfl, rfl⟩
  | witness row => rcases h with rfl | rfl <;> exact ⟨rfl, rfl⟩
  | updateAsset columns => cases h; exact ⟨rfl, rfl⟩

theorem fullNodeContractQueries_eq (c : Bool) :
    fullNodeContractQueries c block trx contract =
      (ModelUtils.contractToModel contract trx block).map fun model? =>
        (model?.map fun model => (model.confirm (c || block.number == 0)).queries).getD [] := by
  rw [fullNodeContractQueries]
  cases hmodel : ModelUtils.contractToModel contract trx block with
  | error e => rfl
  | ok model? =>
      cases model? with
      | none => rfl
      | some model =>
          -- The declared type is that of the model, so one of the partial
          -- functions is defined.
          have htype := (contractToModel_spec hmodel).1
          have happly := (events_apply (HasType_confirm (c || block.number == 0) htype)).1
          cases model <;> exact happly

theorem solidityContractQueries_eq (replaceBlock : Bool) :
    solidityContractQueries replaceBlock block trx contract =
      (ModelUtils.contractToModel contract trx block).map fun model? =>
        if replaceBlock then (model?.map fun model => (model.confirm true).queries).getD []
        else [] := by
  rw [solidityContractQueries]
  cases hmodel : ModelUtils.contractToModel contract trx block with
  | error e => rfl
  | ok model? =>
      cases model? with
      | none => cases replaceBlock <;> rfl
      | some model =>
          have htype := (contractToModel_spec hmodel).1
          have happly := (events_apply (HasType_confirm true htype)).2
          cases replaceBlock with
          -- A confirmation skips the contract, whatever its model is.
          | false => cases model <;> rfl
          | true => cases model <;> exact happly

end Events

omit [Codec] in
/-- Models that are absent add no queries. -/
theorem flatten_getD_reduceOption {α β : Type} (f : α → List β) (xs : List (Option α)) :
    (xs.map fun x => (x.map f).getD []).flatten = xs.reduceOption.flatMap f := by
  induction xs with
  | nil => rfl
  | cons x xs ih =>
      rw [List.map_cons, List.flatten_cons, ih]
      cases x with
      | none => rfl
      | some y => rfl

/-- Reading a block row by row and contract by contract, mapping each result
    on the way, is reading it first and mapping afterwards. -/
theorem extract_map {block : Block} (head : List Query) {f : TransactionModel → Query}
    {g : ContractModel → List Query} {F : Extracted → List Query}
    (hF : ∀ rows models, F ⟨BlockModel.fromProto block, rows, models⟩ =
      head ++ rows.map f ++ models.flatMap g) :
    (do
      let transactions ← block.transactions.mapM fun trx =>
        (ModelUtils.transactionToModel trx block).map f
      let contracts ← block.transactionContracts.mapM fun tc =>
        (ModelUtils.contractToModel tc.2 tc.1 block).map fun model? => (model?.map g).getD []
      return head ++ transactions ++ contracts.flatten) = (extract block).map F := by
  rw [Lib.mapM_map_ok, extract,
    Lib.mapM_map_ok (fun tc : Transaction × Contract => ModelUtils.contractToModel tc.2 tc.1 block)]
  -- An exception is the same on both sides.
  cases block.transactions.mapM fun trx => ModelUtils.transactionToModel trx block with
  | error e => rfl
  | ok rows =>
      cases block.transactionContracts.mapM fun tc =>
          ModelUtils.contractToModel tc.2 tc.1 block with
      | error e => rfl
      | ok models =>
          refine congrArg Except.ok (Eq.trans ?_ (hF rows models.reduceOption).symm)
          exact congrArg (head ++ rows.map f ++ ·) (flatten_getD_reduceOption g models)

/-- The full node importer reads a block and maps what it read. -/
theorem fullNodeBlockQueries_eq (c : Bool) (block : Block) :
    fullNodeBlockQueries c block = (extract block).map fun e => e.fullNodeQueries c := by
  refine Eq.trans ?_ (extract_map
    [.insertBlock ((BlockModel.fromProto block).confirm c)]
    (f := fun row => .insertTransaction (row.confirm c))
    (g := fun model => (model.confirm (c || block.number == 0)).queries) fun _ _ => rfl)
  simp only [fullNodeBlockQueries, fullNodeContractQueries_eq]
  rfl

/-- The solidity importer reads a block and maps what it read, one way or the
    other. -/
theorem buildSolidityBlockQueries_eq (block : Block) (row : BlockModel) :
    buildSolidityBlockQueries block row = (extract block).map fun e =>
      if block.hash = row.hash then e.confirmQueries row.number else e.replaceQueries := by
  by_cases hhash : block.hash = row.hash
  · simp only [if_pos hhash]
    refine Eq.trans ?_ (extract_map (buildConfirmBlock row.number)
      (f := fun row => .upsertTransaction (row.confirm true))
      (g := fun _ => []) fun rows models => ?_)
    · -- The contracts have no queries.
      have hskip : (fun model? : Option ContractModel =>
          (model?.map fun _ => ([] : List Query)).getD []) = fun _ => [] := by
        funext model?
        cases model? <;> rfl
      simp only [buildSolidityBlockQueries, solidityContractQueries_eq, hhash, bne_self_eq_false,
        Bool.false_eq_true, if_false, hskip]
      rfl
    · rw [List.flatMap_eq_nil_iff.mpr fun _ _ => rfl, List.append_nil]
      rfl
  · simp only [if_neg hhash]
    refine Eq.trans ?_ (extract_map
      (buildReplaceBlock (BlockModel.fromProto block) ++
        [.deleteTransactions block.number, .deleteTransfers block.number,
          .deleteAssetIssues block.number, .deleteParticipates block.number])
      (f := fun row => .upsertTransaction (row.confirm true))
      (g := fun model => (model.confirm true).queries) fun _ _ => rfl)
    have hreplace : (block.hash != row.hash) = true := bne_iff_ne.mpr hhash
    simp only [buildSolidityBlockQueries, solidityContractQueries_eq, hreplace, if_true]
    rfl

section Readable

/-- The program can decode the contract. -/
def Contract.Known (contract : Contract) : Prop :=
  ∃ message, ProtoUtils.fromContract contract = .ok message

/-- Every transaction has a contract, and every contract can be decoded. -/
structure Block.Readable (block : Block) : Prop where
  nonempty : ∀ trx ∈ block.transactions, trx.getRawData.contract ≠ []
  known : ∀ tc ∈ block.transactionContracts, tc.2.Known

variable {block : Block} {trx : Transaction} {contract : Contract}

theorem getOwner_ok_iff : (∃ owner, ContractUtils.getOwner contract = .ok owner) ↔
    contract.Known := by
  rw [ContractUtils.getOwner, Contract.Known]
  cases ProtoUtils.fromContract contract with
  | error e => exact iff_of_false (fun ⟨_, h⟩ => by cases h) (fun ⟨_, h⟩ => by cases h)
  | ok message => exact iff_of_true (by cases message <;> exact ⟨_, rfl⟩) ⟨message, rfl⟩

theorem contractToModel_ok_iff :
    (∃ model?, ModelUtils.contractToModel contract trx block = .ok model?) ↔ contract.Known := by
  rw [ModelUtils.contractToModel, Contract.Known]
  cases ProtoUtils.fromContract contract with
  | error e => exact iff_of_false (fun ⟨_, h⟩ => by cases h) (fun ⟨_, h⟩ => by cases h)
  | ok message => exact iff_of_true (by cases message <;> exact ⟨_, rfl⟩) ⟨message, rfl⟩

/-- What `fromContract` decodes, the serialiser decodes as well. -/
theorem serializeContract_ok (h : contract.Known) :
    ∃ json, TransactionSerializer.serializeContract contract = .ok json := by
  rcases contract with ⟨type, bytes⟩
  rcases h with ⟨message, h⟩
  have hparse : ∀ {α β γ : Type} {decoded : Option α} {f : α → β} {g : α → γ} {y : β},
      (parseFrom decoded).map f = .ok y → ∃ z, (parseFrom decoded).map g = .ok z := by
    intro α β γ decoded f g y hy
    cases decoded with
    | none => cases hy
    | some c => exact ⟨g c, rfl⟩
  cases type <;> first
    | exact hparse h
    | cases h

theorem transactionToModel_ok_iff (hknown : ∀ c ∈ trx.getRawData.contract, c.Known) :
    (∃ row, ModelUtils.transactionToModel trx block = .ok row) ↔
      trx.getRawData.contract ≠ [] := by
  simp only [ModelUtils.transactionToModel]
  cases hcontract : trx.getRawData.contract with
  | nil => exact iff_of_false (fun ⟨_, h⟩ => by cases h) (fun h => h rfl)
  | cons head rest =>
      have hhead : head.Known := hknown head (hcontract ▸ List.mem_cons_self)
      rcases getOwner_ok_iff.mpr hhead with ⟨owner, howner⟩
      rcases serializeContract_ok hhead with ⟨json, hjson⟩
      refine iff_of_true ?_ (List.cons_ne_nil head rest)
      simp only [howner, hjson]
      exact ⟨_, rfl⟩

/-- Reading a block throws on an empty transaction and on a contract that does
    not decode, and on nothing else. -/
theorem extract_ok_iff : (∃ e, extract block = .ok e) ↔ block.Readable := by
  -- The models can be read when the contracts decode. Given that, the rows can
  -- when there is a contract to read them off.
  have hmodels : (∃ models, (block.transactionContracts.mapM fun tc =>
      ModelUtils.contractToModel tc.2 tc.1 block) = .ok models) ↔
      ∀ tc ∈ block.transactionContracts, tc.2.Known := by
    rw [Lib.exists_mapM_ok_iff]
    exact forall₂_congr fun tc _ => contractToModel_ok_iff
  have hrows (hknown : ∀ tc ∈ block.transactionContracts, tc.2.Known) :
      (∃ rows, (block.transactions.mapM fun trx => ModelUtils.transactionToModel trx block) =
        .ok rows) ↔ ∀ trx ∈ block.transactions, trx.getRawData.contract ≠ [] := by
    rw [Lib.exists_mapM_ok_iff]
    refine forall₂_congr fun trx htrx => transactionToModel_ok_iff fun c hc => ?_
    exact hknown (trx, c) (List.mem_flatMap.mpr ⟨trx, htrx, List.mem_map_of_mem hc⟩)
  constructor
  · rintro ⟨e, h⟩
    rcases Lib.bind_ok_iff.mp h with ⟨rows, htransactions, h⟩
    rcases Lib.bind_ok_iff.mp h with ⟨models, hcontracts, _⟩
    have hknown := hmodels.mp ⟨models, hcontracts⟩
    exact ⟨(hrows hknown).mp ⟨rows, htransactions⟩, hknown⟩
  · rintro ⟨hnonempty, hknown⟩
    rcases hmodels.mpr hknown with ⟨models, hcontracts⟩
    rcases (hrows hknown).mpr hnonempty with ⟨rows, htransactions⟩
    refine ⟨⟨BlockModel.fromProto block, rows, models.reduceOption⟩, ?_⟩
    exact Lib.bind_ok_iff.mpr ⟨rows, htransactions, Lib.bind_ok_iff.mpr ⟨models, hcontracts, rfl⟩⟩

instance : Decidable block.Readable :=
  decidable_of_iff ((extract block).isOk = true) <| by
    rw [← extract_ok_iff]
    cases extract block with
    | error e => exact iff_of_false Bool.false_ne_true (fun ⟨_, h⟩ => by cases h)
    | ok e => exact iff_of_true rfl ⟨e, rfl⟩

/-- A block without transactions throws nothing. -/
theorem readable_of_nil (h : block.transactions = []) : block.Readable := by
  constructor
  · intro trx htrx
    rw [h] at htrx
    exact absurd htrx List.not_mem_nil
  · intro tc htc
    rw [Block.transactionContracts, h] at htc
    exact absurd htc List.not_mem_nil

end Readable

section Rows

variable {block : Block} {e : Extracted}

/-- Every row read off a block carries its number, and the transactions its
    hashes in order. -/
structure Extracted.Sound (e : Extracted) (block : Block) : Prop where
  block_eq : e.block = BlockModel.fromProto block
  transactions_block : ∀ row ∈ e.transactions, row.block = block.number
  transactions_hash : e.transactions.map (·.hash) = block.transactions.map Transaction.hash
  models_block : ∀ model ∈ e.models, model.OfBlock block.number

theorem transactionToModel_spec {trx : Transaction} {row : TransactionModel}
    (h : ModelUtils.transactionToModel trx block = .ok row) :
    row.block = block.number ∧ row.hash = trx.hash ∧ row.confirmed = false := by
  simp only [ModelUtils.transactionToModel] at h
  split at h
  · cases h
  · rcases Lib.bind_ok_iff.mp h with ⟨owner, _, h⟩
    rcases Lib.bind_ok_iff.mp h with ⟨data, _, h⟩
    cases h
    exact ⟨rfl, rfl, rfl⟩

theorem extract_sound (h : extract block = .ok e) : e.Sound block := by
  rcases Lib.bind_ok_iff.mp h with ⟨rows, hrows, h⟩
  rcases Lib.bind_ok_iff.mp h with ⟨models, hmodels, h⟩
  cases h
  have htransactions : ∀ row ∈ rows, row.block = block.number := by
    intro row hrow
    rcases Lib.mapM_ok_mem hrows hrow with ⟨trx, _, htrx⟩
    exact (transactionToModel_spec htrx).1
  have hmodel : ∀ model ∈ models.reduceOption, model.OfBlock block.number := by
    intro model hmem
    rcases Lib.mapM_ok_mem hmodels (List.reduceOption_mem_iff.mp hmem) with ⟨tc, _, htc⟩
    exact (contractToModel_spec htc).2
  have hhash : rows.map (·.hash) = block.transactions.map Transaction.hash :=
    Lib.mapM_ok_map (fun _ _ htrx => (transactionToModel_spec htrx).2.1) hrows
  exact ⟨rfl, htransactions, hhash, hmodel⟩

end Rows

end Tronscan
