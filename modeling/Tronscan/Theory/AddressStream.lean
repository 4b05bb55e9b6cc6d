import Tronscan.Importer.History
import Tronscan.Lib.Stream
import Tronscan.Core.Wire

/-!
# The Addresses of a Run

`buildBlockSink` derives two streams of addresses from the blocks it is sent:
the witnesses, as far as they are addresses, and the owners and recipients of
the contracts. A merge mixes them in whatever order they arrive, and what is new
goes on to the address importers.

`blockAddresses` is the sequence with the witnesses first, which is one order
among others. `addressStream_perm` is why it may stand for all of them.

## Main definitions

* `witnessAddresses`, `contractAddresses`: The two streams.
* `addressStream`: What the importers get, for an order of the merge.
* `ContractMessage.ownerAddress`, `ContractMessage.recipientAddress`: The addresses they
  should get, as fields of the messages.

## Theorems

* `getOwner_eq`, `getTo_eq`: What the code reads off a contract, by the fields.
* `mem_contractAddresses`: The addresses of the contracts.
* `addressStream_perm`: The order of the merge decides on the order only.
* `addressStream_spec`: The importers get every address, once.
-/

namespace Tronscan

namespace ContractMessage

/-- The owner that a message names. -/
def ownerAddress : ContractMessage → Bytes
  | .accountCreate c => c.ownerAddress
  | .transfer c => c.ownerAddress
  | .transferAsset c => c.ownerAddress
  | .voteAsset c => c.ownerAddress
  | .voteWitness c => c.ownerAddress
  | .assetIssue c => c.ownerAddress
  | .deploy c => c.ownerAddress
  | .participateAssetIssue c => c.ownerAddress
  | .witnessCreate c => c.ownerAddress
  | .witnessUpdate c => c.ownerAddress
  | .freezeBalance c => c.ownerAddress
  | .unfreezeBalance c => c.ownerAddress
  | .accountUpdate c => c.ownerAddress
  | .withdrawBalance c => c.ownerAddress
  | .unfreezeAsset c => c.ownerAddress
  | .updateAsset c => c.ownerAddress

/-- The recipient, of a transfer, a participation, and the account that is created. -/
def recipientAddress : ContractMessage → Option Bytes
  | .transfer c => some c.toAddress
  | .transferAsset c => some c.toAddress
  | .participateAssetIssue c => some c.toAddress
  | .accountCreate c => some c.accountAddress
  | .voteAsset _ | .voteWitness _ | .assetIssue _ | .deploy _ | .witnessCreate _
  | .witnessUpdate _ | .freezeBalance _ | .unfreezeBalance _ | .accountUpdate _
  | .withdrawBalance _ | .unfreezeAsset _ | .updateAsset _ => none

/-- The address is that of the owner or the recipient of a message. -/
def Names [Codec] (message : ContractMessage) (address : String) : Prop :=
  encodeAddress message.ownerAddress = address ∨
    ∃ recipient ∈ message.recipientAddress, encodeAddress recipient = address

end ContractMessage

section Streams

variable [Codec]

/-- `blocks.map(_.witness).filter(_.length == 34)` -/
def witnessAddresses (blocks : List Block) : List String :=
  (blocks.map Block.witness).filter (·.length == 34)

/-- `contracts.mapConcat(_._3.addresses)`, the contracts of the blocks in order. -/
def contractAddresses (blocks : List Block) : List String :=
  blocks.flatMap fun block => block.transactionContracts.flatMap fun tc =>
    emitted (ContractUtils.getAddresses tc.2)

omit [Codec] in
/-- `StreamUtils.distinct`, after the merge has let through `merged`. -/
def addressStream (merged : List String) : List String := Lib.distinctFrom ∅ merged

variable {blocks : List Block} {address : String} {contract : Contract}

theorem mem_witnessAddresses : address ∈ witnessAddresses blocks ↔
    ∃ block ∈ blocks, block.witness = address ∧ address.length = 34 := by
  simp only [witnessAddresses, List.mem_filter, List.mem_map, beq_iff_eq]
  constructor
  · rintro ⟨⟨block, hblock, hwitness⟩, hlength⟩
    exact ⟨block, hblock, hwitness, hlength⟩
  · rintro ⟨block, hblock, hwitness, hlength⟩
    exact ⟨⟨block, hblock, hwitness⟩, hlength⟩

theorem getOwner_eq : ContractUtils.getOwner contract =
    (ProtoUtils.fromContract contract).map fun message => encodeAddress message.ownerAddress := by
  rw [ContractUtils.getOwner]
  cases ProtoUtils.fromContract contract with
  | error e => rfl
  | ok message => cases message <;> rfl

theorem getTo_eq : ContractUtils.getTo contract =
    (ProtoUtils.fromContract contract).map fun message =>
      message.recipientAddress.map encodeAddress := by
  rw [ContractUtils.getTo]
  cases ProtoUtils.fromContract contract with
  | error e => rfl
  | ok message => cases message <;> rfl

/-- A contract passes on the owner and the recipient of its message, if it has one. -/
theorem mem_emitted_getAddresses : address ∈ emitted (ContractUtils.getAddresses contract) ↔
    ∃ message, ProtoUtils.fromContract contract = .ok message ∧ message.Names address := by
  rw [ContractUtils.getAddresses, getOwner_eq, getTo_eq]
  cases ProtoUtils.fromContract contract with
  | error e => exact iff_of_false List.not_mem_nil fun ⟨_, h, _⟩ => by cases h
  | ok message =>
      have hlist : address ∈ encodeAddress message.ownerAddress ::
          (message.recipientAddress.map encodeAddress).toList ↔ message.Names address := by
        rw [List.mem_cons, Option.mem_toList, eq_comm (a := address), ContractMessage.Names]
        simp only [Option.mem_def, Option.map_eq_some_iff]
      refine hlist.trans ⟨fun h => ⟨message, rfl, h⟩, ?_⟩
      rintro ⟨_, hmessage, h⟩
      cases hmessage
      exact h

theorem mem_contractAddresses : address ∈ contractAddresses blocks ↔
    ∃ block ∈ blocks, ∃ trx ∈ block.transactions, ∃ contract ∈ trx.getRawData.contract,
      ∃ message, ProtoUtils.fromContract contract = .ok message ∧ message.Names address := by
  simp only [contractAddresses, List.mem_flatMap, mem_emitted_getAddresses,
    Block.transactionContracts, List.mem_map]
  refine exists_congr fun block => and_congr_right fun _ => ⟨?_, ?_⟩
  · rintro ⟨_, ⟨trx, htrx, contract, hcontract, rfl⟩, hnames⟩
    exact ⟨trx, htrx, contract, hcontract, hnames⟩
  · rintro ⟨trx, htrx, contract, hcontract, hnames⟩
    exact ⟨(trx, contract), ⟨trx, htrx, contract, hcontract, rfl⟩, hnames⟩

/-- With the witnesses first, the stream is the sequence a run hands over. -/
theorem addressStream_append :
    addressStream (witnessAddresses blocks ++ contractAddresses blocks) = blockAddresses blocks := by
  unfold addressStream blockAddresses
  rw [Lib.distinctFrom_eq_eraseDups]
  simp [witnessAddresses, contractAddresses]

/-- Any other order of the merge gives the same addresses in another order. -/
theorem addressStream_perm {merged : List String}
    (h : Lib.Interleaving (witnessAddresses blocks) (contractAddresses blocks) merged) :
    (addressStream merged).Perm (blockAddresses blocks) := by
  rw [← addressStream_append]
  exact Lib.distinct_perm fun a => h.perm.mem_iff

/-- In whatever order the merge lets the addresses through, the importers get
    the witnesses that are addresses and the owner and the recipient of every
    contract, each once. -/
theorem addressStream_spec {merged : List String}
    (h : Lib.Interleaving (witnessAddresses blocks) (contractAddresses blocks) merged) :
    (addressStream merged).Nodup ∧
    ∀ address, address ∈ addressStream merged ↔
      (∃ block ∈ blocks, encodeAddress block.getBlockHeader.getRawData.witnessAddress = address ∧
        address.length = 34) ∨
      ∃ block ∈ blocks, ∃ trx ∈ block.transactions, ∃ contract ∈ trx.getRawData.contract,
        ∃ message, ProtoUtils.fromContract contract = .ok message ∧ message.Names address := by
  refine ⟨Lib.nodup_distinctFrom _ _, fun address => ?_⟩
  unfold addressStream
  rw [Lib.mem_distinctFrom, h.mem_iff, mem_witnessAddresses, mem_contractAddresses,
    and_iff_left (Finset.notMem_empty address)]
  exact Iff.rfl

end Streams

/-- A block by the owner of the transfer in it. -/
def ownedBlock : Block :=
  { transactions := [exampleTransaction]
    blockHeader := some { rawData := some { number := 1, witnessAddress := exampleOwner } } }

/-- The witness may come after the contracts of its block. -/
theorem addressStream_spec_late : ∃ owner recipient,
    @witnessAddresses exampleCodec [ownedBlock] = [owner] ∧
    @contractAddresses exampleCodec [ownedBlock] = [owner, recipient] ∧
    (addressStream [owner, recipient, owner]).Nodup ∧
    ∀ address, address ∈ addressStream [owner, recipient, owner] ↔
      (∃ block ∈ [ownedBlock],
        @encodeAddress exampleCodec block.getBlockHeader.getRawData.witnessAddress = address ∧
          address.length = 34) ∨
      ∃ block ∈ [ownedBlock], ∃ trx ∈ block.transactions, ∃ contract ∈ trx.getRawData.contract,
        ∃ message, @ProtoUtils.fromContract exampleCodec contract = .ok message ∧
          @ContractMessage.Names exampleCodec message address := by
  have hwitness : @witnessAddresses exampleCodec [ownedBlock] =
      [@encodeAddress exampleCodec exampleOwner] := by decide +kernel
  have hcontracts : @contractAddresses exampleCodec [ownedBlock] =
      [@encodeAddress exampleCodec exampleOwner, @encodeAddress exampleCodec exampleRecipient] := by
    decide +kernel
  refine ⟨_, _, hwitness, hcontracts, @addressStream_spec exampleCodec [ownedBlock] _ ?_⟩
  rw [hwitness, hcontracts]
  exact .right (.right (.left .nil))

end Tronscan
