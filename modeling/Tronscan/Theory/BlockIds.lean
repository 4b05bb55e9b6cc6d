import Tronscan.Api.Blocks
import Mathlib.Data.Int.ModEq

/-!
# Block Ids

The id of a block is the hash of its header with the number written over the
first eight bytes. A header names its parent by the parent's id, so the number of
the parent is in there too. The row of a block is made by writing it over once
more, as the block's own number less one, and where the blocks follow each other
this changes nothing.

Numbers are `Long`s, and adding and subtracting one wraps around. Since eight
bytes hold the number modulo `2 ^ 64`, this makes no difference to the ids.

## Main definitions

* `ParentHashShown`: Wherever a block is shown, this is the hash of its parent.

## Theorems

* `fromLong_eq_iff`: Eight bytes determine a number modulo `2 ^ 64`.
* `parentHash_eq_hashBytes`: Overlaying the number twice.
* `blockIds`: Ids link the blocks, differ, and have the reference as a part.
-/

namespace Tronscan

open Lib

/-! ## Eight bytes -/

theorem digits_fromLong (n : Int) :
    Base58.digits (fromLong n) = padded 256 8 (n % 2 ^ 64).toNat := by
  simp only [fromLong, Base58.digits, List.map_cons, List.map_nil, padded, UInt8.toNat_ofNat',
    List.nil_append, List.cons_append, Nat.div_div_eq_div_mul, Nat.mod_mod_of_dvd _ (dvd_refl 256)]
  norm_num

/-- Eight bytes determine a number modulo `2 ^ 64`. -/
theorem fromLong_eq_iff {m n : Int} : fromLong m = fromLong n ↔ m ≡ n [ZMOD 2 ^ 64] := by
  have hvalue : ∀ k : Int, value 256 (Base58.digits (fromLong k)) = (k % 2 ^ 64).toNat := by
    intro k
    have hlt := Int.emod_lt_of_pos k (by norm_num : (0 : Int) < 2 ^ 64)
    rw [digits_fromLong, value_padded, Nat.mod_eq_of_lt (by omega)]
  constructor
  · intro h
    have hm := hvalue m
    rw [h, hvalue n] at hm
    have hm0 := Int.emod_nonneg m (by norm_num : (2 : Int) ^ 64 ≠ 0)
    have hn0 := Int.emod_nonneg n (by norm_num : (2 : Int) ^ 64 ≠ 0)
    show m % 2 ^ 64 = n % 2 ^ 64
    omega
  · intro h
    unfold fromLong
    rw [h]

theorem length_fromLong (n : Int) : (fromLong n).length = 8 := rfl

section Ids

variable [Codec] {b b' : Block}

/-- What is behind the number is the hash of the header. -/
theorem drop_hashBytes (b : Block) : b.hashBytes.drop 8 = b.rawHash.drop 8 :=
  List.drop_left' (length_fromLong _)

theorem length_hashBytes (b : Block) : b.hashBytes.length = 32 := by
  rw [Block.hashBytes, BlockId.hash, List.length_append, length_fromLong, List.length_drop,
    Block.rawHash, Codec.sha256_length]

/-- Writing the number over an id that has it already changes nothing. -/
theorem parentHash_eq_hashBytes (hnumber : b'.number ≡ b.number + 1 [ZMOD 2 ^ 64])
    (hparent : b'.getBlockHeader.getRawData.parentHash = b.hashBytes) :
    b'.parentHash = b.hashBytes := by
  have hlong : fromLong (b'.number - 1) = fromLong b.number := by
    rw [fromLong_eq_iff]
    simpa using hnumber.sub_right 1
  rw [Block.parentHash, hparent, BlockId.hash, hlong, drop_hashBytes, Block.hashBytes, BlockId.hash]

/-- The first eight bytes of an id are the number. -/
theorem number_of_hash_eq (h : b.hash = b'.hash) : b.number ≡ b'.number [ZMOD 2 ^ 64] := by
  have hbytes : b.hashBytes = b'.hashBytes := toHexString_injective h
  exact fromLong_eq_iff.mp (List.append_inj_left hbytes rfl)

variable [Signing] [Packing] [BuilderNode]

/-- Wherever the block is stored or shown, this is the hash of its parent. -/
structure ParentHashShown (block : Block) (hash : String) : Prop where
  fromProto : (BlockModel.fromProto block).parentHash = hash
  latest : BuilderNode.getNowBlock = some block →
    BlockApi.latest.bind (·.field "parentHash") = some (.str hash)
  encodeBlock : ∀ json, TronModelsSerializers.encodeBlock block = some json →
    json.field "parentHash" = some (.str hash)
  encodeBlock_some : (∃ json, TronModelsSerializers.encodeBlock block = some json) ↔
    ∀ trx ∈ block.transactions, ∃ json, TransactionSerializer.serialize trx = some json

omit [BuilderNode] in
/-- Where the parent's hash has 32 bytes it is shown as it is, if the transactions
    can be printed. -/
theorem encodeBlock_eq (hlength : b.getBlockHeader.getRawData.parentHash.length = 32) :
    (∀ json, TronModelsSerializers.encodeBlock b = some json →
      json.field "parentHash" =
        some (.str (toHexString b.getBlockHeader.getRawData.parentHash))) ∧
    ((∃ json, TronModelsSerializers.encodeBlock b = some json) ↔
      ∀ trx ∈ b.transactions, ∃ json, TransactionSerializer.serialize trx = some json) := by
  unfold TronModelsSerializers.encodeBlock Sha256Hash.wrap
  simp only [dif_pos hlength, Option.bind_eq_bind, Option.bind_some]
  constructor
  · intro json h
    rcases Option.bind_eq_some_iff.mp h with ⟨transactions, -, h⟩
    cases h
    rfl
  · rw [← exists_mapM_some_iff]
    constructor
    · rintro ⟨json, h⟩
      rcases Option.bind_eq_some_iff.mp h with ⟨transactions, htransactions, -⟩
      exact ⟨transactions, htransactions⟩
    · rintro ⟨transactions, htransactions⟩
      rw [htransactions]
      exact ⟨_, rfl⟩

/-- A block that names another as its parent shows its id everywhere. -/
theorem parentHashShown (hnumber : b'.number ≡ b.number + 1 [ZMOD 2 ^ 64])
    (hparent : b'.getBlockHeader.getRawData.parentHash = b.hashBytes) :
    ParentHashShown b' b.hash := by
  have hshown := encodeBlock_eq (b := b') (by rw [hparent, length_hashBytes])
  rw [hparent] at hshown
  refine ⟨?_, fun hnow => ?_, hshown.1, hshown.2⟩
  · exact congrArg toHexString (parentHash_eq_hashBytes hnumber hparent)
  · unfold BlockApi.latest
    rw [hnow, Option.bind_eq_bind, Option.bind_some]
    dsimp only
    rw [hparent]
    rfl

/-- Ids link the blocks wherever they are shown, different numbers have different
    ids, and the reference in a transaction is a part of the id. -/
theorem blockIds :
    (∀ b b' : Block, b'.number ≡ b.number + 1 [ZMOD 2 ^ 64] →
      b'.getBlockHeader.getRawData.parentHash = b.hashBytes →
      ParentHashShown b' (BlockModel.fromProto b).hash) ∧
    (∀ b b' : Block, IsLong b.number → IsLong b'.number → b.number ≠ b'.number →
      (BlockModel.fromProto b).hash ≠ (BlockModel.fromProto b').hash) ∧
    ∀ (b : Block) (transaction : Transaction) (raw : TransactionRaw),
      BuilderNode.getNowBlock = some b → transaction.rawData = some raw →
      ∃ referring, TransactionBuilder.setReference transaction = some referring ∧
        referring.getRawData.refBlockBytes = (b.hashBytes.drop 6).take 2 ∧
        referring.getRawData.refBlockHash = (b.hashBytes.drop 8).take 8 := by
  refine ⟨fun b b' => parentHashShown, fun b b' hb hb' hne h => hne ?_,
    fun b transaction raw hnow hraw => ?_⟩
  · -- The ids agree, so the numbers do where they are Longs.
    have hnumber : b.number % 2 ^ 64 = b'.number % 2 ^ 64 := number_of_hash_eq h
    unfold IsLong at hb hb'
    omega
  · unfold TransactionBuilder.setReference
    rw [hnow, hraw]
    refine ⟨_, rfl, rfl, ?_⟩
    rw [drop_hashBytes]
    rfl

end Ids

/-- The first block, and the second, which is the latest. -/
@[reducible] def secondBlockNode : BuilderNode where
  getNowBlock := some (childBlock (emptyBlock 0) 0 [])
  now := 0
  sign _ _ := none
  broadcastTransaction _ := none

theorem blockIds_second :
    @ParentHashShown exampleCodec exampleSigning examplePacking secondBlockNode
      (childBlock (emptyBlock 0) 0 []) (@BlockModel.fromProto exampleCodec (emptyBlock 0)).hash ∧
    (@BlockModel.fromProto exampleCodec (emptyBlock 0)).hash ≠
      (@BlockModel.fromProto exampleCodec (childBlock (emptyBlock 0) 0 [])).hash :=
  have h := @blockIds exampleCodec exampleSigning examplePacking secondBlockNode
  ⟨h.1 (emptyBlock 0) (childBlock (emptyBlock 0) 0 []) rfl rfl,
    h.2.1 (emptyBlock 0) (childBlock (emptyBlock 0) 0 []) ⟨by decide, by decide⟩
      ⟨by decide, by decide⟩ (by decide)⟩

end Tronscan
