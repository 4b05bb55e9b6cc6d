import Tronscan.Theory.AddressStream
import Tronscan.Core.Decoding

/-!
# Main Net Addresses

An address of the main net is twenty-one bytes, the first of them the prefix of
the net, and four more are added as its checksum. So the number that is encoded
has twenty-five digits in base 256, of which the first is known. Whatever the
others are, it lies between two multiples of the same power of 58, and its numeral
has a known first digit and length.

The block sink takes the witnesses with an address of that length, so it loses
none of them.

## Main definitions

* `MainNetFormatter.IsAddress`: The bytes of an address of the main net.

## Theorems

* `encode58Check_mainNet`: The digits of such an address.
* `mainNet_witnesses`: All have 34 characters, and their witnesses are kept.
-/

namespace Tronscan

/-- `MainNetFormatter.prefixByte`. -/
def MainNetFormatter.prefixByte : UInt8 := 0x41

/-- The bytes of an address, with the prefix of the main net. -/
def MainNetFormatter.IsAddress (payload : Bytes) : Prop :=
  payload.length = 21 ∧ payload.head? = some prefixByte

instance (payload : Bytes) : Decidable (MainNetFormatter.IsAddress payload) :=
  inferInstanceAs (Decidable (_ ∧ _))

section Addresses

open Lib

variable [Codec]

/-- The number of an address with its checksum is between two multiples of a power
    of 58, so its first digit in base 58 is known, and how many follow. -/
theorem encode58Check_mainNet {payload : Bytes} (h : MainNetFormatter.IsAddress payload) :
    ∃ ds : List Nat, ds.length = 33 ∧
      Base58.encode58Check payload =
        String.ofList ('T' :: ds.map (Base58.ALPHABET.getD · '1')) := by
  rcases payload with _ | ⟨first, rest⟩
  · cases h.1
  have hfirst : first.toNat = 65 := by rw [Option.some.inj h.2]; rfl
  have hrest : rest.length = 20 := Nat.succ.inj h.1
  unfold Base58.encode58Check
  rw [Base58.encode_eq]
  generalize hchecksum : (Codec.sha256 (Codec.sha256 (first :: rest))).take 4 = checksum
  have hlength : (Base58.digits (rest ++ checksum)).length = 24 := by
    rw [Base58.digits, List.length_map, List.length_append, hrest, ← hchecksum, List.length_take,
      Codec.sha256_length]
    rfl
  have hlow := value_lt (by omega) (Base58.digits_lt (rest ++ checksum))
  have hdigits : Base58.digits (first :: rest ++ checksum) =
      65 :: Base58.digits (rest ++ checksum) := by
    simp [Base58.digits, hfirst]
  rw [hlength] at hlow
  refine ⟨padded 58 33 (65 * 256 ^ 24 + value 256 (Base58.digits (rest ++ checksum))),
    length_padded _ _ _, ?_⟩
  rw [hdigits, convert, value_cons, hlength, numeral_eq_cons (k := 26) (m := 33) (by omega) (by omega)
    (by omega) (by omega)]
  rfl

/-- An address of the main net has 34 characters and begins with a `T`, and the
    block sink keeps every witness that has one. -/
theorem mainNet_witnesses :
    (∀ payload, MainNetFormatter.IsAddress payload →
      (Base58.encode58Check payload).length = 34 ∧
        (Base58.encode58Check payload).toList.head? = some 'T') ∧
    ∀ blocks : List Block,
      ((blocks.filter fun block =>
        MainNetFormatter.IsAddress block.getBlockHeader.getRawData.witnessAddress).map
          Block.witness).Sublist (witnessAddresses blocks) := by
  have haddress : ∀ payload, MainNetFormatter.IsAddress payload →
      (Base58.encode58Check payload).length = 34 ∧
        (Base58.encode58Check payload).toList.head? = some 'T' := by
    intro payload h
    rcases encode58Check_mainNet h with ⟨ds, hds, hencoded⟩
    rw [hencoded, String.length_ofList, String.toList_ofList]
    exact ⟨by simp [hds], rfl⟩
  refine ⟨haddress, fun blocks => ?_⟩
  unfold witnessAddresses
  rw [List.filter_map]
  refine List.Sublist.map _ (List.monotone_filter_right blocks fun block hblock => ?_)
  rw [Function.comp, Block.witness, encodeAddress, (haddress _ (of_decide_eq_true hblock)).1]
  rfl

end Addresses

/-- The owner of the worked histories, and a block by it. -/
theorem mainNet_witnesses_owner :
    (@Base58.encode58Check exampleCodec exampleOwner).length = 34 ∧
      [@Block.witness exampleCodec ownedBlock].Sublist
        (@witnessAddresses exampleCodec [ownedBlock]) :=
  ⟨((@mainNet_witnesses exampleCodec).1 exampleOwner (by decide)).1,
    (@mainNet_witnesses exampleCodec).2 [ownedBlock]⟩

end Tronscan
