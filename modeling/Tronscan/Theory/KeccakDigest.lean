import Tronscan.Theory.DigestRuns
import Tronscan.Theory.KeccakBlocks

/-!
# The Keccak Digests

The engine with the blocks of `KeccakCore` is the Keccak sponge: whatever the calls
are, each digest is the one of the bytes that came in since the digest before it.
`Hash.sha3` is that for one call, two or a slice.

## Main definitions

* `KeccakAlgorithm.hash`: The digest of a message.

## Theorems

* `implements`: What `KeccakCore` has to do as a subclass, it does.
* `new_run_total`: Every run of calls on a new object.
* `sha3_overloads_total`: The digests the program takes.
-/

namespace Tronscan

open Java Lib
open Lib.Sponge (chop absorbed)

/-- The digest of a message. -/
def KeccakAlgorithm.hash (algorithm : KeccakAlgorithm) (message : List UInt8) : List UInt8 :=
  Lib.Keccak.digest 64 algorithm.getBlockLength algorithm.engineGetDigestLength message

namespace KeccakCore

variable {algorithm : KeccakAlgorithm}

/-- Lanes and digests are whole words, and there is room for them. -/
theorem lengths_spec (algorithm : KeccakAlgorithm) :
    ∃ block digest, algorithm.getBlockLength = 8 * block ∧ 0 < block ∧ block ≤ 25 ∧
      algorithm.engineGetDigestLength = 8 * digest ∧ digest ≤ 25 := by
  cases algorithm with
  | keccak256 => exact ⟨17, 4, rfl, by decide, by decide, rfl, by decide⟩
  | keccak512 => exact ⟨9, 8, rfl, by decide, by decide, rfl, by decide⟩

/-- The state after a message. -/
abbrev HoldsMessage (e : DigestEngine (KeccakCore algorithm)) (m : List UInt8) : Prop :=
  e.Holds (fun core => state core.A) Lib.Keccak.absorb (fun _ _ => 0) m

theorem doPadding_eq {e : DigestEngine (KeccakCore algorithm)} {m : List UInt8}
    (he : HoldsMessage e m) :
    ∃ e' : DigestEngine (KeccakCore algorithm), e'.inputBuf.length = algorithm.getBlockLength ∧
      ∀ buf offset, doPadding e buf offset =
        arraycopy (algorithm.hash m) 0 buf offset algorithm.engineGetDigestLength >>= fun buf =>
          return (e', buf) := by
  obtain ⟨block, digest, hblock, hpos, hle, hdigest, hdigest_le⟩ := lengths_spec algorithm
  have hr : 0 < algorithm.getBlockLength := by omega
  have hlength : e.inputBuf.length = algorithm.getBlockLength := he.length
  have hinputLen : e.inputLen = (chop algorithm.getBlockLength m).2.length := he.inputLen
  have hbuffered : e.inputBuf.take (chop algorithm.getBlockLength m).2.length =
    (chop algorithm.getBlockLength m).2 := he.buffered
  have hcore : state e.core.A =
    absorbed Lib.Keccak.absorb (fun _ _ => 0) algorithm.getBlockLength m := he.core
  have hrest : (chop algorithm.getBlockLength m).2.length < algorithm.getBlockLength :=
    (Lib.Sponge.chop_spec hr m).rest_lt
  set last := (chop algorithm.getBlockLength m).2 ++
    Lib.Keccak.padding (algorithm.getBlockLength - m.length % algorithm.getBlockLength) with hlast
  have hpadded : padded e.inputBuf e.inputLen = pure last := by
    rw [hinputLen, padded_eq (by omega), hbuffered, hlength, Lib.Sponge.length_chop_snd hr]
  have hlast_length : last.length = 8 * block := by
    rw [hlast, List.length_append, Lib.Keccak.length_padding, ← Lib.Sponge.length_chop_snd hr]
    omega
  set A := rounds (xorWords last block e.core.A)
  have hprocess : processBlock e.core.A last = pure A := processBlock_eq _ hlast_length hle
  have hstate : Lib.Keccak.squeeze (state A) algorithm.engineGetDigestLength = algorithm.hash m := by
    rw [state_rounds_xorWords hlast_length, hcore, KeccakAlgorithm.hash, Lib.Keccak.digest,
      Lib.Keccak.absorbed_append_padding _ _ hr]
  obtain ⟨words, hwords, hflatten⟩ := mapM_encodeLELong A hdigest_le
  refine ⟨{ e with core := ⟨complement A⟩, inputBuf := last }, hlast_length.trans hblock.symm,
    fun buf offset => ?_⟩
  unfold doPadding
  rw [hpadded, pure_bind, hprocess, pure_bind]
  simp only [hdigest, show (8 * digest + 7) / 8 = digest by omega, hwords, pure_bind, hflatten]
  rw [← hdigest, hstate]

/-- What `KeccakCore` has to do as a subclass, it does. -/
theorem implements : DigestEngine.Implements (fun core : KeccakCore algorithm => state core.A)
    Lib.Keccak.absorb (fun _ _ => 0) algorithm.hash where
  block_pos := by
    obtain ⟨block, -, hblock, hpos, -⟩ := lengths_spec algorithm
    show 0 < algorithm.getBlockLength
    omega
  reset _ := state_doReset
  process core block hlength := by
    obtain ⟨words, -, hblock, -, hle, -⟩ := lengths_spec algorithm
    have hdata : block.length = 8 * words := hlength.trans hblock
    refine ⟨⟨rounds (xorWords block words core.A)⟩, ?_, state_rounds_xorWords hdata core.A⟩
    show processBlock core.A block >>= _ = _
    rw [processBlock_eq core.A hdata hle]
    rfl
  length_hash m := by
    rw [KeccakAlgorithm.hash, Lib.Keccak.digest, Lib.Keccak.squeeze, List.length_map,
      List.length_range]
    rfl
  pad e m he := doPadding_eq he

theorem new_eq (algorithm : KeccakAlgorithm) : ∃ e, new algorithm = pure e ∧ HoldsMessage e [] :=
  ⟨_, by rw [new, newByteArray_natCast, pure_bind], state_doReset, List.length_replicate, rfl, rfl⟩

/-- Whatever the calls are, they are answered from the message since the last digest. -/
theorem new_run_total (algorithm : KeccakAlgorithm) (cs : List DigestEngine.Command) :
    Total (fun n => new algorithm >>= fun e => e.run n cs)
      (fun answers => Digest.run algorithm.engineGetDigestLength algorithm.hash [] cs =
        .ok answers)
      (fun x => Digest.run algorithm.engineGetDigestLength algorithm.hash [] cs = .error x) := by
  obtain ⟨e, hnew, hholds⟩ := new_eq algorithm
  simp only [hnew, pure_bind]
  exact DigestEngine.run_total implements hholds cs

end KeccakCore

namespace Hash

open KeccakCore DigestEngine

/-- A slice of an array, as far as it is one. -/
def IsSlice (input : List UInt8) (start length : Int) : Prop :=
  length ≤ 0 ∨ 0 ≤ start ∧ start + length ≤ input.length

section Calls

variable {algorithm : KeccakAlgorithm} {e : DigestEngine (KeccakCore algorithm)} {m : List UInt8}

theorem update_slice_total (he : HoldsMessage e m) (input : List UInt8) (start length : Int) :
    Total (fun n => e.update n input start length)
      (fun e' => IsSlice input start length ∧
        HoldsMessage e' (m ++ (input.drop start.toNat).take length.toNat))
      (fun x => ¬IsSlice input start length ∧ x = .arrayIndexOutOfBounds) := by
  refine (update_total implements he 0 input start length).mono ?_ ?_
  · rintro e' ⟨m', hstep, hholds⟩
    rw [Digest.step] at hstep
    split at hstep
    · rename_i hlen
      cases hstep
      rw [show length.toNat = 0 by omega, List.take_zero, List.append_nil]
      exact ⟨Or.inl hlen, hholds⟩
    · split at hstep
      · rename_i hinside
        cases hstep
        exact ⟨Or.inr hinside, hholds⟩
      · cases hstep
  · intro x hstep
    rw [Digest.step] at hstep
    split at hstep
    · cases hstep
    · rename_i hlen
      split at hstep
      · cases hstep
      · rename_i hinside
        cases hstep
        exact ⟨fun h => h.elim hlen hinside, rfl⟩

/-- An array taken in as a whole. -/
theorem update_whole_total (he : HoldsMessage e m) (input : List UInt8) :
    Total (fun n => e.update n input 0 input.length) (fun e' => HoldsMessage e' (m ++ input))
      (fun _ => False) := by
  have hslice : IsSlice input 0 input.length := Or.inr (by omega)
  refine (update_slice_total he input 0 input.length).mono ?_ fun x hx => hx.1 hslice
  rintro e' ⟨-, hholds⟩
  rwa [Int.toNat_zero, List.drop_zero, Int.toNat_natCast, List.take_length] at hholds

theorem result_total (he : HoldsMessage e m) :
    Total (fun _ => e.digest >>= fun result => (return result.2 : Java _))
      (fun result => result = algorithm.hash m) (fun _ => False) := by
  refine Total.bind (digest_total implements he) ?_
  rintro ⟨e', result⟩ ⟨hresult, -⟩
  exact Total.pure hresult

end Calls

/-- However the input is handed over, the digest is the one of its bytes. -/
theorem sha3_overloads_total (input input2 : List UInt8) (start length : Int) :
    Total (fun n => sha3 n input) (fun result => result = KeccakAlgorithm.keccak256.hash input)
        (fun _ => False) ∧
      Total (fun n => sha3OfTwo n input input2)
        (fun result => result = KeccakAlgorithm.keccak256.hash (input ++ input2))
        (fun _ => False) ∧
      Total (fun n => sha3Chunk n input start length)
        (fun result => IsSlice input start length ∧ result =
          KeccakAlgorithm.keccak256.hash ((input.drop start.toNat).take length.toNat))
        (fun x => ¬IsSlice input start length ∧ x = .arrayIndexOutOfBounds) ∧
      Total (fun n => sha512 n input)
        (fun result => result = KeccakAlgorithm.keccak512.hash input) (fun _ => False) := by
  obtain ⟨e, hnew, he⟩ := new_eq .keccak256
  obtain ⟨e', hnew', he'⟩ := new_eq .keccak512
  unfold sha3 sha3OfTwo sha3Chunk sha512
  simp only [hnew, hnew', pure_bind]
  refine ⟨Total.bind (update_whole_total he input) fun e₁ h₁ => result_total h₁, ?_, ?_,
    Total.bind (update_whole_total he' input) fun e₁ h₁ => result_total h₁⟩
  · refine Total.bind (update_whole_total he input) fun e₁ h₁ => ?_
    exact Total.bind (update_whole_total h₁ input2) fun e₂ h₂ => result_total h₂
  · refine Total.bind (update_slice_total he input start length) ?_
    rintro e₁ ⟨hslice, h₁⟩
    exact (result_total h₁).mono (fun result hresult => ⟨hslice, hresult⟩) fun _ hx => hx.elim

end Hash

end Tronscan
