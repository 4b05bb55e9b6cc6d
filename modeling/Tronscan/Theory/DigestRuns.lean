import Tronscan.Core.Keccak
import Tronscan.Lib.Sponge
import Tronscan.Theory.Base58Arrays

/-!
# Runs of a Digest

A `DigestEngine` is called with a byte at a time, with slices of arrays, and for
digests in between. What it answers is said by an object that only knows the
message since the last digest: `Digest.run` keeps no buffer and no blocks.

`Holds` is what relates the two. The state is the one after the full blocks of the
message, and the buffer begins with the rest. Whatever is behind the rest in the
buffer stays there from earlier blocks and is not looked at. What a subclass has to
do for this is in `Implements`.

## Main definitions

* `Digest.step`, `Digest.run`: The object that only knows the message.
* `Implements`: What a subclass processes blocks and pads with.
* `Holds`: The engine after a message.

## Theorems

* `updateByte_total`, `update_total`, `digestInto_total`: The calls.
* `run_total`: A run answers what the object answers, exceptions included.
-/

namespace Tronscan

open Java Lib
open Lib.Sponge (chop absorbed)

namespace Digest

/-- A buffer with bytes written into it, if they fit. -/
def overwrite (buf : List UInt8) (offset : Int) (bytes : List UInt8) :
    Except JavaException (List UInt8) :=
  if 0 ≤ offset ∧ offset + bytes.length ≤ buf.length then
    .ok (buf.take offset.toNat ++ bytes ++ buf.drop (offset.toNat + bytes.length))
  else .error .arrayIndexOutOfBounds

/-- What `digest(byte[], int, int)` leaves in its buffer, and what it returns. -/
def write (d : ℕ) (bytes buf : List UInt8) (offset len : Int) :
    Except JavaException (List UInt8 × Int) :=
  if len ≥ d then (overwrite buf offset bytes).map fun buf => (buf, d)
  else if len < 0 then .error .arrayIndexOutOfBounds
  else (overwrite buf offset (bytes.take len.toNat)).map fun buf => (buf, len)

/-- A call, on the message since the last digest. -/
def step (d : ℕ) (hash : List UInt8 → List UInt8) (m : List UInt8) :
    DigestEngine.Command → Except JavaException (List UInt8 × DigestEngine.Answer)
  | .updateByte input => .ok (m ++ [input], .unit)
  | .update input offset len =>
      if len ≤ 0 then .ok (m, .unit)
      else if 0 ≤ offset ∧ offset + len ≤ input.length then
        .ok (m ++ (input.drop offset.toNat).take len.toNat, .unit)
      else .error .arrayIndexOutOfBounds
  | .digest => .ok ([], .digest (hash m))
  | .digestInto buf offset len =>
      (write d (hash m) buf offset len).map fun written => ([], .written written.1 written.2)
  | .reset => .ok ([], .unit)

/-- Carry out calls one after another, up to one that throws. -/
def run (d : ℕ) (hash : List UInt8 → List UInt8) (m : List UInt8) :
    List DigestEngine.Command → Except JavaException (List DigestEngine.Answer)
  | [] => .ok []
  | c :: cs => do
      let (m, answer) ← step d hash m c
      let answers ← run d hash m cs
      return answer :: answers

theorem run_of_step {d : ℕ} {hash : List UInt8 → List UInt8} {m m' : List UInt8}
    {c : DigestEngine.Command} {answer : DigestEngine.Answer}
    (h : step d hash m c = .ok (m', answer)) (cs : List DigestEngine.Command) :
    run d hash m (c :: cs) = (run d hash m' cs).map (answer :: ·) := by
  rw [run, h]
  exact (bind_pure_comp (answer :: ·) (run d hash m' cs)).symm ▸ rfl

theorem arraycopy_cases (bytes buf : List UInt8) (offset : Int) {len : Int} (hlen : 0 ≤ len)
    (hle : len ≤ bytes.length) :
    (∃ buf', overwrite buf offset (bytes.take len.toNat) = .ok buf' ∧
      arraycopy bytes 0 buf offset len = pure buf') ∨
    ∃ x, overwrite buf offset (bytes.take len.toNat) = .error x ∧
      arraycopy bytes 0 buf offset len = throw x := by
  have hlength : (bytes.take len.toNat).length = len.toNat := by
    rw [List.length_take]
    omega
  unfold overwrite arraycopy
  rw [hlength]
  by_cases hfits : 0 ≤ offset ∧ offset + len ≤ buf.length
  · left
    refine ⟨_, if_pos (by omega), ?_⟩
    rw [if_neg (by omega), Int.toNat_add hfits.1 hlen]
    rfl
  · right
    exact ⟨_, if_neg (by omega), if_pos (by omega)⟩

end Digest

namespace DigestEngine

open Engine (getBlockLength engineGetDigestLength)

variable {σ τ : Type} [Engine σ]

section Relation

variable (abs : σ → τ) (absorb : τ → List UInt8 → τ) (init : τ)

/-- The engine after a message. -/
structure Holds (e : DigestEngine σ) (m : List UInt8) : Prop where
  core : abs e.core = absorbed absorb init (getBlockLength σ) m
  length : e.inputBuf.length = getBlockLength σ
  inputLen : e.inputLen = (chop (getBlockLength σ) m).2.length
  buffered : e.inputBuf.take (chop (getBlockLength σ) m).2.length =
    (chop (getBlockLength σ) m).2

/-- What a subclass does, with states that its fields stand for. -/
structure Implements (hash : List UInt8 → List UInt8) : Prop where
  block_pos : 0 < getBlockLength σ
  reset : ∀ core : σ, abs (Engine.engineReset core) = init
  process : ∀ (core : σ) block, block.length = getBlockLength σ →
    ∃ core', Engine.processBlock core block = pure core' ∧ abs core' = absorb (abs core) block
  length_hash : ∀ m, (hash m).length = engineGetDigestLength σ
  pad : ∀ (e : DigestEngine σ) m, Holds abs absorb init e m → ∃ e' : DigestEngine σ,
    e'.inputBuf.length = getBlockLength σ ∧ ∀ buf offset,
      Engine.doPadding e buf offset =
        arraycopy (hash m) 0 buf offset (engineGetDigestLength σ) >>= fun buf => return (e', buf)

end Relation

variable {abs : σ → τ} {absorb : τ → List UInt8 → τ} {init : τ} {hash : List UInt8 → List UInt8}
  (h : Implements abs absorb init hash) {e : DigestEngine σ} {m : List UInt8}

include h

theorem holds_nil (hlength : e.inputBuf.length = getBlockLength σ) :
    Holds abs absorb init e.reset [] where
  core := h.reset e.core
  length := hlength
  inputLen := rfl
  buffered := rfl

/-- What comes into the buffer after the rest, a block at most in all, has been taken
    in when a full block is processed. -/
theorem processFull_eq (he : Holds abs absorb init e m) {c : List UInt8} (hc : 0 < c.length)
    (hroom : (chop (getBlockLength σ) m).2.length + c.length ≤ getBlockLength σ)
    {inputBuf : List UInt8} {inputLen : Int} (hlength : inputBuf.length = getBlockLength σ)
    (hbuf : inputBuf.take ((chop (getBlockLength σ) m).2.length + c.length) =
      (chop (getBlockLength σ) m).2 ++ c)
    (hlen : inputLen = ((chop (getBlockLength σ) m).2.length + c.length : ℕ)) :
    ∃ e', processFull { e with inputBuf := inputBuf, inputLen := inputLen } = pure e' ∧
      Holds abs absorb init e' (m ++ c) := by
  unfold processFull
  by_cases hfull : (chop (getBlockLength σ) m).2.length + c.length = getBlockLength σ
  · obtain ⟨hcore, hrest⟩ := Lib.Sponge.absorbed_append absorb init m c hfull hc
    rw [hfull, List.take_of_length_le hlength.le] at hbuf
    obtain ⟨core', hprocess, habs⟩ := h.process e.core inputBuf hlength
    refine ⟨{ e with
      core := core', inputBuf := inputBuf, inputLen := 0, blockCount := e.blockCount + 1 }, ?_, ?_⟩
    · rw [if_pos (by rw [hlen, hfull])]
      simp only [hprocess, pure_bind]
    · exact ⟨by rw [hcore, habs, he.core, hbuf], hlength, by rw [hrest]; rfl, by rw [hrest]; rfl⟩
  · obtain ⟨hcore, hrest⟩ :=
      Lib.Sponge.absorbed_append_of_lt absorb init m c (Nat.lt_of_le_of_ne hroom hfull)
    refine ⟨_, if_neg (by simp only [hlen]; omega), ?_⟩
    refine ⟨by rw [hcore]; exact he.core, hlength, ?_, ?_⟩
    · rw [hrest, List.length_append]
      exact hlen
    · rw [hrest, List.length_append]
      exact hbuf

theorem rest_lt : (chop (getBlockLength σ) m).2.length < getBlockLength σ :=
  (Lib.Sponge.chop_spec h.block_pos m).rest_lt

theorem updateByte_eq (he : Holds abs absorb init e m) (input : UInt8) :
    ∃ e', e.updateByte input = pure e' ∧ Holds abs absorb init e' (m ++ [input]) := by
  have hrest := rest_lt h (m := m)
  set rest := (chop (getBlockLength σ) m).2 with hdef
  obtain ⟨x, after, hbuf⟩ : ∃ x after, e.inputBuf = rest ++ x :: after := by
    refine ⟨e.inputBuf.get ⟨rest.length, by rw [he.length]; exact hrest⟩,
      e.inputBuf.drop (rest.length + 1), ?_⟩
    conv_lhs => rw [← List.take_append_drop rest.length e.inputBuf]
    rw [List.drop_eq_getElem_cons (by rw [he.length]; exact hrest)]
    exact congrArg (· ++ _) he.buffered
  have hset : set e.inputBuf e.inputLen input = pure (rest ++ input :: after) := by
    rw [he.inputLen, hbuf]
    exact set_append rest x input after
  have hlength := he.length
  rw [hbuf, List.length_append, List.length_cons] at hlength
  unfold updateByte
  rw [hset, pure_bind]
  refine processFull_eq h he (c := [input]) (Nat.zero_lt_one) hrest ?_ ?_ ?_
  · rw [List.length_append, List.length_cons, hlength]
  · rw [List.append_cons]
    exact List.take_left' (by simp [hdef])
  · rw [he.inputLen]
    rfl

/-- A round of `update`: as much of the input as there is room for in the buffer, or
    what is left of it. -/
theorem updateRound_eq (he : Holds abs absorb init e m) {input : List UInt8} {offset copyLen : ℕ}
    (hcopy : 0 < copyLen) (hinput : offset + copyLen ≤ input.length)
    (hroom : (chop (getBlockLength σ) m).2.length + copyLen ≤ getBlockLength σ) :
    ∃ inputBuf e', arraycopy input offset e.inputBuf e.inputLen copyLen = pure inputBuf ∧
      processFull { e with inputBuf := inputBuf, inputLen := e.inputLen + copyLen } = pure e' ∧
      Holds abs absorb init e' (m ++ (input.drop offset).take copyLen) := by
  have hinputBuf := he.length
  have hbuffered := he.buffered
  have hc : ((input.drop offset).take copyLen).length = copyLen := by
    rw [List.length_take, List.length_drop]
    omega
  have harraycopy : arraycopy input offset e.inputBuf e.inputLen copyLen =
      pure ((chop (getBlockLength σ) m).2 ++ (input.drop offset).take copyLen ++
        e.inputBuf.drop ((chop (getBlockLength σ) m).2.length + copyLen)) := by
    unfold arraycopy
    rw [he.inputLen, if_neg (by omega), Int.toNat_natCast, Int.toNat_natCast, Int.toNat_natCast,
      hbuffered, ← Nat.cast_add, Int.toNat_natCast]
  have hlength : ((chop (getBlockLength σ) m).2 ++ (input.drop offset).take copyLen ++
      e.inputBuf.drop ((chop (getBlockLength σ) m).2.length + copyLen)).length =
        getBlockLength σ := by
    simp only [List.length_append, hc, List.length_drop]
    omega
  have hinputLen : e.inputLen + copyLen = ((chop (getBlockLength σ) m).2.length +
      ((input.drop offset).take copyLen).length : ℕ) := by
    rw [he.inputLen, hc]
    rfl
  obtain ⟨e', hprocess, hholds⟩ := processFull_eq h he (by omega) (by omega) hlength
    (by rw [List.take_left' (by rw [List.length_append])]) hinputLen
  exact ⟨_, e', harraycopy, hprocess, hholds⟩

theorem update_total (he : Holds abs absorb init e m) (d : ℕ) (input : List UInt8)
    (offset len : Int) :
    Total (fun n => e.update n input offset len)
      (fun e' => ∃ m', Digest.step d hash m (.update input offset len) = .ok (m', .unit) ∧
        Holds abs absorb init e' m')
      (fun x => Digest.step d hash m (.update input offset len) = .error x) := by
  -- So many bytes have been taken in, all of them from inside of the input.
  let I : Update σ → Prop := fun s => ∃ k : ℕ, s.offset = offset + k ∧ s.len = len - k ∧
    (k = 0 ∨ 0 ≤ offset ∧ offset + k ≤ input.length ∧ k ≤ len) ∧
    Holds abs absorb init s.engine (m ++ (input.drop offset.toNat).take k)
  unfold update
  refine Total.bind ((Total.whileLoop I (fun s => s.len.toNat) _ (fun _ _ => rfl) ?_
    ⟨0, by simp, by simp, Or.inl rfl, by simpa using he⟩)) ?_
  · rintro ⟨e, _, _⟩ ⟨k, rfl, rfl, hinside, hholds⟩ hnext
    dsimp only at hholds hnext ⊢
    have hleft : 0 < len - k := of_decide_eq_true hnext
    have hrest := rest_lt h (m := m ++ (input.drop offset.toNat).take k)
    set rest := (chop (getBlockLength σ) (m ++ (input.drop offset.toNat).take k)).2 with hdef
    obtain ⟨copyLen, hcopyLen, hpos, hroom, hle⟩ : ∃ copyLen : ℕ,
        (if (getBlockLength σ : Int) - e.inputLen > len - k then len - k
          else (getBlockLength σ : Int) - e.inputLen) = copyLen ∧ 0 < copyLen ∧
        rest.length + copyLen ≤ getBlockLength σ ∧ (copyLen : Int) ≤ len - k := by
      have hinputLen : e.inputLen = rest.length := hholds.inputLen
      split
      · exact ⟨(len - k).toNat, by omega, by omega, by omega, by omega⟩
      · exact ⟨getBlockLength σ - rest.length, by omega, by omega, by omega, by omega⟩
    rw [hcopyLen]
    by_cases hvalid : 0 ≤ offset ∧ offset + k + copyLen ≤ input.length
    · -- This round stays inside.
      obtain ⟨o, rfl⟩ := Int.eq_ofNat_of_zero_le hvalid.1
      have hinput : o + k + copyLen ≤ input.length := by omega
      obtain ⟨inputBuf, e', harraycopy, hprocess, hholds'⟩ :=
        updateRound_eq h hholds hpos hinput hroom
      rw [Nat.cast_add] at harraycopy
      rw [harraycopy, pure_bind, hprocess, pure_bind]
      refine Total.pure ⟨⟨k + copyLen, by push_cast; omega, by push_cast; omega, Or.inr (by omega),
        ?_⟩, ?_⟩
      · rw [Int.toNat_natCast, List.take_add, ← List.append_assoc, List.drop_drop]
        exact hholds'
      · show (len - k - copyLen).toNat < (len - k).toNat
        omega
    · -- It does not, and neither does the slice.
      have hthrow : arraycopy input (offset + k) e.inputBuf e.inputLen copyLen =
          throw .arrayIndexOutOfBounds := by
        unfold arraycopy
        exact if_pos (by omega)
      rw [hthrow]
      refine Total.throw ?_
      rw [Digest.step, if_neg (by omega), if_neg (by omega)]
  · rintro ⟨e', _, _⟩ ⟨⟨k, rfl, rfl, hinside, hholds⟩, hstop⟩
    dsimp only at hholds hstop ⊢
    have hdone : len - k ≤ 0 := by simpa using hstop
    refine Total.pure ?_
    rw [Digest.step]
    rcases hinside with rfl | hinside
    · exact ⟨m, if_pos (by omega), by simpa using hholds⟩
    · by_cases hlen : len ≤ 0
      · obtain rfl : k = 0 := by omega
        exact ⟨m, if_pos hlen, by simpa using hholds⟩
      · refine ⟨_, by rw [if_neg hlen, if_pos (by omega)], ?_⟩
        rw [show len.toNat = k by omega]
        exact hholds

theorem digestInto_total (he : Holds abs absorb init e m) (buf : List UInt8) (offset len : Int) :
    Total (fun _ => e.digestInto buf offset len)
      (fun result => Digest.write (engineGetDigestLength σ) (hash m) buf offset len =
        .ok result.2 ∧ Holds abs absorb init result.1 [])
      (fun x => Digest.write (engineGetDigestLength σ) (hash m) buf offset len = .error x) := by
  obtain ⟨e', hlength, hpad⟩ := h.pad e m he
  have hholds : Holds abs absorb init e'.reset [] := holds_nil h hlength
  have hhash := h.length_hash m
  have htake : (hash m).take (engineGetDigestLength σ : Int).toNat = hash m :=
    List.take_of_length_le (by omega)
  unfold digestInto Digest.write
  by_cases hlen : len ≥ engineGetDigestLength σ
  · rw [if_pos hlen, if_pos hlen, hpad]
    have hcopy := Digest.arraycopy_cases (hash m) buf offset
      (Int.natCast_nonneg (engineGetDigestLength σ)) (by omega)
    rw [htake] at hcopy
    rcases hcopy with ⟨buf', hok, hcopy⟩ | ⟨x, herror, hcopy⟩
    · rw [hcopy, hok]
      exact Total.pure ⟨rfl, hholds⟩
    · rw [hcopy, herror]
      exact Total.throw rfl
  · have hfull : arraycopy (hash m) 0 (List.replicate (engineGetDigestLength σ) 0) 0
        (engineGetDigestLength σ) = pure (hash m) := by
      unfold arraycopy
      rw [if_neg (by simp; omega), Int.toNat_zero, List.drop_zero, htake]
      simp
    rw [if_neg hlen, if_neg hlen, newByteArray_natCast, pure_bind, hpad, hfull]
    by_cases hneg : len < 0
    · have hthrow : arraycopy (hash m) 0 buf offset len = throw .arrayIndexOutOfBounds := by
        unfold arraycopy
        exact if_pos (by omega)
      rw [if_pos hneg]
      simp only [pure_bind, hthrow]
      exact Total.throw rfl
    · rw [if_neg hneg]
      simp only [pure_bind]
      have hnonneg : 0 ≤ len := by omega
      rcases Digest.arraycopy_cases (hash m) buf offset hnonneg (by omega) with
        ⟨buf', hok, hcopy⟩ | ⟨x, herror, hcopy⟩
      · rw [hcopy, hok]
        exact Total.pure ⟨rfl, hholds⟩
      · rw [hcopy, herror]
        exact Total.throw rfl

theorem digest_total (he : Holds abs absorb init e m) :
    Total (fun _ => e.digest)
      (fun result => result.2 = hash m ∧ Holds abs absorb init result.1 []) (fun _ => False) := by
  have hhash := h.length_hash m
  have hwrite : Digest.write (engineGetDigestLength σ) (hash m)
      (List.replicate (engineGetDigestLength σ) 0) 0 (engineGetDigestLength σ) =
      .ok (hash m, engineGetDigestLength σ) := by
    rw [Digest.write, if_pos (Int.le_refl _), Digest.overwrite, if_pos (by simp; omega)]
    simp [← hhash]
    rfl
  unfold digest
  simp only [newByteArray_natCast, pure_bind]
  refine Total.bind ((digestInto_total h he _ 0 _).mono (fun result hresult => hresult)
    (fun x hx => ?_)) ?_
  · rw [hwrite] at hx
    cases hx
  · rintro ⟨e', result, count⟩ ⟨hresult, hholds⟩
    rw [hwrite] at hresult
    cases hresult
    exact Total.pure ⟨rfl, hholds⟩

theorem execute_total (he : Holds abs absorb init e m) (c : Command) :
    Total (fun n => e.execute n c)
      (fun result => ∃ m', Digest.step (engineGetDigestLength σ) hash m c = .ok (m', result.2) ∧
        Holds abs absorb init result.1 m')
      (fun x => Digest.step (engineGetDigestLength σ) hash m c = .error x) := by
  cases c with
  | updateByte input =>
      obtain ⟨e', hupdate, hholds⟩ := updateByte_eq h he input
      unfold execute
      simp only [hupdate, pure_bind]
      exact Total.pure ⟨m ++ [input], rfl, hholds⟩
  | update input offset len =>
      refine Total.bind (update_total h he _ input offset len) ?_
      rintro e' ⟨m', hstep, hholds⟩
      exact Total.pure ⟨m', hstep, hholds⟩
  | digest =>
      refine Total.bind ((digest_total h he).mono (fun result hresult => hresult)
        (fun x hx => hx.elim)) ?_
      rintro ⟨e', result⟩ ⟨rfl, hholds⟩
      exact Total.pure ⟨[], rfl, hholds⟩
  | digestInto buf offset len =>
      refine Total.bind ((digestInto_total h he buf offset len).mono
        (fun result hresult => hresult) (fun x hx => ?_)) ?_
      · rw [Digest.step, hx]
        rfl
      · rintro ⟨e', buf', count⟩ ⟨hwrite, hholds⟩
        refine Total.pure ⟨[], ?_, hholds⟩
        rw [Digest.step, hwrite]
        rfl
  | reset =>
      exact Total.pure ⟨[], rfl, holds_nil h he.length⟩

/-- A run answers what the object that only knows the message answers. -/
theorem run_total (he : Holds abs absorb init e m) (cs : List Command) :
    Total (fun n => run n e cs)
      (fun answers => Digest.run (engineGetDigestLength σ) hash m cs = .ok answers)
      (fun x => Digest.run (engineGetDigestLength σ) hash m cs = .error x) := by
  induction cs generalizing e m with
  | nil => exact Total.pure rfl
  | cons c cs ih =>
      refine Total.bind ((execute_total h he c).mono (fun result hresult => hresult)
        (fun x hx => ?_)) ?_
      · rw [Digest.run, hx]
        rfl
      · rintro ⟨e', answer⟩ ⟨m', hstep, hholds⟩
        refine Total.bind ((ih hholds).mono (fun answers hanswers => hanswers) (fun x hx => ?_)) ?_
        · rw [Digest.run_of_step hstep, hx]
          rfl
        · intro answers hanswers
          refine Total.pure ?_
          rw [Digest.run_of_step hstep, hanswers]
          rfl

end DigestEngine

end Tronscan
