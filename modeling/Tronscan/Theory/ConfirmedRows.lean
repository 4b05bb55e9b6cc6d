import Tronscan.Importer.Concurrent
import Tronscan.Importer.System
import Tronscan.Core.Wire

/-!
# Unconfirmed Rows of Confirmed Blocks

The solidity run can come upon a block whose row is committed and whose other
rows are still queued in the full node run. It confirms what is there. What the
full node run commits afterwards is unconfirmed, in a block nobody will look at
again.

The invariant is about single rows: an unconfirmed row of a confirmed block has
a query pending that will reset it. A query resets a transaction by confirming
or deleting those of its block or by overwriting its hash, and a transfer by the
first two. When nothing is pending there is no such row.

The solidity run keeps the invariant by the order of its queries, a block being
confirmed first and its rows after. The full node run keeps it when it is in
time: whatever it inserts unconfirmed into a confirmed block is still to be
reset.

## Main definitions

* `ConfirmedWhole`: Confirmed blocks have confirmed rows only.
* `Query.ResetsTransaction`, `Query.ResetsTransfer`: The queries that reset a row.
* `Settled`: The invariant.
* `Orderly`: A list of queries that confirms blocks before their rows.
* `InTime`: The condition on a batch of the full node run.

## Theorems

* `orderly_solidityBlockQueries`: What the solidity run emits is orderly.
* `pending_exec`: What one query does to what is pending for a row.
* `settled_exec`: A query at the head of an orderly list keeps the invariant.
* `settled_full_iff`: A batch of the full node run does when it is in time.
* `confirmedWhole_of_inTime`: Runs whose full node batches are in time.
* `not_confirmedStayWhole_late`: A transfer that comes too late.
-/

namespace Tronscan

open BlockImporter

/-- The block with the number is stored and confirmed. -/
def ConfirmedAt (n : Int) (db : Database) : Prop :=
  ∃ row ∈ db.blocks, row.number = n ∧ row.confirmed = true

instance (n : Int) (db : Database) : Decidable (ConfirmedAt n db) :=
  inferInstanceAs (Decidable (∃ row ∈ db.blocks, row.number = n ∧ row.confirmed = true))

/-- A confirmed block has confirmed transactions and transfers only. -/
structure ConfirmedWhole (db : Database) : Prop where
  transactions : ∀ r ∈ db.transactions, ConfirmedAt r.block db → r.confirmed = true
  transfers : ∀ r ∈ db.transfers, ConfirmedAt r.block db → r.confirmed = true

namespace Query

/-- The query leaves no unconfirmed transaction with the block and the hash of
    the given one. -/
def ResetsTransaction (r : TransactionModel) : Query → Prop
  | confirmTransactions n | deleteTransactions n => n = r.block
  | upsertTransaction row => row.hash = r.hash
  | _ => False

instance (r : TransactionModel) (q : Query) : Decidable (q.ResetsTransaction r) := by
  cases q <;> unfold ResetsTransaction <;> infer_instance

/-- The query leaves no unconfirmed transfer with the block of the given one. -/
def ResetsTransfer (r : TransferModel) : Query → Prop
  | confirmTransfers n | deleteTransfers n => n = r.block
  | _ => False

instance (r : TransferModel) (q : Query) : Decidable (q.ResetsTransfer r) := by
  cases q <;> unfold ResetsTransfer <;> infer_instance

/-- What the queries after one in a list have to do for it: reset the rows of a
    block it confirms. The rows it writes itself have to be confirmed. -/
def FollowedBy (rest : List Query) : Query → Prop
  | confirmBlock n => confirmTransactions n ∈ rest ∧ confirmTransfers n ∈ rest
  | insertBlock row => deleteTransactions row.number ∈ rest ∧ deleteTransfers row.number ∈ rest
  | insertTransaction _ => False
  | upsertTransaction row => row.confirmed = true
  | insertTransfer row => row.confirmed = true
  | _ => True

end Query

/-- Every query of the list is followed by what it needs. -/
def Orderly : List Query → Prop
  | [] => True
  | q :: rest => q.FollowedBy rest ∧ Orderly rest

/-- Every unconfirmed row of a confirmed block has a query pending that resets it. -/
structure Settled (db : Database) (pending : List Query) : Prop where
  transactions : ∀ r ∈ db.transactions, r.confirmed = false → ConfirmedAt r.block db →
    ∃ q ∈ pending, q.ResetsTransaction r
  transfers : ∀ r ∈ db.transfers, r.confirmed = false → ConfirmedAt r.block db →
    ∃ q ∈ pending, q.ResetsTransfer r

theorem settled_of_confirmedWhole {db : Database} (h : ConfirmedWhole db) (pending : List Query) :
    Settled db pending := by
  constructor
  · intro r hr hno hat
    rw [h.transactions r hr hat] at hno
    cases hno
  · intro r hr hno hat
    rw [h.transfers r hr hat] at hno
    cases hno

theorem confirmedWhole_of_settled {db : Database} (h : Settled db []) : ConfirmedWhole db := by
  constructor
  · intro r hr hat
    by_contra hno
    rcases h.transactions r hr (Bool.not_eq_true _ ▸ hno) hat with ⟨q, hq, _⟩
    exact absurd hq List.not_mem_nil
  · intro r hr hat
    by_contra hno
    rcases h.transfers r hr (Bool.not_eq_true _ ▸ hno) hat with ⟨q, hq, _⟩
    exact absurd hq List.not_mem_nil

section Orderly

theorem followedBy_append {q : Query} {rest : List Query} (h : q.FollowedBy rest)
    (more : List Query) : q.FollowedBy (rest ++ more) := by
  cases q with
  | confirmBlock n => exact ⟨List.mem_append_left _ h.1, List.mem_append_left _ h.2⟩
  | insertBlock row => exact ⟨List.mem_append_left _ h.1, List.mem_append_left _ h.2⟩
  | _ => exact h

theorem orderly_append {ps qs : List Query} (hps : Orderly ps) (hqs : Orderly qs) :
    Orderly (ps ++ qs) := by
  induction ps with
  | nil => exact hqs
  | cons p ps ih => exact ⟨followedBy_append hps.1 qs, ih hps.2⟩

/-- Queries that need nothing after them are orderly. -/
theorem orderly_of_forall {qs : List Query} (h : ∀ q ∈ qs, ∀ rest, q.FollowedBy rest) :
    Orderly qs := by
  induction qs with
  | nil => trivial
  | cons q qs ih =>
      exact ⟨h q List.mem_cons_self qs, ih fun p hp => h p (List.mem_cons_of_mem q hp)⟩

theorem orderly_drop {qs : List Query} (size : Nat) (h : Orderly qs) : Orderly (qs.drop size) := by
  induction qs generalizing size with
  | nil => rwa [List.drop_nil]
  | cons q qs ih =>
      cases size with
      | zero => exact h
      | succ size => exact ih size h.2

variable (e : Extracted) (n : Int)

theorem orderly_upsertQueries : Orderly e.upsertQueries := by
  refine orderly_of_forall fun q hq rest => ?_
  rcases List.mem_map.mp hq with ⟨row, _, rfl⟩
  rfl

theorem orderly_contractQueries : Orderly (e.contractQueries true) := by
  refine orderly_of_forall fun q hq rest => ?_
  rcases List.mem_flatMap.mp hq with ⟨model, _, hq⟩
  cases model with
  | transfer row =>
      rw [List.mem_singleton.mp hq]
      rfl
  | voteWitnessList votes =>
      rcases List.mem_cons.mp hq with rfl | hq
      · trivial
      · rcases List.mem_map.mp hq with ⟨_, _, rfl⟩
        trivial
  | _ =>
      rw [List.mem_singleton.mp hq]
      trivial

theorem orderly_confirmQueries : Orderly (e.confirmQueries n) := by
  refine orderly_append ⟨⟨?_, ?_⟩, trivial, trivial, trivial⟩ (orderly_upsertQueries e)
  · exact List.mem_cons_self
  · exact List.mem_cons_of_mem _ List.mem_cons_self

theorem orderly_replaceQueries : Orderly e.replaceQueries := by
  refine orderly_append (orderly_append ?_ (orderly_upsertQueries e)) (orderly_contractQueries e)
  refine ⟨trivial, ⟨?_, ?_⟩, trivial, trivial, trivial, trivial, trivial⟩
  · exact List.mem_cons_self
  · exact List.mem_cons_of_mem _ List.mem_cons_self

/-- Whatever the lookup found, what the solidity run emits is orderly. -/
theorem orderly_solidityBlockQueries [Codec] (block : Block) (row : Option BlockModel) :
    Orderly (solidityBlockQueries block row) := by
  cases row with
  | none => trivial
  | some row =>
      rw [solidityBlockQueries, buildSolidityBlockQueries_eq]
      split
      · cases extract block with
        | error _ => trivial
        | ok e =>
            simp only [Except.map, emitted]
            split
            · exact orderly_confirmQueries e row.number
            · exact orderly_replaceQueries e
      · trivial

end Orderly

section Exec

variable {q : Query} {rest : List Query} {db db' : Database}

/-- A block is confirmed after a query when it was before, or the query confirms
    or inserts it. -/
theorem confirmedAt_exec {n : Int} (hexec : q.exec db = some db') (h : ConfirmedAt n db') :
    ConfirmedAt n db ∨ q = .confirmBlock n ∨ ∃ row, q = .insertBlock row ∧ row.number = n := by
  rcases h with ⟨row, hrow, hnumber, hconfirmed⟩
  rw [(Query.exec_eq_some.mp hexec).2] at hrow
  cases q with
  | insertBlock r =>
      rcases List.mem_append.mp hrow with hrow | hrow
      · exact Or.inl ⟨row, hrow, hnumber, hconfirmed⟩
      · rw [List.mem_singleton.mp hrow] at hnumber
        exact Or.inr (Or.inr ⟨r, rfl, hnumber⟩)
  | deleteBlock m => exact Or.inl ⟨row, (List.mem_filter.mp hrow).1, hnumber, hconfirmed⟩
  | confirmBlock m =>
      rcases List.mem_map.mp hrow with ⟨r, hr, rfl⟩
      -- It confirmed the block if it is about its number.
      by_cases hm : r.number = m
      · rw [if_pos hm] at hnumber
        exact Or.inr (Or.inl (by rw [← hm, ← hnumber]))
      · rw [if_neg hm] at hnumber hconfirmed
        exact Or.inl ⟨r, hr, hnumber, hconfirmed⟩
  | _ => exact Or.inl ⟨row, hrow, hnumber, hconfirmed⟩

/-- An unconfirmed transaction after a query of the solidity run was there before,
    and the query does not reset it. -/
theorem mem_transactions_exec (hq : q.FollowedBy rest) (hexec : q.exec db = some db')
    {r : TransactionModel} (hr : r ∈ db'.transactions) (hno : r.confirmed = false) :
    r ∈ db.transactions ∧ ¬ q.ResetsTransaction r := by
  rw [(Query.exec_eq_some.mp hexec).2] at hr
  cases q with
  | insertTransaction row => exact absurd hq id
  | upsertTransaction row =>
      -- The row it writes is confirmed, and the one with its hash is gone.
      rcases Lib.mem_upsert.mp hr with rfl | ⟨hr, hhash⟩
      · exact absurd (hno.symm.trans hq) Bool.false_ne_true
      · exact ⟨hr, fun h => hhash h.symm⟩
  | confirmTransactions n =>
      rcases List.mem_map.mp hr with ⟨s, hs, rfl⟩
      by_cases hn : s.block = n
      · rw [if_pos hn] at hno
        cases hno
      · rw [if_neg hn]
        exact ⟨hs, fun h => hn h.symm⟩
  | deleteTransactions n =>
      rcases List.mem_filter.mp hr with ⟨hr, hne⟩
      exact ⟨hr, fun h => of_decide_eq_true hne h.symm⟩
  | deleteBlock n => exact ⟨(List.mem_filter.mp hr).1, id⟩
  | _ => exact ⟨hr, id⟩

/-- The same for a transfer. -/
theorem mem_transfers_exec (hq : q.FollowedBy rest) (hexec : q.exec db = some db')
    {r : TransferModel} (hr : r ∈ db'.transfers) (hno : r.confirmed = false) :
    r ∈ db.transfers ∧ ¬ q.ResetsTransfer r := by
  rw [(Query.exec_eq_some.mp hexec).2] at hr
  cases q with
  | insertTransfer row =>
      rcases List.mem_append.mp hr with hr | hr
      · exact ⟨hr, id⟩
      · rw [List.mem_singleton.mp hr] at hno
        exact absurd (hno.symm.trans hq) Bool.false_ne_true
  | confirmTransfers n =>
      rcases List.mem_map.mp hr with ⟨s, hs, rfl⟩
      by_cases hn : s.block = n
      · rw [if_pos hn] at hno
        cases hno
      · rw [if_neg hn]
        exact ⟨hs, fun h => hn h.symm⟩
  | deleteTransfers n =>
      rcases List.mem_filter.mp hr with ⟨hr, hne⟩
      exact ⟨hr, fun h => of_decide_eq_true hne h.symm⟩
  | deleteBlock n => exact ⟨(List.mem_filter.mp hr).1, id⟩
  | _ => exact ⟨hr, id⟩

/-- A row that has a query pending before a query which does not reset it has one
    pending after, if confirming its block leaves it one. -/
theorem pending_exec {n : Int} {R : Query → Prop} (hexec : q.exec db = some db')
    (hat : ConfirmedAt n db') (hpending : ConfirmedAt n db → ∃ p ∈ q :: rest, R p) (hnot : ¬ R q)
    (hconfirms : (q = .confirmBlock n ∨ ∃ row, q = .insertBlock row ∧ row.number = n) →
      ∃ p ∈ rest, R p) : ∃ p ∈ rest, R p := by
  rcases confirmedAt_exec hexec hat with hat | hq
  · rcases hpending hat with ⟨p, hp, hR⟩
    rcases List.mem_cons.mp hp with rfl | hp
    · exact absurd hR hnot
    · exact ⟨p, hp, hR⟩
  · exact hconfirms hq

/-- A query of the solidity run that is followed by what it needs keeps the
    invariant. -/
theorem settled_exec (hq : q.FollowedBy rest) (h : Settled db (q :: rest))
    (hexec : q.exec db = some db') : Settled db' rest := by
  constructor
  · intro r hr hno hat
    rcases mem_transactions_exec hq hexec hr hno with ⟨hr, hreset⟩
    refine pending_exec hexec hat (h.transactions r hr hno) hreset ?_
    rintro (rfl | ⟨row, rfl, hnumber⟩)
    · exact ⟨_, hq.1, rfl⟩
    · exact ⟨_, hq.1, hnumber⟩
  · intro r hr hno hat
    rcases mem_transfers_exec hq hexec hr hno with ⟨hr, hreset⟩
    refine pending_exec hexec hat (h.transfers r hr hno) hreset ?_
    rintro (rfl | ⟨row, rfl, hnumber⟩)
    · exact ⟨_, hq.2, rfl⟩
    · exact ⟨_, hq.2, hnumber⟩

/-- So does a batch. -/
theorem settled_execQueries {batch : List Query} (horderly : Orderly (batch ++ rest))
    (h : Settled db (batch ++ rest)) (hexec : execQueries batch db = some db') :
    Settled db' rest := by
  induction batch generalizing db with
  | nil =>
      cases hexec
      exact h
  | cons q batch ih =>
      rcases Lib.execAll_cons_some.mp hexec with ⟨u, hu, hrest⟩
      exact ih horderly.2 (settled_exec horderly.1 h hu) hrest

theorem settled_append (h : Settled db rest) (more : List Query) : Settled db (rest ++ more) := by
  constructor
  · intro r hr hno hat
    rcases h.transactions r hr hno hat with ⟨q, hq, hreset⟩
    exact ⟨q, List.mem_append_left _ hq, hreset⟩
  · intro r hr hno hat
    rcases h.transfers r hr hno hat with ⟨q, hq, hreset⟩
    exact ⟨q, List.mem_append_left _ hq, hreset⟩

end Exec

variable [Codec]

/-- Whatever a batch inserts unconfirmed into a confirmed block still has a query
    pending that resets it. -/
structure BatchInTime (db : Database) (batch pending : List Query) : Prop where
  transactions : ∀ row, .insertTransaction row ∈ batch → row.confirmed = false →
    ConfirmedAt row.block db → ∃ q ∈ pending, q.ResetsTransaction row
  transfers : ∀ row, .insertTransfer row ∈ batch → row.confirmed = false →
    ConfirmedAt row.block db → ∃ q ∈ pending, q.ResetsTransfer row

instance (db : Database) (batch pending : List Query) : Decidable (BatchInTime db batch pending) :=
  decidable_of_iff
    ((∀ row ∈ batch.filterMap Query.transactionRow, row.confirmed = false →
        ConfirmedAt row.block db → ∃ q ∈ pending, q.ResetsTransaction row) ∧
      ∀ row ∈ batch.filterMap Query.transferRow, row.confirmed = false →
        ConfirmedAt row.block db → ∃ q ∈ pending, q.ResetsTransfer row)
    ⟨fun h => ⟨fun row hrow => h.1 row (Query.mem_transactionRow.mpr hrow),
        fun row hrow => h.2 row (Query.mem_transferRow.mpr hrow)⟩,
      fun h => ⟨fun row hrow => h.transactions row (Query.mem_transactionRow.mp hrow),
        fun row hrow => h.transfers row (Query.mem_transferRow.mp hrow)⟩⟩

section Full

variable {c : Bool} {blocks : List Block} {batch pending : List Query} {db db' : Database}

/-- The flags of what a full node run inserts. -/
theorem confirmed_fullNodeQueries :
    (∀ row, .insertBlock row ∈ fullNodeQueries c blocks → row.confirmed = c) ∧
      (∀ row, .insertTransaction row ∈ fullNodeQueries c blocks → row.confirmed = c) ∧
      ∀ row, .insertTransfer row ∈ fullNodeQueries c blocks → c = true → row.confirmed = true := by
  refine ⟨fun row h => ?_, fun row h => ?_, fun row h hc => ?_⟩
  · rcases insertBlock_mem_fullNodeQueries.mp h with ⟨_, _, _, rfl⟩
    rfl
  · rcases mem_fullNodeQueries.mp h with ⟨_, _, e, _, hq⟩
    rw [← Query.mem_transactionRow, (e.fullNodeQueries_rows c).2.1] at hq
    rcases List.mem_map.mp hq with ⟨_, _, rfl⟩
    rfl
  · rcases mem_fullNodeQueries.mp h with ⟨_, _, e, _, hq⟩
    rw [← Query.mem_transferRow, (e.fullNodeQueries_rows c).2.2.1] at hq
    rcases List.mem_map.mp hq with ⟨_, _, rfl⟩
    rw [TransferModel.confirm_confirmed, Extracted.transferFlag, hc, Bool.true_or]

/-- A batch of the full node run confirms no block that has unconfirmed rows. -/
theorem confirmedAt_full (hbatch : ∀ q ∈ batch, q ∈ fullNodeQueries c blocks)
    (hexec : execQueries batch db = some db') {n : Int} (h : ConfirmedAt n db') :
    ConfirmedAt n db ∨ c = true ∧ ¬ HasBlock n db := by
  have himport : ∀ q ∈ batch, q.isImport = true :=
    fun q hq => isImport_fullNodeQueries q (hbatch q hq)
  rcases h with ⟨row, hrow, hnumber, hconfirmed⟩
  rw [(execQueries_import himport hexec).1, List.mem_append] at hrow
  rcases hrow with hrow | hrow
  · exact Or.inl ⟨row, hrow, hnumber, hconfirmed⟩
  · have hquery := Query.mem_blockRow.mp hrow
    refine Or.inr ⟨?_, ?_⟩
    · rw [← confirmed_fullNodeQueries.1 row (hbatch _ hquery), hconfirmed]
    · exact (exec_batch himport hexec).2 n (mem_blockNumbers_iff.mpr ⟨row, hquery, hnumber⟩)

/-- If the invariant holds after a batch of the full node run, the batch was in
    time: what it inserted is there, and what was confirmed still is. -/
theorem inTime_of_settled (hbatch : ∀ q ∈ batch, q ∈ fullNodeQueries c blocks)
    (hexec : execQueries batch db = some db') (h : Settled db' pending) :
    BatchInTime db batch pending := by
  rcases execQueries_import (fun q hq => isImport_fullNodeQueries q (hbatch q hq)) hexec with
    ⟨hblocks, htransactions, htransfers, _⟩
  have hat {n : Int} (h : ConfirmedAt n db) : ConfirmedAt n db' := by
    rcases h with ⟨row, hrow, hrest⟩
    exact ⟨row, hblocks ▸ List.mem_append_left _ hrow, hrest⟩
  constructor
  · intro row hrow hno hconfirmed
    refine h.transactions row ?_ hno (hat hconfirmed)
    exact htransactions ▸ List.mem_append_right _ (Query.mem_transactionRow.mpr hrow)
  · intro row hrow hno hconfirmed
    refine h.transfers row ?_ hno (hat hconfirmed)
    exact htransfers ▸ List.mem_append_right _ (Query.mem_transferRow.mpr hrow)

/-- A batch of the full node run that is in time keeps the invariant. -/
theorem settled_of_inTime (hbatch : ∀ q ∈ batch, q ∈ fullNodeQueries c blocks)
    (h : Settled db pending) (hexec : execQueries batch db = some db')
    (hintime : BatchInTime db batch pending) : Settled db' pending := by
  rcases execQueries_import (fun q hq => isImport_fullNodeQueries q (hbatch q hq)) hexec with
    ⟨_, htransactions, htransfers, _⟩
  rcases @confirmed_fullNodeQueries _ c blocks with ⟨_, hflag, hflag'⟩
  constructor
  · intro r hr hno hat
    rw [htransactions, List.mem_append, Query.mem_transactionRow] at hr
    rcases confirmedAt_full hbatch hexec hat with hat | ⟨hc, hnew⟩
    · -- The block was confirmed before the batch.
      rcases hr with hr | hr
      · exact h.transactions r hr hno hat
      · exact hintime.transactions r hr hno hat
    · -- The batch inserts the block, confirmed, and so are its rows.
      rcases hr with hr | hr
      · exact absurd (db.wellFormed.transactions_blocks_id_fk r hr) hnew
      · rw [hflag r (hbatch _ hr), hc] at hno
        cases hno
  · intro r hr hno hat
    rw [htransfers, List.mem_append, Query.mem_transferRow] at hr
    rcases confirmedAt_full hbatch hexec hat with hat | ⟨hc, hnew⟩
    · rcases hr with hr | hr
      · exact h.transfers r hr hno hat
      · exact hintime.transfers r hr hno hat
    · rcases hr with hr | hr
      · exact absurd (db.wellFormed.transfers_blocks_id_fk r hr) hnew
      · rw [hflag' r (hbatch _ hr) hc] at hno
        cases hno

/-- A batch of the full node run keeps the invariant exactly when it is in time. -/
theorem settled_full_iff (hbatch : ∀ q ∈ batch, q ∈ fullNodeQueries c blocks)
    (h : Settled db pending) (hexec : execQueries batch db = some db') :
    Settled db' pending ↔ BatchInTime db batch pending :=
  ⟨inTime_of_settled hbatch hexec, settled_of_inTime hbatch h hexec⟩

end Full

/-- A batch of the full node run is in time. The solidity run is bound to nothing. -/
def InTime (s : ConfirmState) : ConfirmEvent → Prop
  | .full size => BatchInTime s.db (s.full.take size) s.solidity
  | _ => True

instance (s : ConfirmState) : ∀ e, Decidable (InTime s e)
  | .full size => inferInstanceAs (Decidable (BatchInTime s.db (s.full.take size) s.solidity))
  | .lookup _ | .emit | .solidity _ => isTrue trivial

/-- The invariant of both runs. -/
structure ConfirmInv (c : Bool) (blocks : List Block) (s : ConfirmState) : Prop where
  full : ∀ q ∈ s.full, q ∈ fullNodeQueries c blocks
  orderly : Orderly s.solidity
  settled : Settled s.db s.solidity

section Runs

variable {c : Bool} {blocks solidityBlocks : List Block} {s t : ConfirmState} {e : ConfirmEvent}

theorem confirmInv_step (hI : ConfirmInv c blocks s) (he : InTime s e)
    (h : confirmStep s e = some t) : ConfirmInv c blocks t := by
  rcases hI with ⟨hfull, horderly, hsettled⟩
  cases e with
  | full size =>
      -- The one event that can break the invariant.
      rcases confirmStep_full h with ⟨hexec, htfull, htsolidity⟩
      refine ⟨fun q hq => hfull q ?_, htsolidity ▸ horderly, htsolidity ▸ ?_⟩
      · rw [htfull] at hq
        exact List.mem_of_mem_drop hq
      · have hbatch : ∀ q ∈ s.full.take size, q ∈ fullNodeQueries c blocks :=
          fun q hq => hfull q (List.mem_of_mem_take hq)
        exact (settled_full_iff hbatch hsettled hexec).mpr he
  | lookup i =>
      rcases confirmStep_lookup h with ⟨hdb, htfull, htsolidity⟩
      exact ⟨htfull ▸ hfull, htsolidity ▸ horderly, by rwa [hdb, htsolidity]⟩
  | emit =>
      -- More pending queries, behind those that are there.
      rcases confirmStep_emit h with ⟨hdb, htfull, block, row, htsolidity⟩
      refine ⟨htfull ▸ hfull, ?_, ?_⟩
      · rw [htsolidity]
        exact orderly_append horderly (orderly_solidityBlockQueries block row)
      · rw [hdb, htsolidity]
        exact settled_append hsettled _
  | solidity size =>
      -- The batch is the head of an orderly list.
      rcases confirmStep_solidity h with ⟨hexec, htfull, htsolidity⟩
      refine ⟨htfull ▸ hfull, htsolidity ▸ orderly_drop size horderly, htsolidity ▸ ?_⟩
      rw [← List.take_append_drop size s.solidity] at horderly hsettled
      exact settled_execQueries horderly hsettled hexec

/-- Where the batches of the full node run are all in time, confirmed blocks have
    confirmed rows only whenever the solidity run has nothing pending. -/
theorem confirmedWhole_of_inTime {db : Database} {events : List ConfirmEvent}
    (hdb : ConfirmedWhole db)
    (hintime : Lib.Along confirmStep InTime (ConfirmState.start db c blocks solidityBlocks) events)
    (hrun : Lib.runFrom confirmStep (ConfirmState.start db c blocks solidityBlocks) events =
      some s) (hsolidity : s.solidity = []) : ConfirmedWhole s.db := by
  have hstart : ConfirmInv c blocks (ConfirmState.start db c blocks solidityBlocks) :=
    ⟨fun q hq => hq, trivial, settled_of_confirmedWhole hdb []⟩
  have hI := Lib.invariant_along (fun s e t hI he h => confirmInv_step hI he h) _ s events
    hstart hintime hrun
  exact confirmedWhole_of_settled (hsolidity ▸ hI.settled)

end Runs

/-- The property as one would like to have it, for every interleaving. -/
def ConfirmedStayWhole : Prop :=
  ∀ (db : Database) (c : Bool) (blocks solidityBlocks : List Block) (events : List ConfirmEvent)
    (s : ConfirmState), ConfirmedWhole db →
    (∀ block ∈ blocks, ¬ HasBlock block.number db) →
    Lib.runFrom confirmStep (ConfirmState.start db c blocks solidityBlocks) events = some s →
    s.full = [] → s.solidity = [] → ConfirmedWhole s.db

omit [Codec]

/-- A block with a transfer in both runs, and the events of the two. Its row and
    its transaction commit, the solidity run looks it up and confirms it, and the
    transfer commits before or after. -/
def transferState : ConfirmState :=
  @ConfirmState.start exampleCodec Database.empty false [transferBlock 1] [transferBlock 1]

/-- The rest of the full node run commits before the solidity batch. -/
def promptEvents : List ConfirmEvent :=
  [.full 2, .lookup 0, .emit, .full 1, .solidity 500]

/-- It commits after. -/
def lateEvents : List ConfirmEvent :=
  [.full 2, .lookup 0, .emit, .solidity 500, .full 1]

theorem confirmedWhole_empty : ConfirmedWhole Database.empty :=
  ⟨fun _ h => absurd h List.not_mem_nil, fun _ h => absurd h List.not_mem_nil⟩

theorem confirmedWhole_of_inTime_prompt : ∃ s,
    Lib.runFrom (@confirmStep exampleCodec) transferState promptEvents = some s ∧
      ConfirmedWhole s.db := by
  have hend : (Lib.runFrom (@confirmStep exampleCodec) transferState promptEvents).map
      (fun s => s.solidity.length) = some 0 := by decide +kernel
  rcases Option.map_eq_some_iff.mp hend with ⟨s, hrun, hlength⟩
  refine ⟨s, hrun, @confirmedWhole_of_inTime exampleCodec false [transferBlock 1]
    [transferBlock 1] s Database.empty promptEvents confirmedWhole_empty ?_ hrun
    (List.length_eq_zero_iff.mp hlength)⟩
  decide +kernel

/-- The transfer commits after the block has been confirmed. -/
theorem not_confirmedStayWhole_late : ¬ @ConfirmedStayWhole exampleCodec := by
  intro h
  have hend : (Lib.runFrom (@confirmStep exampleCodec) transferState lateEvents).map
      (fun s => decide (s.full.length = 0 ∧ s.solidity.length = 0 ∧
        s.db.blocks.map (fun r => (r.number, r.confirmed)) = [(1, true)] ∧
        s.db.transfers.map (fun r => (r.block, r.confirmed)) = [(1, false)])) = some true := by
    decide +kernel
  rcases Option.map_eq_some_iff.mp hend with ⟨s, hrun, hs⟩
  simp only [decide_eq_true_eq, Prod.mk.injEq, List.length_eq_zero_iff,
    List.map_eq_singleton_iff] at hs
  rcases hs with ⟨hfull, hsolidity, ⟨row, hblocks, hnumber, hconfirmed⟩, transfer, htransfers,
    hblock, hno⟩
  have hwhole := h Database.empty false [transferBlock 1] [transferBlock 1] lateEvents s
    confirmedWhole_empty (fun _ _ ⟨_, hrow, _⟩ => absurd hrow List.not_mem_nil) hrun hfull hsolidity
  have hyes := hwhole.transfers transfer (htransfers ▸ List.mem_singleton_self _)
    ⟨row, hblocks ▸ List.mem_singleton_self _, hnumber.trans hblock.symm, hconfirmed⟩
  rw [hno] at hyes
  cases hyes

end Tronscan
