import Tronscan.Api.Listing
import Tronscan.Importer.Run
import Tronscan.Core.Wire

/-!
# Transactions of an Address

The addresses of a transaction are its owner and, where its contract has one,
its recipient. Three parts of the program have a view of them. The extractor
lists them, and caches and accounts are updated by that list. The importer
writes them into columns, and the listing filters by these columns.

The importer writes the owner and leaves the recipient at its default, the empty
string. So a listing by recipient finds nothing, and a listing by address only
what the address owns. `listed_iff` says so for each address: it is listed
correctly exactly when no imported transaction has it as its recipient. The
empty string, which is no address, is the other way round. Every row has it as
its recipient.

## Main definitions

* `Transaction.addresses`, `Transaction.recipient`: The extractor's view.
* `TransactionApi.selected`: The rows a filter selects.
* `Listed`: The listing has the transactions of an address and no others.

## Theorems

* `transactionToModel_columns`: The importer's view.
* `import_transactions`: The table after an import, row by row.
* `listed_iff`: Which addresses are listed correctly.
* `not_allListed_recipient`: A recipient is not.
-/

namespace Tronscan

open BlockImporter

variable [Codec]

/-- The addresses of a transaction, by its first contract. -/
def Transaction.addresses (trx : Transaction) : List String :=
  trx.getRawData.contract.head?.elim [] fun contract =>
    emitted (ContractUtils.getAddresses contract)

/-- The recipient of a transaction, by its first contract. -/
def Transaction.recipient (trx : Transaction) : Option String :=
  trx.getRawData.contract.head?.bind fun contract =>
    (ContractUtils.getTo contract).toOption.join

/-- The rows of the table that pass the filter of a parameter. -/
def TransactionApi.selected [Platform] (name value : String) (db : Database) :
    List TransactionModel :=
  (listing.filterBy (name, value)).elim [] db.transactions.filter

/-- Of the transactions of the blocks, the filter by address selects those the
    address is one of the addresses of, and the filter by recipient those it is
    the recipient of. -/
structure Listed [Platform] (address : String) (blocks : List Block) (db : Database) : Prop where
  byAddress : (TransactionApi.selected "address" address db).map (·.hash) =
    ((blocks.flatMap (·.transactions)).filter (·.addresses.contains address)).map Transaction.hash
  byRecipient : (TransactionApi.selected "address_to" address db).map (·.hash) =
    ((blocks.flatMap (·.transactions)).filter (·.recipient == some address)).map Transaction.hash

theorem getTo_ok {contract : Contract} (h : contract.Known) :
    ∃ recipient, ContractUtils.getTo contract = .ok recipient := by
  rcases h with ⟨message, h⟩
  rw [ContractUtils.getTo, h]
  cases message <;> exact ⟨_, rfl⟩

/-- The columns of a transaction: its hash and its owner, and no recipient. -/
theorem transactionToModel_columns {trx : Transaction} {block : Block} {row : TransactionModel}
    (h : ModelUtils.transactionToModel trx block = .ok row) :
    row.hash = trx.hash ∧ row.toAddress = "" ∧
      trx.addresses = row.ownerAddress :: trx.recipient.toList := by
  simp only [ModelUtils.transactionToModel] at h
  cases hcontract : trx.getRawData.contract with
  | nil =>
      rw [hcontract] at h
      cases h
  | cons contract rest =>
      rw [hcontract] at h
      rcases Lib.bind_ok_iff.mp h with ⟨owner, howner, h⟩
      rcases Lib.bind_ok_iff.mp h with ⟨data, _, h⟩
      cases h
      rcases getTo_ok (getOwner_ok_iff.mp ⟨owner, howner⟩) with ⟨recipient, hrecipient⟩
      refine ⟨rfl, rfl, ?_⟩
      simp only [Transaction.addresses, Transaction.recipient, hcontract, List.head?_cons,
        Option.elim_some, Option.bind_some, ContractUtils.getAddresses, howner, hrecipient]
      rfl

/-- The rows of an import are those of its transactions, in order. -/
theorem import_transactions {blocks : List Block} {c : Bool} {db : Database}
    (hreadable : ∀ block ∈ blocks, block.Readable)
    (hdb : execQueries (fullNodeQueries c blocks) Database.empty = some db) :
    List.Forall₂ (fun row trx => row.hash = trx.hash ∧ row.toAddress = "" ∧
        trx.addresses = row.ownerAddress :: trx.recipient.toList)
      db.transactions (blocks.flatMap (·.transactions)) := by
  rw [(execQueries_import (fun q hq => isImport_fullNodeQueries q hq) hdb).2.1]
  clear hdb
  induction blocks with
  | nil => exact List.Forall₂.nil
  | cons block blocks ih =>
      have hrest := ih fun b hb => hreadable b (List.mem_cons_of_mem block hb)
      rcases extract_ok_iff.mpr (hreadable block List.mem_cons_self) with ⟨e, he⟩
      have hqueries : (fullNodeQueries c (block :: blocks)).filterMap Query.transactionRow =
          e.transactions.map (TransactionModel.confirm c) ++
            (fullNodeQueries c blocks).filterMap Query.transactionRow := by
        rw [fullNodeQueries, List.flatMap_cons, List.filterMap_append, fullNodeBlockQueries_eq, he,
          ← (e.fullNodeQueries_rows c).2.1]
        rfl
      rw [hqueries, List.flatMap_cons]
      refine List.rel_append (List.forall₂_map_left_iff.mpr ?_) hrest
      -- The rows of a block are read off its transactions one by one.
      rcases Lib.bind_ok_iff.mp he with ⟨rows, hrows, he⟩
      rcases Lib.bind_ok_iff.mp he with ⟨models, _, he⟩
      cases he
      refine ((Lib.mapM_ok_iff _ _ _).mp hrows).flip.imp fun row trx hrow => ?_
      have hcolumns := transactionToModel_columns hrow
      exact hcolumns

/-- An address is listed correctly exactly when it is the recipient of no imported
    transaction; the empty string when it is the recipient of all. -/
theorem listed_iff [Platform] {blocks : List Block} {c : Bool} {db : Database}
    (hreadable : ∀ block ∈ blocks, block.Readable)
    (hdb : execQueries (fullNodeQueries c blocks) Database.empty = some db) (address : String) :
    Listed address blocks db ↔
      ∀ block ∈ blocks, ∀ trx ∈ block.transactions, trx.recipient = some address ↔ address = "" := by
  have hrows := import_transactions hreadable hdb
  have hkeys : List.Forall₂ (fun row trx => row.hash = trx.hash) db.transactions
      (blocks.flatMap (·.transactions)) := hrows.imp fun _ _ h => h.1
  have hnodup := db.wellFormed.transactions_hash_pk
  have hmem : (∀ block ∈ blocks, ∀ trx ∈ block.transactions,
      trx.recipient = some address ↔ address = "") ↔
      ∀ trx ∈ blocks.flatMap (·.transactions), trx.recipient = some address ↔ address = "" := by
    simp only [List.mem_flatMap, forall_exists_index, and_imp]
    exact ⟨fun h trx block hblock htrx => h block hblock trx htrx,
      fun h block hblock trx htrx => h trx block hblock htrx⟩
  -- The column the listing by recipient filters by is empty in every row.
  have hrecipient : (TransactionApi.selected "address_to" address db).map (·.hash) =
      ((blocks.flatMap (·.transactions)).filter (·.recipient == some address)).map
        Transaction.hash ↔
      ∀ trx ∈ blocks.flatMap (·.transactions), trx.recipient = some address ↔ address = "" := by
    refine (Lib.filter_keys_eq_iff hkeys hnodup _ _).trans
      (Lib.forall₂_iff_forall_mem hrows fun row trx hrow => ?_)
    rw [Bool.eq_iff_iff, beq_iff_eq, beq_iff_eq, hrow.2.1, eq_comm (a := "")]
    exact iff_comm
  rw [hmem]
  refine ⟨fun h => hrecipient.mp h.byRecipient, fun h => ⟨?_, hrecipient.mpr h⟩⟩
  -- Where that is right, the column of the owner does for the rest.
  have hall : List.Forall₂ (fun _ trx => trx.recipient = some address ↔ address = "")
      db.transactions (blocks.flatMap (·.transactions)) :=
    (Lib.forall₂_iff_forall_mem (Q := fun trx => trx.recipient = some address ↔ address = "")
      hrows fun _ _ _ => Iff.rfl).mpr h
  refine (Lib.filter_keys_eq_iff hkeys hnodup _ _).mpr (hrows.mp (fun row trx hrow hq => ?_) hall)
  rw [Bool.eq_iff_iff, Bool.or_eq_true, beq_iff_eq, beq_iff_eq, hrow.2.1, hrow.2.2,
    List.contains_iff_mem, List.mem_cons, Option.mem_toList, hq, eq_comm (a := row.ownerAddress),
    eq_comm (a := "")]

/-- The property as one would like to have it, for all addresses. -/
def AllListed [Platform] : Prop :=
  ∀ (blocks : List Block) (c : Bool) (db : Database), (∀ block ∈ blocks, block.Readable) →
    (∀ block ∈ blocks, ∀ trx ∈ block.transactions, trx.getRawData.contract.length = 1) →
    execQueries (fullNodeQueries c blocks) Database.empty = some db →
    ∀ address, Listed address blocks db

omit [Codec]

/-- Two blocks, the second with the given transaction. -/
def listedChain (trx : Transaction) : List Block :=
  [emptyBlock 0, childBlock (emptyBlock 0) 0 [trx]]

theorem listedChain_readable :
    (∀ block ∈ listedChain exampleTransaction, @Block.Readable exampleCodec block) ∧
      ∀ block ∈ listedChain voteTransaction, @Block.Readable exampleCodec block := by
  decide +kernel

/-- A vote has no recipient, and its owner is listed correctly. -/
theorem listed_iff_vote : ∃ db,
    execQueries (@fullNodeQueries exampleCodec false (listedChain voteTransaction))
      Database.empty = some db ∧
    @Listed exampleCodec examplePlatform (@encodeAddress exampleCodec exampleOwner)
      (listedChain voteTransaction) db := by
  let _ := exampleCodec
  have himport : (execQueries (fullNodeQueries false (listedChain voteTransaction))
      Database.empty).isSome = true := by decide +kernel
  rcases Option.isSome_iff_exists.mp himport with ⟨db, hdb⟩
  refine ⟨db, hdb, (@listed_iff exampleCodec examplePlatform _ false db listedChain_readable.2 hdb
    _).mpr ?_⟩
  decide +kernel

/-- The recipient of a transfer is not listed for it. -/
theorem not_allListed_recipient : ¬ @AllListed exampleCodec examplePlatform := by
  let _ := exampleCodec
  let _ := examplePlatform
  intro h
  have himport : (execQueries (fullNodeQueries false (listedChain exampleTransaction))
      Database.empty).map (fun db => (TransactionApi.selected "address_to"
        (encodeAddress exampleRecipient) db).length) = some 0 := by decide +kernel
  have hone : (((listedChain exampleTransaction).flatMap (·.transactions)).filter
      (·.recipient == some (encodeAddress exampleRecipient))).length = 1 := by decide +kernel
  rcases Option.map_eq_some_iff.mp himport with ⟨db, hdb, hnone⟩
  have hlisted := h _ false db listedChain_readable.1 (by decide) hdb
    (encodeAddress exampleRecipient)
  have hlength := congrArg List.length hlisted.byRecipient
  rw [List.length_map, List.length_map, hnone, hone] at hlength
  cases hlength

end Tronscan
