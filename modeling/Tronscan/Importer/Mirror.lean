import Tronscan.Importer.History

/-!
# What the Importers Are For

The explorer is to show the chain: the first blocks of it, so many, and which of them
are confirmed. That is a `View`. A full node run takes it further up the chain, a
solidity run confirms, and for neither does it matter how the queries are cut or in which
order a node answers.

A view says what the tables hold. They are those that one import of its blocks leaves in
an empty database, with the flags of the rows set for the blocks that are confirmed.

## Main definitions

* `Blockchain`: A chain without an end, all of it readable.
* `Blockchain.upTo`: As much of it as a node has.
* `View`, `View.step`: How far the explorer is, and what a run makes of it.
* `Observed`, `ImportRun.observed`: What matters of a run.
* `Tables.flagged`, `Mirrors`: The tables of a view.
-/

namespace Tronscan

open BlockImporter

/-- A chain without an end. No two of its transactions have the same hash. -/
structure Blockchain [Codec] where
  block : ℕ → Block
  header_isSome : ∀ n, (block n).blockHeader.isSome = true
  number_eq : ∀ n, (block n).number = n
  readable : ∀ n, (block n).Readable
  hashes_nodup : ∀ k, (((List.range k).flatMap fun n => (block n).transactions).map
    Transaction.hash).Nodup

namespace Blockchain

variable [Codec] (chain : Blockchain)

/-- The blocks below a height. -/
def take (height : ℕ) : List Block := (List.range height).map chain.block

/-- What a node has of the chain whose last block is the head. -/
def upTo (head : Int) : Chain where
  read n := if 0 ≤ n ∧ n ≤ head then some (chain.block n.toNat) else none
  header_isSome n block h := by
    obtain ⟨-, hblock⟩ := Option.ite_none_right_eq_some.mp h
    cases hblock
    exact chain.header_isSome _
  number_eq n block h := by
    obtain ⟨hn, hblock⟩ := Option.ite_none_right_eq_some.mp h
    cases hblock
    rw [chain.number_eq, Int.toNat_of_nonneg hn.1]

end Blockchain

/-- What matters of a run: the heads that it was told of, and whether it confirms. -/
inductive Observed where
  | nothing
  | full (head : Int) (confirmBlocks : Bool)
  | solidity (head solidityHead : Int)

/-- How many blocks the explorer has, and which of them are confirmed. -/
structure View where
  height : ℕ
  confirmed : Int → Bool

namespace View

/-- Nothing yet. -/
def empty : View := ⟨0, fun _ => false⟩

variable (v : View)

/-- The numbers of its blocks are 64-bit integers, and there is one after them. -/
def Fits : Prop := v.height < 2 ^ 63

/-- The number of the last block, `-1` when there is none. -/
def latest : Int := v.height - 1

/-- The number of the first unconfirmed block, `-1` when there is none. -/
def unconfirmed : Int :=
  ((List.range v.height).find? fun n : ℕ => !v.confirmed n).elim (-1) Nat.cast

/-- The height that a full node run gets to. The last two blocks of the node are left
    alone, and a batched read leaves out one more. -/
def target (head : Int) : ℕ := (if head - v.latest < 100 then head - 1 else head - 2).toNat

/-- What a run makes of the view. A solidity run does not read more blocks than an `Int`
    can count. -/
def step : Observed → View
  | .nothing => v
  | .full head confirmBlocks =>
      { height := max v.height (v.target head)
        confirmed := fun n => if n < v.height then v.confirmed n else confirmBlocks }
  | .solidity head solidityHead =>
      if head - v.latest > 100 ∨ v.latest - v.unconfirmed ≤ 0 ∨
          2147483647 ≤ min v.latest solidityHead - v.unconfirmed then v
      else { v with confirmed := fun n => v.confirmed n || decide (n ≤ solidityHead) }

end View

/-- Rows with the flags of the confirmed blocks set, and with those of the transfers
    in block 0. -/
def Tables.flagged (confirmed : Int → Bool) (t : Tables) : Tables :=
  { t with
    blocks := t.blocks.map fun r => r.confirm (confirmed r.number)
    transactions := t.transactions.map fun r => r.confirm (confirmed r.block)
    transfers := t.transfers.map fun r => r.confirm (confirmed r.block || r.block == 0) }

variable [Codec]

/-- The tables are those of one import of the blocks, up to the flags. -/
def Mirrors (chain : Blockchain) (v : View) (db : Database) : Prop :=
  ∃ plain, execQueries (fullNodeQueries false (chain.take v.height)) Database.empty = some plain ∧
    db.toTables = plain.toTables.flagged v.confirmed

namespace ImportRun

variable (run : ImportRun) (db : Database)

/-- What matters of the run on a database. -/
def observed : Observed :=
  match run.action db, run.source with
  | none, _ => .nothing
  | some action, .fullNode _ => .full run.status.fullNodeBlock.toInt action.confirmBlocks
  | some _, .solidity _ =>
      .solidity run.status.fullNodeBlock.toInt run.status.solidityBlock.toInt

end ImportRun

end Tronscan
