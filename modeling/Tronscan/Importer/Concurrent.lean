import Tronscan.Importer.Solidity
import Tronscan.Importer.Run
import Tronscan.Lib.System

/-!
# A Full Node Run beside a Solidity Run

The two importers have a stream each and share the database. The queries of the
full node run are there from the start. Those of the solidity run depend on what
it finds. For each block it first looks the row up, at most twelve blocks ahead
and in any order, and then, block by block, emits the queries that what it found
calls for. By then the row may have changed.

Either run commits its queries in order, the full node run at most a thousand at
a time and the solidity run at most five hundred. A batch is the next part of a
run's queries, of any size within the bound.

## Main definitions

* `ConfirmState`: The database, and what each run has still to do.
* `ConfirmEvent`, `confirmStep`: A batch of either run, a lookup, an emission.
* `ConfirmState.start`: Both runs before their first step.

## Theorems

* `confirmStep_full`, `confirmStep_lookup`, `confirmStep_emit`,
  `confirmStep_solidity`: What each event does.
-/

namespace Tronscan

open BlockImporter

/-- The database, the queries the full node run has still to commit, the blocks
    the solidity run has still to emit, with what their lookup found once it is
    done, and the queries it has emitted and not committed. -/
structure ConfirmState where
  db : Database
  full : List Query
  lookups : List (Block × Option (Option BlockModel))
  solidity : List Query

/-- What can happen while the two runs are under way. -/
inductive ConfirmEvent where
  /-- The next batch of the full node run commits. -/
  | full (size : Nat)
  /-- The row of a block is looked up. -/
  | lookup (i : Nat)
  /-- The queries of the next block are emitted. -/
  | emit
  /-- The next batch of the solidity run commits. -/
  | solidity (size : Nat)

variable [Codec]

/-- Both runs before their first step. -/
def ConfirmState.start (db : Database) (confirmBlocks : Bool) (blocks solidityBlocks : List Block) :
    ConfirmState where
  db := db
  full := fullNodeQueries confirmBlocks blocks
  lookups := solidityBlocks.map fun block => (block, none)
  solidity := []

/-- One step; none where the event cannot happen. -/
def confirmStep (s : ConfirmState) : ConfirmEvent → Option ConfirmState
  | .full size =>
      if 0 < size ∧ size ≤ 1000 then
        (execQueries (s.full.take size) s.db).map fun db =>
          { s with db := db, full := s.full.drop size }
      else none
  | .lookup i =>
      match s.lookups[i]? with
      | some (block, none) =>
          -- `mapAsync(12)`
          if i < 12 then
            some { s with
              lookups := s.lookups.set i (block, some (findByNumber block.number s.db)) }
          else none
      | _ => none
  | .emit =>
      match s.lookups with
      -- The results are passed on in order, whenever they came in.
      | (block, some row) :: rest =>
          some { s with
            lookups := rest
            solidity := s.solidity ++ solidityBlockQueries block row }
      | _ => none
  | .solidity size =>
      if 0 < size ∧ size ≤ 500 then
        (execQueries (s.solidity.take size) s.db).map fun db =>
          { s with db := db, solidity := s.solidity.drop size }
      else none

section Steps

variable {s t : ConfirmState} {size i : Nat}

theorem confirmStep_full (h : confirmStep s (.full size) = some t) :
    execQueries (s.full.take size) s.db = some t.db ∧ t.full = s.full.drop size ∧
      t.solidity = s.solidity := by
  simp only [confirmStep] at h
  split at h
  · rcases Option.map_eq_some_iff.mp h with ⟨db, hdb, rfl⟩
    exact ⟨hdb, rfl, rfl⟩
  · cases h

theorem confirmStep_lookup (h : confirmStep s (.lookup i) = some t) :
    t.db = s.db ∧ t.full = s.full ∧ t.solidity = s.solidity := by
  simp only [confirmStep] at h
  split at h
  · split at h
    · cases h
      exact ⟨rfl, rfl, rfl⟩
    · cases h
  · cases h

theorem confirmStep_emit (h : confirmStep s .emit = some t) :
    t.db = s.db ∧ t.full = s.full ∧
      ∃ block row, t.solidity = s.solidity ++ solidityBlockQueries block row := by
  simp only [confirmStep] at h
  split at h
  · cases h
    exact ⟨rfl, rfl, _, _, rfl⟩
  · cases h

theorem confirmStep_solidity (h : confirmStep s (.solidity size) = some t) :
    execQueries (s.solidity.take size) s.db = some t.db ∧ t.full = s.full ∧
      t.solidity = s.solidity.drop size := by
  simp only [confirmStep] at h
  split at h
  · rcases Option.map_eq_some_iff.mp h with ⟨db, hdb, rfl⟩
    exact ⟨hdb, rfl, rfl⟩
  · cases h

end Steps

end Tronscan
