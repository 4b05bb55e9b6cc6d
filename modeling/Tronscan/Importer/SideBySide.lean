import Tronscan.Importer.History
import Tronscan.Importer.Solidity

/-!
# Runs Side by Side

`ImportManager` starts the two importers side by side, each with a timer of its own. A tick
sets a run up from what is in the database at that moment, and is over when the blocks have
gone by. Their queries are written by a side sink that no tick waits for. So there can be
runs of both importers under way, and several of either, and their batches come in any
order.

A full node run has all of its queries from the start. A solidity run looks the rows of
its blocks up first, at most twelve blocks ahead and in any order, and emits the queries of
a block when what was found for it is its turn. By then the row may have changed.

A batch is the next part of what a run has emitted, of any size up to the one at which it
is full. It commits as a whole, or fails and is dropped.

## Main definitions

* `RunUnderWay`: What a run has still to look up, to emit and to write.
* `Importers`: The database, and the runs that are under way.
* `ImportersEvent`, `importersStep`: A tick, a lookup, an emission, and the two ends that a
  batch can have.

## Theorems

* `importersStep_start`, `importersStep_lookup`, `importersStep_emit`,
  `importersStep_commit`, `importersStep_fail`: What each event does.
* `historyStep_runFrom`, `history_runFrom`: One run after the other is one way to go.
-/

namespace Tronscan

open BlockImporter ImportStreamFactory

/-- What a run has still to do: the blocks it has not emitted the queries of, with what the
    lookup of their row found once it is done, and the queries no batch has taken. -/
structure RunUnderWay where
  maxBatch : Nat
  lookups : List (Block × Option (Option BlockModel))
  pending : List Query

/-- The next batch of a run. -/
def RunUnderWay.batch (run : RunUnderWay) (size : Nat) : List Query := run.pending.take size

/-- The run after a batch. -/
def RunUnderWay.drop (run : RunUnderWay) (size : Nat) : RunUnderWay :=
  { run with pending := run.pending.drop size }

/-- The database, and the runs, oldest first. -/
structure Importers where
  db : Database
  runs : List RunUnderWay

/-- A fresh installation. -/
def Importers.empty : Importers := ⟨Database.empty, []⟩

/-- What can happen to the database and to the runs over it. -/
inductive ImportersEvent where
  /-- A tick of either importer. -/
  | start (tick : ImportTick)
  /-- A run looks up the row of one of its blocks. -/
  | lookup (run i : Nat)
  /-- A run emits the queries of its next block. -/
  | emit (run : Nat)
  /-- The next batch of a run commits. -/
  | commit (run size : Nat)
  /-- The next batch of a run fails and is dropped. -/
  | fail (run size : Nat)

variable [Codec]

/-- The run that a tick sets up. -/
def ImportTick.underWay (tick : ImportTick) (db : Database) : RunUnderWay where
  maxBatch := tick.maxBatch
  lookups :=
    match tick.source with
    | .fullNode _ => []
    | .solidity _ => (tick.blocks db).map fun block => (block, none)
  pending :=
    match tick.source with
    | .fullNode _ => tick.queries db
    | .solidity _ => []

/-- One event, `none` when it cannot happen. -/
def importersStep (s : Importers) : ImportersEvent → Option Importers
  | .start tick => some { s with runs := s.runs ++ [tick.underWay s.db] }
  | .lookup r i => do
      let run ← s.runs[r]?
      match run.lookups[i]? with
      | some (block, none) =>
          -- `mapAsync(12)`
          if i < 12 then
            let found := (block, some (findByNumber block.number s.db))
            return { s with runs := s.runs.set r { run with lookups := run.lookups.set i found } }
          else none
      | _ => none
  | .emit r => do
      let run ← s.runs[r]?
      match run.lookups with
      -- The results are passed on in order, whenever they came in.
      | (block, some row) :: rest =>
          return { s with
            runs := s.runs.set r { run with
              lookups := rest
              pending := run.pending ++ solidityBlockQueries block row } }
      | _ => none
  | .commit r size => do
      let run ← s.runs[r]?
      if 0 < size ∧ size ≤ run.maxBatch then
        let db ← execQueries (run.batch size) s.db
        return ⟨db, s.runs.set r (run.drop size)⟩
      else none
  | .fail r size => do
      let run ← s.runs[r]?
      if 0 < size ∧ size ≤ run.maxBatch then
        return { s with runs := s.runs.set r (run.drop size) }
      else none

section Steps

variable {s t : Importers} {r i size : Nat}

theorem importersStep_start {tick : ImportTick} (h : importersStep s (.start tick) = some t) :
    t = { s with runs := s.runs ++ [tick.underWay s.db] } :=
  (Option.some.inj h).symm

theorem importersStep_lookup (h : importersStep s (.lookup r i) = some t) :
    ∃ run block, s.runs[r]? = some run ∧ run.lookups[i]? = some (block, none) ∧
      t = { s with runs := s.runs.set r { run with
        lookups := run.lookups.set i (block, some (findByNumber block.number s.db)) } } := by
  rcases Option.bind_eq_some_iff.mp h with ⟨run, hrun, h⟩
  split at h
  · rename_i block hlookup
    split at h
    · cases h
      exact ⟨run, block, hrun, hlookup, rfl⟩
    · cases h
  · cases h

theorem importersStep_emit (h : importersStep s (.emit r) = some t) :
    ∃ run block row rest, s.runs[r]? = some run ∧ run.lookups = (block, some row) :: rest ∧
      t = { s with runs := s.runs.set r { run with
        lookups := rest, pending := run.pending ++ solidityBlockQueries block row } } := by
  rcases Option.bind_eq_some_iff.mp h with ⟨run, hrun, h⟩
  split at h
  · rename_i block row rest hlookups
    cases h
    exact ⟨run, block, row, rest, hrun, hlookups, rfl⟩
  · cases h

theorem importersStep_commit (h : importersStep s (.commit r size) = some t) :
    ∃ run, s.runs[r]? = some run ∧ execQueries (run.batch size) s.db = some t.db ∧
      t.runs = s.runs.set r (run.drop size) := by
  rcases Option.bind_eq_some_iff.mp h with ⟨run, hrun, h⟩
  split at h
  · rcases Option.bind_eq_some_iff.mp h with ⟨db, hdb, h⟩
    cases h
    exact ⟨run, hrun, hdb, rfl⟩
  · cases h

theorem importersStep_fail (h : importersStep s (.fail r size) = some t) :
    ∃ run, s.runs[r]? = some run ∧ t = { s with runs := s.runs.set r (run.drop size) } := by
  rcases Option.bind_eq_some_iff.mp h with ⟨run, hrun, h⟩
  split at h
  · cases h
    exact ⟨run, hrun, rfl⟩
  · cases h

omit [Codec] in
/-- A batch and what is left after it. -/
theorem batch_append_drop (run : RunUnderWay) (size : Nat) :
    run.batch size ++ (run.drop size).pending = run.pending :=
  List.take_append_drop size run.pending

end Steps

/-!
### One run after the other

A run that nothing comes between looks up and emits all of its blocks, and then writes its
batches. So every history of runs one after the other is among the ways the runs can go
side by side.
-/

section Alone

variable (us : List RunUnderWay)

/-- The run that was started last looks its blocks up and emits their queries, one block
    after the other. -/
theorem runFrom_emit (db : Database) (blocks : List Block) (run : RunUnderWay)
    (hlookups : run.lookups = blocks.map fun block => (block, none)) :
    ∃ events, Lib.runFrom importersStep ⟨db, us ++ [run]⟩ events =
      some ⟨db, us ++ [{ run with
        lookups := []
        pending := run.pending ++ blocks.flatMap fun block =>
          solidityBlockQueries block (findByNumber block.number db) }]⟩ := by
  induction blocks generalizing run with
  | nil =>
      refine ⟨[], ?_⟩
      rw [List.flatMap_nil, List.append_nil]
      rcases run with ⟨maxBatch, lookups, pending⟩
      cases hlookups
      rfl
  | cons block blocks ih =>
      have hlookup : importersStep ⟨db, us ++ [run]⟩ (.lookup us.length 0) =
          some ⟨db, us ++ [{ run with
            lookups := (block, some (findByNumber block.number db)) ::
              blocks.map fun block => (block, none) }]⟩ := by
        simp [importersStep, hlookups]
      have hemit := ih { run with
        lookups := blocks.map fun block => (block, none)
        pending := run.pending ++
          solidityBlockQueries block (findByNumber block.number db) } rfl
      rcases hemit with ⟨events, hevents⟩
      refine ⟨.lookup us.length 0 :: .emit us.length :: events, ?_⟩
      rw [Lib.runFrom, hlookup, Option.bind_some, Lib.runFrom]
      simp only [importersStep, List.getElem?_concat_length, Option.bind_eq_bind,
        Option.bind_some, Option.pure_def, List.set_append_right _ _ (Nat.le_refl _),
        Nat.sub_self, List.set_cons_zero]
      rw [hevents, List.flatMap_cons, List.append_assoc]

/-- It writes its batches in order, and those that violate a constraint fail. -/
theorem runFrom_batches (batches : List (List Query × Bool)) (db : Database)
    (run : RunUnderWay) (hpending : run.pending = (batches.map (·.1)).flatten)
    (hsize : ∀ batch ∈ batches, batch.1 ≠ [] ∧ batch.1.length ≤ run.maxBatch) :
    ∃ events, Lib.runFrom importersStep ⟨db, us ++ [run]⟩ events =
      some ⟨(Lib.runDropping Query.exec batches db).2, us ++ [{ run with pending := [] }]⟩ := by
  induction batches generalizing run db with
  | nil =>
      refine ⟨[], ?_⟩
      rcases run with ⟨maxBatch, lookups, pending⟩
      cases hpending
      rfl
  | cons batch batches ih =>
      rcases batch with ⟨queries, commits⟩
      rw [List.forall_mem_cons] at hsize
      rw [List.map_cons, List.flatten_cons] at hpending
      have hfits : 0 < queries.length ∧ queries.length ≤ run.maxBatch :=
        ⟨List.length_pos_of_ne_nil hsize.1.1, hsize.1.2⟩
      have hdrop : (run.drop queries.length).pending = (batches.map (·.1)).flatten := by
        rw [RunUnderWay.drop, hpending, List.drop_left]
      rcases Lib.runDropping_cons queries commits batches db with ⟨db', hdb', heq⟩ | heq
      · rcases ih db' (run.drop queries.length) hdrop hsize.2 with ⟨events, hevents⟩
        refine ⟨.commit us.length queries.length :: events, ?_⟩
        have hbatch : execQueries (run.batch queries.length) db = some db' := by
          rw [RunUnderWay.batch, hpending, List.take_left]
          exact hdb'
        simp only [Lib.runFrom, importersStep, List.getElem?_concat_length,
          Option.bind_eq_bind, Option.bind_some, if_pos hfits, hbatch, Option.pure_def,
          List.set_append_right _ _ (Nat.le_refl _), Nat.sub_self, List.set_cons_zero]
        rw [hevents, heq]
        rfl
      · rcases ih db (run.drop queries.length) hdrop hsize.2 with ⟨events, hevents⟩
        refine ⟨.fail us.length queries.length :: events, ?_⟩
        simp only [Lib.runFrom, importersStep, List.getElem?_concat_length,
          Option.bind_eq_bind, Option.bind_some, if_pos hfits, Option.pure_def,
          List.set_append_right _ _ (Nat.le_refl _), Nat.sub_self, List.set_cons_zero]
        rw [hevents, heq]
        rfl

/-- A run from its start to its end is one way for it to go. -/
theorem historyStep_runFrom {s t : History} {run : ImportRun} (h : historyStep s run = some t) :
    ∃ events, Lib.runFrom importersStep ⟨s.db, us⟩ events =
      some ⟨t.db, us ++ [⟨run.maxBatch, [], []⟩]⟩ := by
  have hstart : importersStep ⟨s.db, us⟩ (.start run.toImportTick) =
      some ⟨s.db, us ++ [run.underWay s.db]⟩ := rfl
  have hemit : ∃ events, Lib.runFrom importersStep ⟨s.db, us ++ [run.underWay s.db]⟩ events =
      some ⟨s.db, us ++ [⟨run.maxBatch, [], run.queries s.db⟩]⟩ := by
    rw [ImportTick.underWay]
    cases hsource : run.source with
    | fullNode node => exact ⟨[], rfl⟩
    | solidity node =>
        have hqueries : run.queries s.db = (run.blocks s.db).flatMap fun block =>
            solidityBlockQueries block (findByNumber block.number s.db) := by
          rw [ImportTick.queries, ImportTick.blocks, hsource]
          cases run.action s.db with
          | none => rfl
          | some action => rfl
        rw [hqueries]
        exact runFrom_emit us s.db (run.blocks s.db) ⟨run.maxBatch, _, []⟩ rfl
  have hmax : 0 < run.maxBatch := by
    rw [ImportTick.maxBatch]
    cases run.source with
    | fullNode node => exact Nat.succ_pos 999
    | solidity node => exact Nat.succ_pos 499
  have hsize : ∀ batch ∈ run.batches s.db, batch.1 ≠ [] ∧ batch.1.length ≤ run.maxBatch :=
    fun batch hbatch =>
      ⟨importBatches_ne_nil batch hbatch, importBatches_length_le hmax batch hbatch⟩
  rcases hemit with ⟨emitted, hemitted⟩
  rcases runFrom_batches us (run.batches s.db) s.db ⟨run.maxBatch, [], run.queries s.db⟩
    (run.batches_flatten s.db).symm hsize with ⟨written, hwritten⟩
  cases h
  refine ⟨.start run.toImportTick :: (emitted ++ written), ?_⟩
  rw [Lib.runFrom, hstart, Option.bind_some, Lib.runFrom_append, hemitted, Option.bind_some,
    hwritten]

/-- So is a history. -/
theorem history_runFrom {s t : History} {runs : List ImportRun}
    (h : Lib.runFrom historyStep s runs = some t) :
    ∃ events, Lib.runFrom importersStep ⟨s.db, us⟩ events =
      some ⟨t.db, us ++ runs.map fun run => ⟨run.maxBatch, [], []⟩⟩ := by
  induction runs generalizing s us with
  | nil =>
      cases h
      exact ⟨[], by rw [List.map_nil, List.append_nil]; rfl⟩
  | cons run runs ih =>
      rcases Option.bind_eq_some_iff.mp h with ⟨u, hu, h⟩
      rcases historyStep_runFrom us hu with ⟨events, hevents⟩
      rcases ih (us ++ [⟨run.maxBatch, [], []⟩]) h with ⟨events', hevents'⟩
      refine ⟨events ++ events', ?_⟩
      rw [Lib.runFrom_append, hevents, Option.bind_some, hevents', List.append_assoc]
      rfl

end Alone

end Tronscan
