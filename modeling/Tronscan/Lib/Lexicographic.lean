import Mathlib.Data.List.Sort
import Mathlib.Data.List.Pairwise

/-!
# Sorting by Several Keys

A stable sort by one key after another. Each sort makes its key the first one and
leaves the earlier ones to break ties, so the last sort counts most, and the rows
end up in the lexicographic order of the keys read backwards.

Two rows are told apart by some of the keys. Read forwards the first of these
decides, and read backwards the last. So sorting by the keys in the order they
are read is right for a set of rows exactly when these two always agree.

## Main definitions

* `Key`: A total preorder, ascending or reversed.
* `sortByKey`, `sortByKeys`: A stable sort, and one after another.
* `Key.Differs`, `lexLe`: Keys that tell rows apart, and the order of the first.

## Theorems

* `sortByKey_pairwise`: A sort keeps the order of what it does not tell apart.
* `sortByKeys_pairwise`: Sorts by several keys give their order read backwards.
* `sortByKeys_lexicographic_iff`: When it is their order read forwards as well.
-/

namespace Lib

variable {α β : Type*}

/-- A way to compare rows: any two can be compared, some may be equal. -/
structure Key (α : Type*) where
  le : α → α → Bool
  total : ∀ a b, le a b = true ∨ le b a = true
  trans : ∀ a b c, le a b = true → le b c = true → le a c = true

namespace Key

/-- The numbers of a row, in their order. -/
def ofInt (column : α → Int) : Key α where
  le a b := decide (column a ≤ column b)
  total a b := by
    simp only [decide_eq_true_eq]
    omega
  trans a b c := by
    simp only [decide_eq_true_eq]
    omega

/-- A key of what is read off a row. -/
def comap (key : Key β) (column : α → β) : Key α where
  le a b := key.le (column a) (column b)
  total a b := key.total (column a) (column b)
  trans a b c := key.trans (column a) (column b) (column c)

/-- The descending order. -/
def reverse (key : Key α) : Key α where
  le a b := key.le b a
  total a b := key.total b a
  trans a b c hab hbc := key.trans c b a hbc hab

/-- Two rows are told apart by a key. -/
def Differs (a b : α) (key : Key α) : Bool := key.le a b != key.le b a

theorem differs_comm (key : Key α) (a b : α) : key.Differs a b = key.Differs b a := by
  unfold Differs
  cases key.le a b <;> cases key.le b a <;> rfl

/-- A key that tells rows apart puts one of them first, and only that one. -/
theorem le_iff_of_differs {key : Key α} {a b : α} (h : key.Differs a b = true) :
    key.le b a = !key.le a b := by
  unfold Differs at h
  cases hab : key.le a b <;> cases hba : key.le b a <;> simp_all

end Key

/-- A stable sort: equal rows stay in order. -/
def sortByKey (key : Key α) (rows : List α) : List α :=
  rows.insertionSort fun a b => key.le a b = true

/-- One sort after another. -/
def sortByKeys (keys : List (Key α)) (rows : List α) : List α :=
  keys.foldl (fun rows key => sortByKey key rows) rows

/-- The order of the first key that tells two rows apart. -/
def lexLe (keys : List (Key α)) (a b : α) : Bool :=
  match keys.find? (·.Differs a b) with
  | some key => key.le a b
  | none => true

theorem lexLe_cons (key : Key α) (keys : List (Key α)) (a b : α) :
    lexLe (key :: keys) a b = true ↔
      key.le a b = true ∧ (key.le b a = true → lexLe keys a b = true) := by
  unfold lexLe
  rw [List.find?_cons]
  by_cases hdiffers : key.Differs a b = true
  · rw [hdiffers, Key.le_iff_of_differs hdiffers]
    cases hle : key.le a b <;> simp [hle]
  · rw [Bool.not_eq_true] at hdiffers
    have hsame : key.le a b = key.le b a := by
      simpa [Key.Differs] using hdiffers
    have hle : key.le a b = true := by
      rcases key.total a b with h | h
      · exact h
      · rw [hsame, h]
    rw [hdiffers, ← hsame, hle]
    simp

theorem lexLe_of_find {keys : List (Key α)} {a b : α} {key : Key α}
    (h : keys.find? (·.Differs a b) = some key) : lexLe keys a b = key.le a b := by
  unfold lexLe
  rw [h]

theorem find_differs_comm (keys : List (Key α)) (a b : α) :
    keys.find? (·.Differs a b) = keys.find? (·.Differs b a) := by
  simp only [Key.differs_comm _ a b]

theorem perm_sortByKey (key : Key α) (rows : List α) : (sortByKey key rows).Perm rows :=
  List.perm_insertionSort _ rows

theorem perm_sortByKeys (keys : List (Key α)) (rows : List α) :
    (sortByKeys keys rows).Perm rows := by
  induction keys generalizing rows with
  | nil => exact List.Perm.refl _
  | cons key keys ih => exact (ih (sortByKey key rows)).trans (perm_sortByKey key rows)

/-- Inserting a row in front of the first that does not come before it. -/
theorem orderedInsert_pairwise {key : Key α} {R : α → α → Prop} {a : α} {rows : List α}
    (ha : ∀ b ∈ rows, R a b)
    (hrows : rows.Pairwise fun a b => key.le a b = true ∧ (key.le b a = true → R a b)) :
    (rows.orderedInsert (fun a b => key.le a b = true) a).Pairwise
      fun a b => key.le a b = true ∧ (key.le b a = true → R a b) := by
  induction rows with
  | nil => exact List.pairwise_singleton _ _
  | cons b rows ih =>
      rw [List.pairwise_cons] at hrows
      rw [List.orderedInsert_cons]
      by_cases hab : key.le a b = true
      · rw [if_pos hab, List.pairwise_cons, List.pairwise_cons]
        refine ⟨fun c hc => ⟨?_, fun _ => ha c hc⟩, hrows⟩
        rcases List.mem_cons.mp hc with rfl | hc
        · exact hab
        · exact key.trans a b c hab (hrows.1 c hc).1
      · rw [if_neg hab, List.pairwise_cons]
        refine ⟨fun c hc => ?_, ih (fun c hc => ha c (List.mem_cons_of_mem b hc)) hrows.2⟩
        rcases (List.mem_orderedInsert _).mp hc with rfl | hc
        · exact ⟨(key.total c b).resolve_left hab, fun h => absurd h hab⟩
        · exact hrows.1 c hc

/-- A sort keeps the order of the rows it does not tell apart. -/
theorem sortByKey_pairwise {key : Key α} {R : α → α → Prop} {rows : List α}
    (hrows : rows.Pairwise R) :
    (sortByKey key rows).Pairwise fun a b => key.le a b = true ∧ (key.le b a = true → R a b) := by
  induction rows with
  | nil => exact List.Pairwise.nil
  | cons a rows ih =>
      rw [List.pairwise_cons] at hrows
      refine orderedInsert_pairwise (fun b hb => ?_) (ih hrows.2)
      exact hrows.1 b ((perm_sortByKey key rows).mem_iff.mp hb)

/-- Sorting by one key after another gives the order of the keys read backwards. -/
theorem sortByKeys_pairwise {keys done : List (Key α)} {rows : List α}
    (hrows : rows.Pairwise fun a b => lexLe done a b = true) :
    (sortByKeys keys rows).Pairwise fun a b => lexLe (keys.reverse ++ done) a b = true := by
  induction keys generalizing done rows with
  | nil => exact hrows
  | cons key keys ih =>
      rw [List.reverse_cons, List.append_assoc, List.singleton_append]
      have hsorted : (sortByKey key rows).Pairwise fun a b => key.le a b = true ∧
          (key.le b a = true → lexLe done a b = true) := sortByKey_pairwise hrows
      exact ih (hsorted.imp fun h => (lexLe_cons key done _ _).mpr h)

/-- Of two elements of a list, one comes first. -/
theorem or_of_pairwise {R : α → α → Prop} {rows : List α} (h : rows.Pairwise R) {a b : α}
    (ha : a ∈ rows) (hb : b ∈ rows) (hne : a ≠ b) : R a b ∨ R b a := by
  have hsymm : Std.Symm fun a b => R a b ∨ R b a := ⟨fun _ _ h => h.symm⟩
  have hor : rows.Pairwise fun a b => R a b ∨ R b a := h.imp Or.inl
  exact hor.forall ha hb hne

/-- Rows are in the order of the keys read forwards exactly when the first and the
    last of the keys that tell two of them apart agree on which comes first. -/
theorem sortByKeys_lexicographic_iff (keys : List (Key α)) (rows : List α) :
    (sortByKeys keys rows).Pairwise (fun a b => lexLe keys a b = true) ↔
      ∀ a ∈ rows, ∀ b ∈ rows, ∀ first ∈ keys.find? (·.Differs a b),
        ∀ last ∈ keys.reverse.find? (·.Differs a b), first.le a b = last.le a b := by
  have hback : (sortByKeys keys rows).Pairwise fun a b => lexLe keys.reverse a b = true := by
    have hdone : rows.Pairwise fun a b => lexLe ([] : List (Key α)) a b = true :=
      List.pairwise_of_forall fun _ _ => rfl
    have h : (sortByKeys keys rows).Pairwise fun a b => lexLe (keys.reverse ++ []) a b = true :=
      sortByKeys_pairwise hdone
    rwa [List.append_nil] at h
  have hperm := perm_sortByKeys keys rows
  constructor
  · intro hforth a ha b hb first hfirst last hlast
    have hne : a ≠ b := by
      rintro rfl
      have hdiffers := List.find?_some hfirst
      simp [Key.Differs] at hdiffers
    -- One of the two comes first, and both keys say so.
    rcases or_of_pairwise (hforth.and hback) (hperm.mem_iff.mpr ha) (hperm.mem_iff.mpr hb) hne with
      ⟨hf, hl⟩ | ⟨hf, hl⟩
    · rw [lexLe_of_find hfirst] at hf
      rw [lexLe_of_find hlast] at hl
      rw [hf, hl]
    · rw [lexLe_of_find (find_differs_comm keys b a ▸ hfirst),
        Key.le_iff_of_differs (List.find?_some hfirst), Bool.not_eq_true'] at hf
      rw [lexLe_of_find (find_differs_comm keys.reverse b a ▸ hlast),
        Key.le_iff_of_differs (List.find?_some hlast), Bool.not_eq_true'] at hl
      rw [hf, hl]
  · intro h
    refine List.Pairwise.imp_of_mem (fun {a b} ha hb hab => ?_) hback
    rcases hfirst : keys.find? (·.Differs a b) with _ | first
    · unfold lexLe
      rw [hfirst]
    · -- A key that tells the rows apart is found from the other end as well.
      rcases hlast : keys.reverse.find? (·.Differs a b) with _ | last
      · have hnone := List.find?_eq_none.mp hlast first
          (List.mem_reverse.mpr (List.mem_of_find?_eq_some hfirst))
        exact absurd (List.find?_some hfirst) hnone
      · rw [lexLe_of_find hfirst, h a (hperm.mem_iff.mp ha) b (hperm.mem_iff.mp hb) first hfirst
          last hlast, ← lexLe_of_find hlast]
        exact hab

end Lib
