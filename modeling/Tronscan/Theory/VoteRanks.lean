import Tronscan.Vote.Snapshots

/-!
# Changes of Rank

A change of rank is meant to say that a candidate has overtaken others, or was
overtaken. A candidate who was not there before has no change.

But that candidate still counts in the ranks of those who have more votes, and
all of these go up by one. What is reported of a candidate who has kept its place
among those there were and are is how many with fewer votes are new, less how many
with fewer votes are gone. The current ranks are among all witnesses and the
earlier ones among those with votes, so there are new ones whenever a witness has
none.

## Main definitions

* `SameOrder`: The candidates of both maps are in the same order in both.
* `onlyBelow`, `bothBelow`: How many with fewer votes are in one of the maps only,
  and in both.
* `Unchanged`: No change is reported of those in both.

## Theorems

* `change_eq`: A change is those who entered below less those who left.
* `unchanged_iff`: When no change is reported.
* `not_unchanged_newcomer`: A newcomer without votes.
-/

namespace Tronscan

open VoteList

/-- Two candidates who are in both maps are in the same order in both. -/
def SameOrder (current previous : List (String × Int)) : Prop :=
  ∀ a ∈ current, ∀ b ∈ current, ∀ a' ∈ previous, ∀ b' ∈ previous, a.1 = a'.1 → b.1 = b'.1 →
    (a.2 < b.2 ↔ a'.2 < b'.2)

/-- How many with fewer votes are in the one map and not in the other. -/
def onlyBelow (votes : Int) (here there : List (String × Int)) : Nat :=
  here.countP fun x => decide (x.2 < votes) && decide (x.1 ∉ there.map (·.1))

/-- How many with fewer votes are in both. -/
def bothBelow (votes : Int) (here there : List (String × Int)) : Nat :=
  here.countP fun x => decide (x.2 < votes) && decide (x.1 ∈ there.map (·.1))

/-- No change is reported of a candidate who is in both maps. -/
def Unchanged [Platform] (current previous : List (String × Int)) : Prop :=
  ∀ address ∈ current.map (·.1), address ∈ previous.map (·.1) →
    change current previous address = some 0

theorem countP_below (votes : Int) (here there : List (String × Int)) :
    here.countP (fun x => decide (x.2 < votes)) =
      bothBelow votes here there + onlyBelow votes here there := by
  rw [List.countP_eq_countP_filter_add here _ fun x => decide (x.1 ∈ there.map (·.1)),
    List.countP_filter, List.countP_filter]
  simp only [bothBelow, onlyBelow, decide_not]

/-- As many of those in both maps are below a candidate in either. -/
theorem bothBelow_eq {current previous : List (String × Int)}
    (hcurrent : (current.map (·.1)).Nodup) (hprevious : (previous.map (·.1)).Nodup)
    (horder : SameOrder current previous) {address : String} {v w : Int}
    (hv : (address, v) ∈ current) (hw : (address, w) ∈ previous) :
    bothBelow v current previous = bothBelow w previous current := by
  have haddresses : ∀ (votes : Int) (here there : List (String × Int)), (here.map (·.1)).Nodup →
      ((here.filter fun x => decide (x.2 < votes) && decide (x.1 ∈ there.map (·.1))).map
        (·.1)).Nodup := fun _ _ _ h => h.sublist ((List.filter_sublist).map _)
  -- The same addresses are counted on either side.
  have hmem : ∀ a, (∃ n, (a, n) ∈ current ∧ n < v ∧ a ∈ previous.map (·.1)) ↔
      ∃ n, (a, n) ∈ previous ∧ n < w ∧ a ∈ current.map (·.1) := by
    intro a
    constructor
    · rintro ⟨n, hn, hlt, hboth⟩
      rcases List.mem_map.mp hboth with ⟨⟨_, m⟩, hm, rfl⟩
      exact ⟨m, hm, (horder _ hn _ hv _ hm _ hw rfl rfl).mp hlt, List.mem_map_of_mem (f := (·.1)) hn⟩
    · rintro ⟨m, hm, hlt, hboth⟩
      rcases List.mem_map.mp hboth with ⟨⟨_, n⟩, hn, rfl⟩
      exact ⟨n, hn, (horder _ hn _ hv _ hm _ hw rfl rfl).mpr hlt, List.mem_map_of_mem (f := (·.1)) hm⟩
  have hlength := ((List.perm_ext_iff_of_nodup (haddresses v current previous hcurrent)
    (haddresses w previous current hprevious)).mpr fun a => by
      simpa [List.mem_map, List.mem_filter, and_assoc] using hmem a).length_eq
  rw [List.length_map, List.length_map] at hlength
  unfold bothBelow
  rw [List.countP_eq_length_filter, List.countP_eq_length_filter, hlength]

section Ranks

variable [Platform] {current previous : List (String × Int)}

/-- What is reported of a candidate who has kept its place among those in both maps. -/
theorem change_eq (hcurrent : (current.map (·.1)).Nodup) (hvotes : (current.map (·.2)).Nodup)
    (hprevious : (previous.map (·.1)).Nodup) (hvotes' : (previous.map (·.2)).Nodup)
    (horder : SameOrder current previous) {address : String} {v w : Int}
    (hv : (address, v) ∈ current) (hw : (address, w) ∈ previous) :
    change current previous address =
      some ((onlyBelow v current previous : Int) - onlyBelow w previous current) := by
  have hrank : (buildRank current).lookup address =
      some (current.countP fun x => decide (x.2 < v) : Int) :=
    (Request.lookup_eq_some (nodup_toMap _)).mpr ((mem_buildRank hcurrent hvotes).mpr ⟨v, hv, rfl⟩)
  have hrank' : (buildRank previous).lookup address =
      some (previous.countP fun x => decide (x.2 < w) : Int) :=
    (Request.lookup_eq_some (nodup_toMap _)).mpr ((mem_buildRank hprevious hvotes').mpr ⟨w, hw, rfl⟩)
  -- Those in both maps are below in either rank, and what is left is the change.
  unfold change
  rw [hrank, hrank', countP_below v current previous, countP_below w previous current,
    bothBelow_eq hcurrent hprevious horder hv hw]
  simp only [getChange, Option.bind_eq_bind, Option.bind_some, Option.pure_def, Option.some.injEq]
  omega

/-- No change is reported exactly when for each candidate in both maps as many with
    fewer votes are new as are gone. -/
theorem unchanged_iff (current previous : List (String × Int))
    (hcurrent : (current.map (·.1)).Nodup) (hvotes : (current.map (·.2)).Nodup)
    (hprevious : (previous.map (·.1)).Nodup) (hvotes' : (previous.map (·.2)).Nodup)
    (horder : SameOrder current previous) :
    Unchanged current previous ↔ ∀ a ∈ current, ∀ a' ∈ previous, a.1 = a'.1 →
      onlyBelow a.2 current previous = onlyBelow a'.2 previous current := by
  constructor
  · rintro h ⟨address, v⟩ hv ⟨_, w⟩ hw rfl
    have hchange := h _ (List.mem_map_of_mem (f := (·.1)) hv) (List.mem_map_of_mem (f := (·.1)) hw)
    rw [change_eq hcurrent hvotes hprevious hvotes' horder hv hw] at hchange
    exact Int.ofNat_inj.mp (Int.sub_eq_zero.mp (Option.some.inj hchange))
  · intro h address haddress haddress'
    rcases List.mem_map.mp haddress with ⟨⟨_, v⟩, hv, rfl⟩
    rcases List.mem_map.mp haddress' with ⟨⟨_, w⟩, hw, rfl⟩
    rw [change_eq hcurrent hvotes hprevious hvotes' horder hv hw, h _ hv _ hw rfl,
      Int.sub_self]

end Ranks

instance (current previous : List (String × Int)) : Decidable (SameOrder current previous) :=
  inferInstanceAs (Decidable (∀ a ∈ current, ∀ b ∈ current, ∀ a' ∈ previous, ∀ b' ∈ previous,
    a.1 = a'.1 → b.1 = b'.1 → (a.2 < b.2 ↔ a'.2 < b'.2)))

/-- One candidate has gone and another has come, both of them below the two who stay. -/
def votesGone : List (String × Int) := [("d", 1), ("a", 2), ("b", 4)]

/-- The votes with a newcomer. -/
def votesCome : List (String × Int) := [("a", 5), ("b", 9), ("c", 3)]

theorem unchanged_iff_balanced :
    (votesCome.map (·.1)).Nodup ∧ (votesCome.map (·.2)).Nodup ∧
    (votesGone.map (·.1)).Nodup ∧ (votesGone.map (·.2)).Nodup ∧
    SameOrder votesCome votesGone ∧ @Unchanged examplePlatform votesCome votesGone := by
  have hkeys : (votesCome.map (·.1)).Nodup := by decide
  have hvotes : (votesCome.map (·.2)).Nodup := by decide
  have horder : SameOrder votesCome votesGone := by decide
  refine ⟨hkeys, hvotes, by decide, by decide, horder, ?_⟩
  rw [@unchanged_iff examplePlatform votesCome votesGone hkeys hvotes (by decide) (by decide) horder]
  decide

/-- Two candidates, and a witness no one has voted for. -/
def votesBefore : List (String × Int) := [("a", 1), ("b", 2)]

/-- The votes when the candidates have changed places. -/
def votesNow : List (String × Int) := [("a", 1), ("b", 2), ("c", 0)]

/-- Both candidates go up by one when a witness comes in below them. -/
theorem not_unchanged_newcomer :
    (votesNow.map (·.1)).Nodup ∧ (votesNow.map (·.2)).Nodup ∧
    (votesBefore.map (·.1)).Nodup ∧ (votesBefore.map (·.2)).Nodup ∧
    SameOrder votesNow votesBefore ∧ ¬ @Unchanged examplePlatform votesNow votesBefore := by
  have hkeys : (votesNow.map (·.1)).Nodup := by decide
  have hvotes : (votesNow.map (·.2)).Nodup := by decide
  have horder : SameOrder votesNow votesBefore := by decide
  refine ⟨hkeys, hvotes, by decide, by decide, horder, ?_⟩
  rw [@unchanged_iff examplePlatform votesNow votesBefore hkeys hvotes (by decide) (by decide) horder]
  decide

end Tronscan
