import Mathlib.Data.Finset.Card
import Mathlib.Data.Finset.Image
import Mathlib.Data.Finset.Range
import Mathlib.Data.Nat.Find
import Mathlib.Tactic.ByContra
import Mockup.Proofs.Text.FreshName

/-!
# The search for a free name

A free name is found by trying the base of the name and then the base with the numbers from two on.
The search goes on for as long as the name that is tried is taken; no counter bounds it. It ends
because the names that are tried differ and only finitely many are taken.

* `Names` — a finite set of names.
* `taken.search base name next failures` — the rest of the search, at a name.
* `taken.acquire base` — the whole search. The name that it finds is taken from then on.
* `candidate base n` — the name that is tried after `n` failures.

## Main results

* `exists_first_candidate`: some name that is tried is free, after at most as many failures as there
  are taken names.
* `Names.acquire_eq_some`: the search ends at the first name that is free.
* `Names.name_acquire_eq_freshName`: this is the name that `freshName` chooses.
-/

namespace Mockup.Text

/-- A finite set of names. -/
abbrev Names := Finset String

/-- How a search ends. -/
structure Acquired where
  /-- The name that was found. -/
  name : String
  /-- The names that are taken from then on. -/
  taken : Names
  /-- How many of the names that were tried were taken. -/
  failures : Nat
  /-- The number that would have been tried next. -/
  next : Nat

/-- The rest of a search at a name. After a name that is taken, the base with the next number is
tried. -/
def Names.search (taken : Names) (base name : String) (next failures : Nat) : Option Acquired :=
  if name ∈ taken then taken |>.search base (base ++ toString next) (next + 1) (failures + 1)
  else some { name, taken := insert name taken, failures, next }
partial_fixpoint

/-- The search for a free name. A search that did not end would be `none`. -/
def Names.acquire (taken : Names) (base : String) : Option Acquired :=
  taken.search base base 2 0

/-- The name that is tried after a number of failures. -/
def candidate (base : String) : Nat → String
  | 0 => base
  | n + 1 => base ++ toString (n + 2)

variable {taken : Names} {base : String}

/-! ### The names that are tried -/

/-- The names that are tried differ. -/
theorem candidate_injective (base : String) : Function.Injective (candidate base)
  | 0, 0, _ => rfl
  | 0, n + 1, h => absurd h.symm (numbered_ne base n)
  | n + 1, 0, h => absurd h (numbered_ne base n)
  | _ + 1, _ + 1, h => congrArg (· + 1) (numbered_injective base h)

theorem candidate_eq (base : String) (n : Nat) :
    candidate base n = base ∨ ∃ m, 2 ≤ m ∧ candidate base n = base ++ toString m := by
  cases n with
  | zero => exact .inl rfl
  | succ n => exact .inr ⟨n + 2, Nat.le_add_left 2 n, rfl⟩

theorem candidates_eq_map (base : String) (count : Nat) :
    candidates base count = (List.range (count + 1)).map (candidate base) := by
  rw [candidates, List.range_succ_eq_map, List.map_cons, List.map_map]
  rfl

/-- As many names as are tried in vain are taken. -/
theorem le_card_of_taken {n : Nat} (h : ∀ m < n, candidate base m ∈ taken) : n ≤ taken.card := by
  have hsub : (Finset.range n).image (candidate base) ⊆ taken := by
    intro name hname
    obtain ⟨m, hm, rfl⟩ := Finset.mem_image.1 hname
    exact h m (Finset.mem_range.1 hm)
  calc n = ((Finset.range n).image (candidate base)).card := by
        rw [Finset.card_image_of_injective _ (candidate_injective base), Finset.card_range]
    _ ≤ taken.card := Finset.card_le_card hsub

/-- One of the names that are tried is the first free one, after at most as many failures as there
are taken names. -/
theorem exists_first_candidate (taken : Names) (base : String) :
    ∃ n ≤ taken.card, (∀ m < n, candidate base m ∈ taken) ∧ candidate base n ∉ taken := by
  have hfree : ∃ n, candidate base n ∉ taken := by
    -- Otherwise one name more would be taken than there are taken names.
    by_contra hall
    simp only [not_exists, not_not] at hall
    exact Nat.not_succ_le_self _ (le_card_of_taken fun m (_ : m < taken.card + 1) => hall m)
  have hbefore : ∀ m < Nat.find hfree, candidate base m ∈ taken := fun m hm =>
    not_not.1 (Nat.find_min hfree hm)
  exact ⟨Nat.find hfree, le_card_of_taken hbefore, hbefore, Nat.find_spec hfree⟩

/-! ### The search -/

theorem Names.search_of_mem {name : String} (h : name ∈ taken) (next failures : Nat) :
    taken.search base name next failures =
      taken.search base (base ++ toString next) (next + 1) (failures + 1) := by
  rw [search, if_pos h]

theorem Names.search_of_notMem {name : String} (h : name ∉ taken) (next failures : Nat) :
    taken.search base name next failures = some ⟨name, insert name taken, failures, next⟩ := by
  rw [search, if_neg h]

/-- From each name up to the first free one, the search ends there. -/
theorem Names.search_eq_some {m n : Nat} (hmn : m ≤ n) (hbefore : ∀ k < n, candidate base k ∈ taken)
    (hfree : candidate base n ∉ taken) :
    taken.search base (candidate base m) (m + 2) m =
      some ⟨candidate base n, insert (candidate base n) taken, n, n + 2⟩ := by
  -- The induction goes down from the free name: each name before it is taken, so one step of the
  -- search leads to the next one.
  induction hmn using Nat.decreasingInduction with
  | self => exact search_of_notMem hfree _ _
  | of_succ m hm ih =>
    rw [search_of_mem (hbefore m hm)]
    exact ih

/-- The search ends at the first free name. -/
theorem Names.acquire_eq_some {n : Nat} (hbefore : ∀ k < n, candidate base k ∈ taken)
    (hfree : candidate base n ∉ taken) :
    taken.acquire base = some ⟨candidate base n, insert (candidate base n) taken, n, n + 2⟩ :=
  search_eq_some (Nat.zero_le n) hbefore hfree

/-- The search finds the name that is chosen among as many candidates as are needed. -/
theorem Names.name_acquire_eq_freshName (taken : List String) (base : String) :
    (Names.acquire taken.toFinset base).map Acquired.name = some (freshName taken base) := by
  obtain ⟨n, hn, hbefore, hfree⟩ := exists_first_candidate taken.toFinset base
  have hlength : n < taken.length + 1 :=
    Nat.lt_succ_of_le (hn.trans taken.toFinset_card_le)
  have hfirst : (List.range (taken.length + 1)).find?
      (fun m => !taken.contains (candidate base m)) = some n := by
    rw [List.find?_range_eq_some]
    refine ⟨by simpa using hfree, List.mem_range.2 hlength, fun m hm => ?_⟩
    simpa using hbefore m hm
  rw [acquire_eq_some hbefore hfree, Option.map_some, freshName, candidates_eq_map, List.find?_map]
  exact congrArg some (by rw [Function.comp_def, hfirst, Option.map_some, Option.getD_some])

end Mockup.Text
