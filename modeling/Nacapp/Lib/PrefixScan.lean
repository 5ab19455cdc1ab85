import Mathlib.Data.List.Infix
import Std.Data.ExtTreeMap.Lemmas

/-!
# Scanning sorted words for a prefix

A list of words over an ordered alphabet, in increasing order of `compare`, is searched
from the front for a word that another word starts with.  A word is less than its
extensions, so the search ends at the shortest of the words that fit.

* `isLE_compare_of_prefix`: a word comes before its extensions.
* `firstPrefix_eq_some_iff`: the word found is the shortest one that fits.
* `firstPrefix_eq_some_longest_iff`: it is also the longest one exactly when nothing else
  fits.
-/

namespace PrefixScan

variable {α : Type*}

/-! ## Prefixes in the order of words -/

section Order

variable [Ord α] [Std.TransOrd α]

/-- A word comes before its extensions. -/
theorem isLE_compare_of_prefix {v w : List α} (h : v <+: w) : (compare v w).isLE := by
  obtain ⟨t, rfl⟩ := h
  induction v with
  | nil => cases t <;> rfl
  | cons a v ih =>
    rw [List.cons_append, List.compare_cons_cons, Std.ReflOrd.compare_self]
    exact ih

/-- A word that comes after another is not a prefix of it. -/
theorem not_prefix_of_compare_eq_lt {v w : List α} (h : compare v w = .lt) : ¬ w <+: v := by
  intro hwv
  have hle := isLE_compare_of_prefix hwv
  rw [Std.OrientedCmp.gt_of_lt h] at hle
  exact absurd hle (by decide)

end Order

/-! ## The scan -/

variable [DecidableEq α]

/-- The first of the words that is a prefix of `w`. -/
def firstPrefix (words : List (List α)) (w : List α) : Option (List α) :=
  words.find? fun v => v.isPrefixOf w

variable {words : List (List α)} {w v : List α}

theorem firstPrefix_eq_none_iff : firstPrefix words w = none ↔ ∀ v ∈ words, ¬ v <+: w := by
  rw [firstPrefix, List.find?_eq_none]
  simp only [List.isPrefixOf_iff_prefix]

theorem mem_of_firstPrefix_eq_some (h : firstPrefix words w = some v) : v ∈ words ∧ v <+: w := by
  rw [firstPrefix] at h
  have hfits := List.find?_some h
  exact ⟨List.mem_of_find?_eq_some h, List.isPrefixOf_iff_prefix.mp hfits⟩

section Sorted

variable [Ord α] [Std.TransOrd α] (hsorted : words.Pairwise fun u v => compare u v = .lt)
include hsorted

/-- Whatever else fits extends the word that is found. -/
theorem prefix_of_firstPrefix_eq_some (h : firstPrefix words w = some v) {u : List α}
    (hu : u ∈ words) (huw : u <+: w) : v <+: u := by
  have hvw := (mem_of_firstPrefix_eq_some h).2
  obtain ⟨-, before, after, rfl, hbefore⟩ := List.find?_eq_some_iff_append.mp h
  rcases List.mem_append.mp hu with hin | hin
  · have hnot := hbefore u hin
    rw [List.isPrefixOf_iff_prefix.mpr huw] at hnot
    exact absurd hnot (by decide)
  rcases List.mem_cons.mp hin with rfl | hin
  · exact List.prefix_rfl
  · have hlt := (List.pairwise_cons.mp (List.pairwise_append.mp hsorted).2.1).1 u hin
    exact (List.prefix_or_prefix_of_prefix hvw huw).resolve_right
      (not_prefix_of_compare_eq_lt hlt)

/-- **The scan finds the shortest word that fits.** -/
theorem firstPrefix_eq_some_iff :
    firstPrefix words w = some v ↔ v ∈ words ∧ v <+: w ∧ ∀ u ∈ words, u <+: w → v <+: u := by
  constructor
  · intro h
    obtain ⟨hv, hvw⟩ := mem_of_firstPrefix_eq_some h
    exact ⟨hv, hvw, fun u hu huw => prefix_of_firstPrefix_eq_some hsorted h hu huw⟩
  · rintro ⟨hv, hvw, hshortest⟩
    cases h : firstPrefix words w with
    | none => exact absurd hvw (firstPrefix_eq_none_iff.mp h v hv)
    | some u =>
      obtain ⟨hu, huw⟩ := mem_of_firstPrefix_eq_some h
      have huv := prefix_of_firstPrefix_eq_some hsorted h hv hvw
      have hvu := hshortest u hu huw
      rw [huv.eq_of_length (le_antisymm huv.length_le hvu.length_le)]

/-- The word found is the longest one that fits exactly when it is the only one. -/
theorem firstPrefix_eq_some_longest_iff (h : firstPrefix words w = some v) :
    (∀ u ∈ words, u <+: w → u <+: v) ↔ ∀ u ∈ words, u <+: w → u = v := by
  constructor
  · intro hlongest u hu huw
    have huv := hlongest u hu huw
    have hvu := prefix_of_firstPrefix_eq_some hsorted h hu huw
    exact huv.eq_of_length (le_antisymm huv.length_le hvu.length_le)
  · intro honly u hu huw
    exact honly u hu huw ▸ List.prefix_rfl

end Sorted

end PrefixScan
