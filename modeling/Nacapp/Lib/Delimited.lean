import Mathlib.Data.List.Basic
import Mathlib.Data.List.Count
import Mathlib.Data.List.TakeWhile

/-!
# Splitting at a delimiter, the way a line reader does

`split d s` is the list of items that repeated reading up to `d` yields: the loop
`while (std::getline(stream, item, d))`.  Reading stops at the end of the input
when it has read nothing since the last delimiter, so a trailing delimiter opens no
item and the empty input has none; every other empty item is kept.

* `split_eq_getline`: the recursion is that loop, one read at a time.
* `split_append_delim`, `split_of_notMem`: the first item, and the last one.
* `split_join`: splitting undoes joining, when the last item is not empty.
* `join_split`: joining undoes splitting, but for a delimiter at the end.
* `exists_eq_of_split_eq_cons_cons`: where the first of several items ends in the string.
* `notMem_of_mem_split`: no item contains the delimiter.
* `mem_of_mem_split`: an item contains nothing the string does not.
-/

namespace Delimited

variable {α : Type*} [DecidableEq α] {d : α}

/-! ## Definitions -/

/-- One read: the characters before the first delimiter, and what is left after it.
A read at the end of the input fails. -/
def getline (d : α) (s : List α) : Option (List α × List α) :=
  if s = [] then none else some (s.takeWhile (· ≠ d), (s.dropWhile (· ≠ d)).tail)

/-- The items of `s` between delimiters. -/
def split (d : α) : List α → List (List α)
  | [] => []
  | c :: s =>
    if c = d then [] :: split d s
    else match split d s with
      | [] => [[c]]
      -- a delimiter next closes the item of `c` alone: its empty item is the head here
      | item :: items => (c :: item) :: items

/-- The items one after another, a delimiter before each but the first. -/
def join (d : α) : List (List α) → List α
  | [] => []
  | [item] => item
  | item :: next :: items => item ++ d :: join d (next :: items)

/-- The string without a delimiter at its end. -/
def dropTrailing (d : α) (s : List α) : List α := if s.getLast? = some d then s.dropLast else s

/-! ## One read at a time -/

@[simp] theorem split_nil : split d ([] : List α) = [] := rfl

theorem split_cons_delim (s : List α) : split d (d :: s) = [] :: split d s := by
  rw [split, if_pos rfl]

/-- The first item runs to the first delimiter. -/
theorem split_append_delim {a : List α} (ha : d ∉ a) (s : List α) :
    split d (a ++ d :: s) = a :: split d s := by
  induction a with
  | nil => exact split_cons_delim s
  | cons c a ih =>
    have hc : c ≠ d := fun h => ha (h ▸ List.mem_cons_self)
    rw [List.cons_append, split, if_neg hc, ih fun h => ha (List.mem_cons_of_mem _ h)]

/-- One read up to the first delimiter. -/
theorem getline_append_delim {a : List α} (ha : d ∉ a) (s : List α) :
    getline d (a ++ d :: s) = some (a, s) := by
  have hpass : ∀ c ∈ a, (decide (c ≠ d)) = true := by
    intro c hc
    exact decide_eq_true fun h => ha (h ▸ hc)
  rw [getline, if_neg (by simp), List.takeWhile_append_of_pos hpass,
    List.dropWhile_append_of_pos hpass]
  simp

/-- A read leaves less behind. -/
theorem length_lt_of_getline {s item rest : List α} (h : getline d s = some (item, rest)) :
    rest.length < s.length := by
  rw [getline] at h
  split at h
  · exact absurd h (by simp)
  · rename_i hne
    obtain ⟨-, rfl⟩ := Prod.mk.inj (Option.some.inj h)
    have hpos := List.length_pos_of_ne_nil hne
    have hle := (List.dropWhile_suffix (l := s) fun c => decide (c ≠ d)).length_le
    rw [List.length_tail]
    omega

/-- Without a delimiter there is one item, unless there is nothing. -/
theorem split_of_notMem {a : List α} (ha : d ∉ a) (hne : a ≠ []) : split d a = [a] := by
  induction a with
  | nil => exact absurd rfl hne
  | cons c a ih =>
    have hc : c ≠ d := fun h => ha (h ▸ List.mem_cons_self)
    rw [split, if_neg hc]
    cases a with
    | nil => rfl
    | cons c' a => rw [ih (fun h => ha (List.mem_cons_of_mem _ h)) (List.cons_ne_nil _ _)]

/-- A piece without a delimiter goes in front of the first item. -/
theorem split_append {a : List α} (ha : d ∉ a) (hne : a ≠ []) (s : List α) :
    split d (a ++ s) = match split d s with
      | [] => [a]
      | item :: items => (a ++ item) :: items := by
  induction a with
  | nil => exact absurd rfl hne
  | cons c a ih =>
    have hc : c ≠ d := fun h => ha (h ▸ List.mem_cons_self)
    rw [List.cons_append, split, if_neg hc]
    cases a with
    | nil =>
      rw [List.nil_append]
      cases split d s <;> rfl
    | cons c' a =>
      rw [ih (fun h => ha (List.mem_cons_of_mem _ h)) (List.cons_ne_nil _ _)]
      cases split d s <;> rfl

/-- **The loop.**  `split` is repeated reading. -/
theorem split_eq_getline (s : List α) :
    split d s = match getline d s with
      | none => []
      | some (item, rest) => item :: split d rest := by
  by_cases hnil : s = []
  · subst hnil
    rfl
  by_cases hd : d ∈ s
  · obtain ⟨a, rest, rfl, ha⟩ := List.eq_append_cons_of_mem hd
    rw [split_append_delim ha, getline_append_delim ha]
  · have hpass : ∀ c ∈ s, (decide (c ≠ d)) = true := by
      intro c hc
      exact decide_eq_true fun h => hd (h ▸ hc)
    rw [getline, if_neg hnil, split_of_notMem hd hnil, List.takeWhile_eq_self_iff.mpr hpass,
      List.dropWhile_eq_nil_iff.mpr hpass]
    rfl

/-- Only the empty string has no items. -/
theorem split_ne_nil {s : List α} (hne : s ≠ []) : split d s ≠ [] := by
  obtain ⟨c, s, rfl⟩ := List.exists_cons_of_ne_nil hne
  rw [split]
  split
  · exact List.cons_ne_nil _ _
  · cases split d s with
    | nil => exact List.cons_ne_nil _ _
    | cons item items => exact List.cons_ne_nil _ _

/-! ## Splitting and joining -/

/-- No item contains the delimiter. -/
theorem notMem_of_mem_split {s : List α} : ∀ item ∈ split d s, d ∉ item := by
  induction s with
  | nil => simp
  | cons c s ih =>
    rw [split]
    split
    · simpa using ih
    · rename_i hc
      cases hs : split d s with
      | nil => simpa using Ne.symm hc
      | cons item items =>
        rw [hs] at ih
        intro x hx
        rcases List.mem_cons.mp hx with rfl | hx
        · exact List.not_mem_cons_of_ne_of_not_mem (Ne.symm hc) (ih item List.mem_cons_self)
        · exact ih x (List.mem_cons_of_mem _ hx)

/-- An item is made of characters of the string. -/
theorem mem_of_mem_split {s item : List α} {c : α} (hitem : item ∈ split d s) (hc : c ∈ item) :
    c ∈ s := by
  induction s generalizing item with
  | nil => exact absurd hitem List.not_mem_nil
  | cons b s ih =>
    rw [split] at hitem
    split at hitem
    · rcases List.mem_cons.mp hitem with rfl | hitem
      · exact absurd hc List.not_mem_nil
      · exact List.mem_cons_of_mem _ (ih hitem hc)
    · cases hs : split d s with
      | nil =>
        rw [hs] at hitem
        rw [List.mem_singleton.mp hitem, List.mem_singleton] at hc
        exact hc ▸ List.mem_cons_self
      | cons first items =>
        rw [hs] at hitem ih
        rcases List.mem_cons.mp hitem with rfl | hitem
        · rcases List.mem_cons.mp hc with rfl | hc
          · exact List.mem_cons_self
          · exact List.mem_cons_of_mem _ (ih List.mem_cons_self hc)
        · exact List.mem_cons_of_mem _ (ih (List.mem_cons_of_mem _ hitem) hc)

/-- A string with one delimiter has none before any delimiter in it. -/
theorem notMem_of_append_cons_eq {a b a' b' : List α}
    (ha : d ∉ a) (hb : d ∉ b) (h : a ++ d :: b = a' ++ d :: b') : d ∉ a' := by
  have hcount := congrArg (List.count d) h
  simp only [List.count_append, List.count_cons_self, List.count_eq_zero_of_not_mem ha,
    List.count_eq_zero_of_not_mem hb] at hcount
  rw [← List.count_eq_zero]
  omega

/-- Cuts of a string at its delimiter of the same number are the same. -/
theorem eq_of_append_cons_eq {a b a' b' : List α} (hcount : a.count d = a'.count d)
    (h : a ++ d :: b = a' ++ d :: b') : a = a' := by
  induction a generalizing a' with
  | nil =>
    rcases a' with _ | ⟨c', a'⟩
    · rfl
    · obtain ⟨rfl, -⟩ := List.cons.inj h
      rw [List.count_nil, List.count_cons_self] at hcount
      omega
  | cons c a ih =>
    rcases a' with _ | ⟨c', a'⟩
    · obtain ⟨rfl, -⟩ := List.cons.inj h
      rw [List.count_nil, List.count_cons_self] at hcount
      omega
    · obtain ⟨rfl, htail⟩ := List.cons.inj h
      rw [List.count_cons, List.count_cons] at hcount
      rw [ih (by omega) htail]

omit [DecidableEq α] in
/-- A delimiter before every item is one before the join. -/
theorem flatMap_cons_eq_cons_join {items : List (List α)} (h : items ≠ []) :
    items.flatMap (fun item => d :: item) = d :: join d items := by
  induction items with
  | nil => exact absurd rfl h
  | cons a items ih =>
    cases items with
    | nil => rw [List.flatMap_cons, List.flatMap_nil, List.append_nil, join]
    | cons b items => rw [List.flatMap_cons, ih (List.cons_ne_nil _ _), join, List.cons_append]

/-- **Splitting undoes joining**, when no item contains the delimiter and the last
one is not empty. -/
theorem split_join {items : List (List α)} (hd : ∀ item ∈ items, d ∉ item)
    (hlast : ∀ item ∈ items.getLast?, item ≠ []) : split d (join d items) = items := by
  induction items with
  | nil => rfl
  | cons a items ih =>
    cases items with
    | nil => exact split_of_notMem (hd a List.mem_cons_self) (hlast a rfl)
    | cons b items =>
      rw [join, split_append_delim (hd a List.mem_cons_self),
        ih (fun x hx => hd x (List.mem_cons_of_mem _ hx)) fun x hx => hlast x hx]

omit [DecidableEq α] in
/-- A character of the first item comes first. -/
theorem join_cons_cons (c : α) (item : List α) (items : List (List α)) :
    join d ((c :: item) :: items) = c :: join d (item :: items) := by
  cases items with
  | nil => rfl
  | cons next items => rw [join, join, List.cons_append]

theorem dropTrailing_cons (c : α) {s : List α} (hne : s ≠ []) :
    dropTrailing d (c :: s) = c :: dropTrailing d s := by
  rw [dropTrailing, dropTrailing, List.getLast?_cons_of_ne_nil hne]
  split
  · exact List.dropLast_cons_of_ne_nil hne
  · rfl

/-- **Joining undoes splitting**, but for a delimiter at the end. -/
theorem join_split (s : List α) : join d (split d s) = dropTrailing d s := by
  induction s with
  | nil => rfl
  | cons c s ih =>
    rcases eq_or_ne s [] with rfl | hne
    · rw [dropTrailing, List.getLast?_singleton]
      by_cases hc : c = d
      · subst hc
        rw [split_cons_delim, split_nil, if_pos rfl]
        rfl
      · have hc' : d ∉ [c] := fun h => hc (List.mem_singleton.mp h).symm
        rw [split_of_notMem hc' (List.cons_ne_nil _ _), if_neg fun h => hc (Option.some.inj h)]
        rfl
    · obtain ⟨item, items, hitems⟩ := List.exists_cons_of_ne_nil (split_ne_nil (d := d) hne)
      rw [dropTrailing_cons c hne, ← ih]
      by_cases hc : c = d
      · rw [hc, split_cons_delim, hitems]
        rfl
      · rw [split, if_neg hc, hitems]
        exact join_cons_cons c item items

/-- **Where the first item ends**, when another follows: at the first delimiter. -/
theorem exists_eq_of_split_eq_cons_cons {s a b : List α} {items : List (List α)}
    (h : split d s = a :: b :: items) :
    ∃ rest, s = a ++ d :: rest ∧ split d rest = b :: items := by
  by_cases hd : d ∈ s
  · obtain ⟨a', rest, rfl, ha'⟩ := List.eq_append_cons_of_mem hd
    rw [split_append_delim ha'] at h
    obtain ⟨rfl, hrest⟩ := List.cons.inj h
    exact ⟨rest, rfl, hrest⟩
  · have hne : s ≠ [] := by
      rintro rfl
      exact absurd h.symm (List.cons_ne_nil _ _)
    rw [split_of_notMem hd hne] at h
    exact absurd (List.cons.inj h).2.symm (List.cons_ne_nil _ _)

end Delimited
