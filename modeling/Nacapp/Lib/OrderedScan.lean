import Std.Data.ExtTreeMap.Lemmas
import Mathlib.Data.List.Basic

/-!
# Filing in and scanning an ordered map

Two loops over an ordered map, for any key and value types.

* `fileAll key t vs` inserts the values one after the other, each under its own key, so
  that of two values with one key the later stays.  `getElem?_fileAll_eq_some` and
  `mem_fileAll` say what is filed, under which keys.
* `firstHit t p` is the first entry in key order whose key satisfies `p`: the entry of
  the least such key (`firstHit_eq_some_iff`).
-/

namespace OrderedScan

variable {α β : Type*} [Ord α] [Std.TransOrd α] [Std.LawfulEqOrd α]

/-! ## Filing -/

/-- Every value filed under its key, the later one over the earlier. -/
def fileAll (key : β → α) (t : Std.ExtTreeMap α β) (vs : List β) : Std.ExtTreeMap α β :=
  vs.foldl (fun t v => t.insert (key v) v) t

variable {key : β → α} {t : Std.ExtTreeMap α β}

omit [Std.LawfulEqOrd α] in
@[simp] theorem fileAll_nil : fileAll key t [] = t := rfl

omit [Std.LawfulEqOrd α] in
theorem fileAll_cons (v : β) (vs : List β) :
    fileAll key t (v :: vs) = fileAll key (t.insert (key v) v) vs := rfl

/-- The entry of a key is one of the filed values of that key, or the old entry when no
value has the key. -/
theorem getElem?_fileAll_eq_some {vs : List β} {k : α} {w : β}
    (h : (fileAll key t vs)[k]? = some w) :
    (w ∈ vs ∧ key w = k) ∨ ((∀ v ∈ vs, key v ≠ k) ∧ t[k]? = some w) := by
  induction vs generalizing t with
  | nil => exact Or.inr ⟨by simp, h⟩
  | cons v vs ih =>
    rcases ih h with ⟨hw, hkey⟩ | ⟨hne, hget⟩
    · exact Or.inl ⟨List.mem_cons_of_mem _ hw, hkey⟩
    · rw [Std.ExtTreeMap.getElem?_insert] at hget
      split at hget
      · rename_i heq
        obtain rfl := Option.some.inj hget
        exact Or.inl ⟨List.mem_cons_self, Std.LawfulEqOrd.eq_of_compare heq⟩
      · rename_i hcmp
        refine Or.inr ⟨?_, hget⟩
        intro x hx
        rcases List.mem_cons.mp hx with rfl | hx
        · exact fun heq => hcmp (by rw [heq]; exact Std.ReflOrd.compare_self)
        · exact hne x hx

/-- The keys after filing. -/
theorem mem_fileAll {vs : List β} {k : α} :
    k ∈ fileAll key t vs ↔ (∃ v ∈ vs, key v = k) ∨ k ∈ t := by
  induction vs generalizing t with
  | nil => simp
  | cons v vs ih =>
    rw [fileAll_cons, ih, Std.ExtTreeMap.mem_insert, Std.LawfulEqCmp.compare_eq_iff_eq]
    simp only [List.mem_cons, exists_eq_or_imp]
    constructor
    · rintro (h | h | h)
      · exact Or.inl (Or.inr h)
      · exact Or.inl (Or.inl h)
      · exact Or.inr h
    · rintro ((h | h) | h)
      · exact Or.inr (Or.inl h)
      · exact Or.inl h
      · exact Or.inr (Or.inr h)

/-! ## Scanning -/

/-- The first entry, in key order, whose key satisfies `p`. -/
def firstHit (t : Std.ExtTreeMap α β) (p : α → Bool) : Option (α × β) :=
  t.toList.find? fun e => p e.1

variable {p : α → Bool}

theorem firstHit_eq_none_iff : firstHit t p = none ↔ ∀ k ∈ t, p k = false := by
  rw [firstHit, List.find?_eq_none]
  constructor
  · intro h k hk
    obtain ⟨v, hv⟩ := Option.isSome_iff_exists.mp (Std.ExtTreeMap.mem_iff_isSome_getElem?.mp hk)
    exact Bool.eq_false_iff.mpr
      (h (k, v) (Std.ExtTreeMap.mem_toList_iff_getElem?_eq_some.mpr hv))
  · rintro h ⟨k, v⟩ he
    have hv := Std.ExtTreeMap.mem_toList_iff_getElem?_eq_some.mp he
    have hk : k ∈ t := Std.ExtTreeMap.mem_iff_isSome_getElem?.mpr (by rw [hv]; rfl)
    exact Bool.eq_false_iff.mp (h k hk)

theorem firstHit_spec {k : α} {v : β} (h : firstHit t p = some (k, v)) :
    t[k]? = some v ∧ p k = true ∧ ∀ k' ∈ t, p k' = true → (compare k k').isLE := by
  obtain ⟨hp, before, after, hsplit, hbefore⟩ := List.find?_eq_some_iff_append.mp h
  have hmem : (k, v) ∈ t.toList := by
    rw [hsplit]
    exact List.mem_append_right _ List.mem_cons_self
  refine ⟨Std.ExtTreeMap.mem_toList_iff_getElem?_eq_some.mp hmem, hp, ?_⟩
  intro k' hk' hp'
  obtain ⟨v', hv'⟩ := Option.isSome_iff_exists.mp (Std.ExtTreeMap.mem_iff_isSome_getElem?.mp hk')
  have hmem' := Std.ExtTreeMap.mem_toList_iff_getElem?_eq_some.mpr hv'
  rw [hsplit] at hmem'
  rcases List.mem_append.mp hmem' with hin | hin
  · exact absurd hp' (by simpa using hbefore _ hin)
  · rcases List.mem_cons.mp hin with heq | hin
    · rw [(Prod.mk.inj heq).1, Std.ReflOrd.compare_self]
      rfl
    · have hsorted := hsplit ▸ Std.ExtTreeMap.ordered_keys_toList (t := t)
      have hlt := (List.pairwise_cons.mp (List.pairwise_append.mp hsorted).2.1).1 _ hin
      rw [hlt]
      rfl

/-- **A scan hits the entry of the least key.** -/
theorem firstHit_eq_some_iff {k : α} {v : β} :
    firstHit t p = some (k, v) ↔
      t[k]? = some v ∧ p k = true ∧ ∀ k' ∈ t, p k' = true → (compare k k').isLE := by
  refine ⟨firstHit_spec, ?_⟩
  rintro ⟨hv, hp, hleast⟩
  have hk : k ∈ t := Std.ExtTreeMap.mem_iff_isSome_getElem?.mpr (by rw [hv]; rfl)
  cases hhit : firstHit t p with
  | none =>
    have hno := firstHit_eq_none_iff.mp hhit k hk
    rw [hp] at hno
    exact absurd hno (by decide)
  | some e =>
    obtain ⟨k', v'⟩ := e
    obtain ⟨hv', hp', hleast'⟩ := firstHit_spec hhit
    have hk' : k' ∈ t := Std.ExtTreeMap.mem_iff_isSome_getElem?.mpr (by rw [hv']; rfl)
    have heq : k' = k :=
      Std.LawfulEqOrd.eq_of_compare
        (Std.OrientedCmp.isLE_antisymm (hleast' k hk hp) (hleast k' hk' hp'))
    rw [heq] at hv' ⊢
    rw [hv] at hv'
    rw [Option.some.inj hv']

end OrderedScan
