import Mathlib.Data.List.Induction
import Nacapp.Lib.Transitions

/-!
# Histories

What a component remembers of its run, told by the run alone.

`Transitions.StepsMeet` speaks of all the steps of a run.  Much of what a component keeps is of
another kind: it holds now because one step brought it about and no later step undid it.  This
is the operator *since* of temporal logic, `Since A B`.

* `exec_iff_since`: a state predicate that a step brings about exactly when it meets `A`, and
  keeps exactly when it meets `B`, holds after a run exactly when it was brought about and kept
  since, or held at first and was kept throughout.
* `lastWrite`: the value that the inputs of a run leave in a cell, when each of them writes it
  or leaves it alone; `exec_eq_lastWrite` reads such a cell off the state.
* `exec_filter`: what only some of the inputs change is what these inputs alone leave.
* `Coupling`: two components whose states stay related, step by step, stay related over whole
  runs.
-/

namespace Transitions

variable {σ ι : Type*} {step : σ → ι → σ} {A B : σ → ι → Prop}

/-! ## Since -/

/-- Some step of the run meets `A`, and all steps after it meet `B`. -/
def Since (step : σ → ι → σ) (A B : σ → ι → Prop) (s : σ) (is : List ι) : Prop :=
  ∃ pre i post, is = pre ++ i :: post ∧ A (exec step s pre) i ∧
    StepsMeet step B (step (exec step s pre) i) post

theorem not_since_nil (s : σ) : ¬ Since step A B s [] := by
  rintro ⟨pre, i, post, heq, -⟩
  exact absurd heq (by simp)

/-- The step that brought it about is the first, or a later one. -/
theorem since_cons {s : σ} {i : ι} {is : List ι} :
    Since step A B s (i :: is) ↔
      A s i ∧ StepsMeet step B (step s i) is ∨ Since step A B (step s i) is := by
  constructor
  · rintro ⟨pre, j, post, heq, hA, hB⟩
    cases pre with
    | nil =>
      obtain ⟨rfl, rfl⟩ := List.cons.inj heq
      exact Or.inl ⟨hA, hB⟩
    | cons k pre =>
      obtain ⟨rfl, rfl⟩ := List.cons.inj heq
      exact Or.inr ⟨pre, j, post, rfl, hA, hB⟩
  · rintro (⟨hA, hB⟩ | ⟨pre, j, post, rfl, hA, hB⟩)
    · exact ⟨[], i, is, rfl, hA, hB⟩
    · exact ⟨i :: pre, j, post, rfl, hA, hB⟩

/-- The step that brought it about is the last, or an earlier one that the last step respects. -/
theorem since_append_singleton {s : σ} {is : List ι} {i : ι} :
    Since step A B s (is ++ [i]) ↔
      A (exec step s is) i ∨ Since step A B s is ∧ B (exec step s is) i := by
  constructor
  · rintro ⟨pre, j, post, heq, hA, hB⟩
    rcases List.eq_nil_or_concat post with rfl | ⟨post, k, rfl⟩
    · obtain ⟨rfl, hj⟩ := List.append_inj' heq rfl
      obtain rfl := List.singleton_inj.mp hj
      exact Or.inl hA
    · rw [List.concat_eq_append] at heq hB
      obtain ⟨rfl, hk⟩ := List.append_inj' (heq.trans (List.append_assoc pre (j :: post) [k]).symm)
        rfl
      obtain rfl := List.singleton_inj.mp hk
      rw [stepsMeet_append] at hB
      refine Or.inr ⟨⟨pre, j, post, rfl, hA, hB.1⟩, ?_⟩
      rw [exec_append]
      exact hB.2.1
  · rintro (hA | ⟨⟨pre, j, post, rfl, hA, hB⟩, hlast⟩)
    · exact ⟨is, i, [], rfl, hA, trivial⟩
    · rw [exec_append] at hlast
      exact ⟨pre, j, post ++ [i], by simp, hA, stepsMeet_append.mpr ⟨hB, hlast, trivial⟩⟩

/-- **What holds was brought about and kept since.**  In the states that satisfy `J`, let a step
bring `I` about exactly when it meets `A`, and keep it exactly when it meets `B`.  Then `I` holds
after a run exactly when some step of the run met `A` and every later one met `B`, or `I` held at
first and every step met `B`. -/
theorem exec_iff_since {I J : σ → Prop} (hJ : ∀ s i, J s → J (step s i))
    (hI : ∀ s i, J s → (I (step s i) ↔ A s i ∨ I s ∧ B s i)) {s : σ} (hs : J s) (is : List ι) :
    I (exec step s is) ↔ Since step A B s is ∨ I s ∧ StepsMeet step B s is := by
  induction is generalizing s with
  | nil =>
    rw [exec_nil, or_iff_right (not_since_nil s)]
    exact (and_iff_left trivial).symm
  | cons i is ih =>
    rw [exec_cons, ih (hJ s i hs), hI s i hs, since_cons, stepsMeet_cons]
    constructor
    · rintro (hsince | ⟨hA | ⟨hnow, hB⟩, hrest⟩)
      · exact Or.inl (Or.inr hsince)
      · exact Or.inl (Or.inl ⟨hA, hrest⟩)
      · exact Or.inr ⟨hnow, hB, hrest⟩
    · rintro ((⟨hA, hrest⟩ | hsince) | ⟨hnow, hB, hrest⟩)
      · exact Or.inr ⟨Or.inl hA, hrest⟩
      · exact Or.inl hsince
      · exact Or.inr ⟨Or.inr ⟨hnow, hB⟩, hrest⟩

/-- What does not hold at first was brought about in the run. -/
theorem exec_iff_since_of_not {I J : σ → Prop} (hJ : ∀ s i, J s → J (step s i))
    (hI : ∀ s i, J s → (I (step s i) ↔ A s i ∨ I s ∧ B s i)) {s : σ} (hs : J s) (hnot : ¬ I s)
    (is : List ι) : I (exec step s is) ↔ Since step A B s is :=
  (exec_iff_since hJ hI hs is).trans (or_iff_left fun h => hnot h.1)

/-- Conditions on the inputs alone are read off the inputs. -/
theorem stepsMeet_inputs {P : ι → Prop} {s : σ} {is : List ι} :
    StepsMeet step (fun _ => P) s is ↔ ∀ i ∈ is, P i := by
  constructor
  · intro h i hi
    obtain ⟨pre, post, rfl⟩ := List.append_of_mem hi
    exact stepsMeet_iff.mp h pre i post rfl
  · exact fun h => stepsMeet_of_forall h s

section LastWrite

variable {β : Type*} (writes : ι → Option β)

/-- The value in a cell after the inputs of a run, each of which writes a value or none. -/
def lastWrite (b : β) (is : List ι) : β := is.foldl (fun b i => (writes i).getD b) b

@[simp] theorem lastWrite_nil (b : β) : lastWrite writes b [] = b := rfl

@[simp] theorem lastWrite_cons (b : β) (i : ι) (is : List ι) :
    lastWrite writes b (i :: is) = lastWrite writes ((writes i).getD b) is := rfl

theorem lastWrite_append (b : β) (is js : List ι) :
    lastWrite writes b (is ++ js) = lastWrite writes (lastWrite writes b is) js :=
  List.foldl_append

variable {writes}

/-- Without a write the cell keeps its value. -/
theorem lastWrite_of_forall {is : List ι} (h : ∀ i ∈ is, writes i = none) (b : β) :
    lastWrite writes b is = b := by
  induction is with
  | nil => rfl
  | cons i is ih =>
    rw [lastWrite_cons, h i List.mem_cons_self]
    exact ih fun j hj => h j (List.mem_cons_of_mem _ hj)

/-- **The last write wins.** -/
theorem lastWrite_eq_iff {b c : β} {is : List ι} :
    lastWrite writes b is = c ↔
      (∃ pre i post, is = pre ++ i :: post ∧ writes i = some c ∧ ∀ j ∈ post, writes j = none) ∨
        (∀ i ∈ is, writes i = none) ∧ b = c := by
  constructor
  · rintro rfl
    induction is using List.reverseRecOn with
    | nil => exact Or.inr ⟨fun i hi => absurd hi List.not_mem_nil, rfl⟩
    | append_singleton is i ih =>
      rw [lastWrite_append, lastWrite_cons, lastWrite_nil]
      cases hi : writes i with
      | some c => exact Or.inl ⟨is, i, [], rfl, hi, fun j hj => absurd hj List.not_mem_nil⟩
      | none =>
        have hone : ∀ j ∈ [i], writes j = none := fun j hj => List.mem_singleton.mp hj ▸ hi
        rcases ih with ⟨pre, j, post, rfl, hj, hpost⟩ | ⟨hnone, heq⟩
        · refine Or.inl ⟨pre, j, post ++ [i], by simp, hj, fun k hk => ?_⟩
          exact (List.mem_append.mp hk).elim (hpost k) (hone k)
        · exact Or.inr ⟨fun k hk => (List.mem_append.mp hk).elim (hnone k) (hone k), heq⟩
  · rintro (⟨pre, i, post, rfl, hi, hpost⟩ | ⟨hnone, rfl⟩)
    · rw [lastWrite_append, lastWrite_cons, hi]
      exact lastWrite_of_forall hpost c
    · exact lastWrite_of_forall hnone b

/-- What every step of a run writes or leaves alone has the last value written. -/
theorem exec_eq_lastWrite_of_mem {f : σ → β} {is : List ι}
    (hf : ∀ i ∈ is, ∀ s, f (step s i) = (writes i).getD (f s)) (s : σ) :
    f (exec step s is) = lastWrite writes (f s) is := by
  induction is generalizing s with
  | nil => rfl
  | cons i is ih =>
    rw [exec_cons, ih fun j hj => hf j (List.mem_cons_of_mem i hj), hf i List.mem_cons_self,
      lastWrite_cons]

theorem exec_eq_lastWrite {f : σ → β} (hf : ∀ s i, f (step s i) = (writes i).getD (f s)) (s : σ)
    (is : List ι) : f (exec step s is) = lastWrite writes (f s) is :=
  exec_eq_lastWrite_of_mem (fun i _ s => hf s i) s

end LastWrite

/-! ## Inputs that do not matter -/

/-- **Inputs that do not matter may be left out.**  If `f` is changed by the inputs in `p` only,
and by these in a way that depends on `f` alone, then `f` after a run is what the inputs in `p`
leave. -/
theorem exec_filter {τ : Type*} {f : σ → τ} {p : ι → Bool} {g : τ → ι → τ}
    (hin : ∀ s i, p i = true → f (step s i) = g (f s) i)
    (hout : ∀ s i, p i = false → f (step s i) = f s) (s : σ) (is : List ι) :
    f (exec step s is) = exec g (f s) (is.filter p) := by
  induction is generalizing s with
  | nil => rfl
  | cons i is ih =>
    rw [exec_cons, ih, List.filter_cons]
    cases hp : p i with
    | true => rw [hin s i hp, if_pos rfl, exec_cons]
    | false => rw [hout s i hp, if_neg Bool.false_ne_true]

/-- Leaving them out of the run changes nothing. -/
theorem exec_filter_self {τ : Type*} {f : σ → τ} {p : ι → Bool} {g : τ → ι → τ}
    (hin : ∀ s i, p i = true → f (step s i) = g (f s) i)
    (hout : ∀ s i, p i = false → f (step s i) = f s) (s : σ) (is : List ι) :
    f (exec step s (is.filter p)) = f (exec step s is) := by
  rw [exec_filter hin hout, exec_filter hin hout, List.filter_filter]
  simp only [Bool.and_self]

/-! ## Related runs -/

section Coupling

variable {σ' ι' : Type*}

/-- Every step of a component is some steps of another that keep their states related. -/
structure Coupling (step : σ → ι → σ) (step' : σ' → ι' → σ') (g : σ → ι → List ι')
    (R : σ → σ' → Prop) : Prop where
  step : ∀ s s' i, R s s' → R (step s i) (exec step' s' (g s i))

/-- **Related states stay related** over every run. -/
theorem Coupling.run {step' : σ' → ι' → σ'} {g : σ → ι → List ι'} {R : σ → σ' → Prop}
    (h : Coupling step step' g R) {s : σ} {s' : σ'} (hs : R s s') (is : List ι) :
    R (exec step s is) (exec step' s' (emitted step g s is)) := by
  induction is generalizing s s' with
  | nil => exact hs
  | cons i is ih =>
    rw [exec_cons, emitted_cons, exec_append]
    exact ih (h.step s s' i hs)

end Coupling

end Transitions
