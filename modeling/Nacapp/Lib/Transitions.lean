import Mathlib.Data.List.Basic

/-!
# Runs of a deterministic step function

A component is a state type `σ` with a step `step : σ → ι → σ`; a run is a list of
inputs, executed from the left.  Everything said about a component over its whole
life is an induction over such a list, and the inductions are made once, here.

* `exec`: the state after a run.
* `invariant`: what every step preserves, every run preserves.
* `StepsMeet C`: every step of the run satisfies `C`, read at the state before it.
* `invariant_of_stepsMeet`: the same, for steps that preserve the invariant only
  under `C`.
* `forall_prefix_iff_stepsMeet`: when `C` says exactly which steps preserve it, the
  invariant holds all along a run exactly when the steps of the run meet `C`.
* `emitted out`: what the steps of a run put out, in order.
* `invariant_emitted`: invariants of the state together with the output so far.
* `AtMostOnce C`: at most one step of the run satisfies `C`.
* `Simulation`: every step of a component is one step of another, and with it every run.
* `Projection`: every step of a system is some steps of one of its components, and with it
  every run.
-/

namespace Transitions

variable {σ ι ω : Type*} (step : σ → ι → σ)

/-! ## The state after a run -/

/-- The state after the inputs of a run. -/
def exec (s : σ) : List ι → σ
  | [] => s
  | i :: is => exec (step s i) is

@[simp] theorem exec_nil (s : σ) : exec step s [] = s := rfl

@[simp] theorem exec_cons (s : σ) (i : ι) (is : List ι) :
    exec step s (i :: is) = exec step (step s i) is := rfl

theorem exec_append (s : σ) (is js : List ι) :
    exec step s (is ++ js) = exec step (exec step s is) js := by
  induction is generalizing s with
  | nil => rfl
  | cons i is ih => rw [List.cons_append, exec_cons, exec_cons, ih]

/-- **Invariants.**  What holds at first and is kept by every step of a run holds
at its end. -/
theorem invariant {step : σ → ι → σ} {I : σ → Prop} {is : List ι} {s : σ}
    (hstep : ∀ i ∈ is, ∀ s, I s → I (step s i)) (hs : I s) : I (exec step s is) := by
  induction is generalizing s with
  | nil => exact hs
  | cons i is ih =>
    rw [exec_cons]
    exact ih (fun j hj => hstep j (List.mem_cons_of_mem _ hj))
      (hstep i List.mem_cons_self s hs)

/-- Some prefix of a run has exactly `n` of its inputs in `p`, when the run has as many. -/
theorem exists_prefix_countP_eq (p : ι → Bool) {n : ℕ} {is : List ι} (h : n ≤ is.countP p) :
    ∃ pre, pre <+: is ∧ pre.countP p = n := by
  induction is generalizing n with
  | nil => exact ⟨[], List.prefix_rfl, (Nat.le_zero.mp h).symm⟩
  | cons i is ih =>
    cases n with
    | zero => exact ⟨[], List.nil_prefix, rfl⟩
    | succ n =>
      have hcons : (i :: is).countP p = is.countP p + if p i then 1 else 0 := List.countP_cons
      by_cases hi : p i = true
      · obtain ⟨pre, hpre, hcount⟩ := ih (n := n) (by rw [hcons, if_pos hi] at h; omega)
        refine ⟨i :: pre, List.cons_prefix_cons.mpr ⟨rfl, hpre⟩, ?_⟩
        rw [List.countP_cons_of_pos hi, hcount]
      · obtain ⟨pre, hpre, hcount⟩ := ih (n := n + 1) (by rw [hcons, if_neg hi] at h; omega)
        refine ⟨i :: pre, List.cons_prefix_cons.mpr ⟨rfl, hpre⟩, ?_⟩
        rw [List.countP_cons_of_neg hi, hcount]

/-! ## Conditions on the steps of a run -/

/-- Every step of the run meets `C`, a condition on the state before the step and
the input it takes. -/
def StepsMeet (C : σ → ι → Prop) (s : σ) : List ι → Prop
  | [] => True
  | i :: is => C s i ∧ StepsMeet C (step s i) is

variable {step} {C : σ → ι → Prop}

@[simp] theorem stepsMeet_nil (s : σ) : StepsMeet step C s [] := trivial

theorem stepsMeet_cons {s : σ} {i : ι} {is : List ι} :
    StepsMeet step C s (i :: is) ↔ C s i ∧ StepsMeet step C (step s i) is := Iff.rfl

theorem stepsMeet_append {s : σ} {is js : List ι} :
    StepsMeet step C s (is ++ js) ↔
      StepsMeet step C s is ∧ StepsMeet step C (exec step s is) js := by
  induction is generalizing s with
  | nil => exact (and_iff_right trivial).symm
  | cons i is ih => rw [List.cons_append, stepsMeet_cons, stepsMeet_cons, exec_cons, ih, and_assoc]

/-- A condition on the inputs alone. -/
theorem stepsMeet_of_forall {P : ι → Prop} {is : List ι} (h : ∀ i ∈ is, P i) (s : σ) :
    StepsMeet step (fun _ => P) s is := by
  induction is generalizing s with
  | nil => trivial
  | cons i is ih =>
    exact ⟨h i List.mem_cons_self, ih (fun j hj => h j (List.mem_cons_of_mem _ hj)) (step s i)⟩

theorem stepsMeet_true (s : σ) (is : List ι) : StepsMeet step (fun _ _ => True) s is :=
  stepsMeet_of_forall (fun _ _ => trivial) s

/-- The condition may be read at every step of the run. -/
theorem stepsMeet_iff {s : σ} {is : List ι} :
    StepsMeet step C s is ↔
      ∀ pre i post, is = pre ++ i :: post → C (exec step s pre) i := by
  induction is generalizing s with
  | nil => simp
  | cons i is ih =>
    rw [stepsMeet_cons, ih]
    constructor
    · rintro ⟨h, hrest⟩ pre j post heq
      cases pre with
      | nil =>
        obtain ⟨rfl, -⟩ := List.cons.inj heq
        exact h
      | cons k pre =>
        obtain ⟨rfl, htail⟩ := List.cons.inj heq
        exact hrest pre j post htail
    · intro h
      refine ⟨h [] i is rfl, fun pre j post heq => ?_⟩
      exact h (i :: pre) j post (by rw [heq, List.cons_append])

/-- A weaker condition is met as well. -/
theorem StepsMeet.mono {C' : σ → ι → Prop} (hC : ∀ s i, C s i → C' s i) {s : σ} {is : List ι}
    (h : StepsMeet step C s is) : StepsMeet step C' s is := by
  induction is generalizing s with
  | nil => trivial
  | cons i is ih => exact ⟨hC s i h.1, ih h.2⟩

/-- Conditions that agree in the states that satisfy `J` are met by the same runs, when the
steps that meet them keep `J`. -/
theorem stepsMeet_congr {C' : σ → ι → Prop} {J : σ → Prop}
    (hJ : ∀ s i, J s → C s i → J (step s i)) (hC : ∀ s i, J s → (C s i ↔ C' s i)) {s : σ}
    (hs : J s) (is : List ι) : StepsMeet step C s is ↔ StepsMeet step C' s is := by
  induction is generalizing s with
  | nil => exact Iff.rfl
  | cons i is ih =>
    rw [stepsMeet_cons, stepsMeet_cons, ← hC s i hs]
    exact and_congr_right fun h => ih (hJ s i hs h)

/-- **Conditional invariants.**  What the steps of a run keep under `C` survives
every run whose steps meet `C`. -/
theorem invariant_of_stepsMeet {I : σ → Prop} {s : σ} {is : List ι}
    (hstep : ∀ s, ∀ i ∈ is, C s i → I s → I (step s i)) (h : StepsMeet step C s is) (hs : I s) :
    I (exec step s is) := by
  induction is generalizing s with
  | nil => exact hs
  | cons i is ih =>
    rw [exec_cons]
    exact ih (fun s j hj => hstep s j (List.mem_cons_of_mem _ hj)) h.2
      (hstep s i List.mem_cons_self h.1 hs)

/-- **Exactly the runs that keep an invariant.**  Let `C` say which steps keep `I`, in the
states that satisfy `J`.  Then `I` holds in every state of a run exactly when every step of
the run meets `C`. -/
theorem forall_prefix_iff_stepsMeet {I J : σ → Prop} (hJ : ∀ s i, J s → J (step s i))
    (hI : ∀ s i, J s → I s → (I (step s i) ↔ C s i)) {s : σ} (hJs : J s) (hs : I s)
    (is : List ι) : (∀ pre, pre <+: is → I (exec step s pre)) ↔ StepsMeet step C s is := by
  induction is generalizing s with
  | nil =>
    refine iff_of_true (fun pre hpre => ?_) trivial
    rw [List.prefix_nil.mp hpre]
    exact hs
  | cons i is ih =>
    rw [stepsMeet_cons]
    constructor
    · intro h
      have hfirst : I (step s i) := h [i] (List.prefix_append [i] is)
      refine ⟨(hI s i hJs hs).mp hfirst, (ih (hJ s i hJs) hfirst).mp fun pre hpre => ?_⟩
      exact h (i :: pre) (List.cons_prefix_cons.mpr ⟨rfl, hpre⟩)
    · rintro ⟨hC, hrest⟩ pre hpre
      cases pre with
      | nil => exact hs
      | cons j pre =>
        obtain ⟨rfl, htail⟩ := List.cons_prefix_cons.mp hpre
        exact (ih (hJ s j hJs) ((hI s j hJs hs).mpr hC)).mpr hrest pre htail

/-! ## The output of a run -/

variable (step) (out : σ → ι → List ω)

/-- What the steps of a run put out, in order. -/
def emitted (s : σ) : List ι → List ω
  | [] => []
  | i :: is => out s i ++ emitted (step s i) is

@[simp] theorem emitted_nil (s : σ) : emitted step out s [] = [] := rfl

@[simp] theorem emitted_cons (s : σ) (i : ι) (is : List ι) :
    emitted step out s (i :: is) = out s i ++ emitted step out (step s i) is := rfl

theorem emitted_append (s : σ) (is js : List ι) :
    emitted step out s (is ++ js) =
      emitted step out s is ++ emitted step out (exec step s is) js := by
  induction is generalizing s with
  | nil => rfl
  | cons i is ih =>
    rw [List.cons_append, emitted_cons, emitted_cons, exec_cons, ih, List.append_assoc]

/-- What every output of a run expands to, the run puts out when its steps are expanded. -/
theorem emitted_flatMap {ω' : Type*} (f : ω → List ω') (s : σ) (is : List ι) :
    emitted step (fun s i => (out s i).flatMap f) s is = (emitted step out s is).flatMap f := by
  induction is generalizing s with
  | nil => rfl
  | cons i is ih => rw [emitted_cons, emitted_cons, List.flatMap_append, ih]

/-- What a run puts out, one of its steps does. -/
theorem exists_step_of_mem_emitted {s : σ} {is : List ι} {o : ω} (h : o ∈ emitted step out s is) :
    ∃ pre i post, is = pre ++ i :: post ∧ o ∈ out (exec step s pre) i := by
  induction is generalizing s with
  | nil => exact absurd h List.not_mem_nil
  | cons i is ih =>
    rw [emitted_cons] at h
    rcases List.mem_append.mp h with h | h
    · exact ⟨[], i, is, rfl, h⟩
    · obtain ⟨pre, j, post, heq, hj⟩ := ih h
      exact ⟨i :: pre, j, post, by rw [heq, List.cons_append], hj⟩

/-- **Conditional invariants of histories.**  What holds of the state and the output so far,
and is kept by the steps that meet `C`, holds at the end of every run whose steps meet `C`. -/
theorem invariant_emitted_of_stepsMeet {step : σ → ι → σ} {out : σ → ι → List ω}
    {C : σ → ι → Prop} {I : σ → List ω → Prop}
    (hstep : ∀ s os i, C s i → I s os → I (step s i) (os ++ out s i)) {s : σ} {os : List ω}
    {is : List ι} (h : StepsMeet step C s is) (hs : I s os) :
    I (exec step s is) (os ++ emitted step out s is) := by
  induction is generalizing s os with
  | nil =>
    rw [emitted_nil, List.append_nil]
    exact hs
  | cons i is ih =>
    rw [exec_cons, emitted_cons, ← List.append_assoc]
    exact ih h.2 (hstep s os i h.1 hs)

/-- **Invariants of histories.**  What holds of the state and the output so far, and is kept
by every step, holds at the end of every run. -/
theorem invariant_emitted {step : σ → ι → σ} {out : σ → ι → List ω} {I : σ → List ω → Prop}
    (hstep : ∀ s os i, I s os → I (step s i) (os ++ out s i)) {s : σ} {os : List ω}
    (hs : I s os) (is : List ι) : I (exec step s is) (os ++ emitted step out s is) := by
  exact invariant_emitted_of_stepsMeet (C := fun _ _ => True) (fun s os i _ h => hstep s os i h)
    (stepsMeet_true s is) hs

/-- Every output of a run satisfies `P` exactly when every step puts out only such
outputs. -/
theorem forall_mem_emitted_iff {P : ω → Prop} {s : σ} {is : List ι} :
    (∀ o ∈ emitted step out s is, P o) ↔
      StepsMeet step (fun s i => ∀ o ∈ out s i, P o) s is := by
  induction is generalizing s with
  | nil => simp
  | cons i is ih =>
    simp only [emitted_cons, List.mem_append, stepsMeet_cons, ← ih]
    constructor
    · intro h
      exact ⟨fun o ho => h o (Or.inl ho), fun o ho => h o (Or.inr ho)⟩
    · rintro ⟨h₁, h₂⟩ o (ho | ho)
      · exact h₁ o ho
      · exact h₂ o ho

/-! ## What happens once -/

/-- At most one step of the run meets `C`. -/
def AtMostOnce (step : σ → ι → σ) (C : σ → ι → Prop) (s : σ) : List ι → Prop
  | [] => True
  | i :: is =>
    (C s i → StepsMeet step (fun s i => ¬ C s i) (step s i) is) ∧
      AtMostOnce step C (step s i) is

section Once

variable {step : σ → ι → σ} {out : σ → ι → List ω} {C : σ → ι → Prop} {p : ω → Bool}

theorem atMostOnce_cons {s : σ} {i : ι} {is : List ι} :
    AtMostOnce step C s (i :: is) ↔
      (C s i → StepsMeet step (fun s i => ¬ C s i) (step s i) is) ∧
        AtMostOnce step C (step s i) is := Iff.rfl

/-- What no step meets, at most one does. -/
theorem atMostOnce_of_stepsMeet_not {s : σ} {is : List ι}
    (h : StepsMeet step (fun s i => ¬ C s i) s is) : AtMostOnce step C s is := by
  induction is generalizing s with
  | nil => trivial
  | cons i is ih => exact ⟨fun hC => absurd hC h.1, ih h.2⟩

/-- The steps that meet `C` put out one `p`, and the others none: then none is put out in a run
exactly when no step meets `C`. -/
theorem countP_emitted_eq_zero_iff (hone : ∀ s i, C s i → (out s i).countP p = 1)
    (hnone : ∀ s i, ¬ C s i → (out s i).countP p = 0) {s : σ} {is : List ι} :
    (emitted step out s is).countP p = 0 ↔ StepsMeet step (fun s i => ¬ C s i) s is := by
  induction is generalizing s with
  | nil => simp
  | cons i is ih =>
    rw [emitted_cons, List.countP_append, stepsMeet_cons, ← ih]
    by_cases hC : C s i
    · have := hone s i hC
      exact iff_of_false (by omega) fun h => h.1 hC
    · rw [hnone s i hC, Nat.zero_add]
      exact (and_iff_right hC).symm

/-- **At most once**: a run puts out at most one `p` exactly when at most one of its steps
does. -/
theorem countP_emitted_le_one_iff (hone : ∀ s i, C s i → (out s i).countP p = 1)
    (hnone : ∀ s i, ¬ C s i → (out s i).countP p = 0) {s : σ} {is : List ι} :
    (emitted step out s is).countP p ≤ 1 ↔ AtMostOnce step C s is := by
  induction is generalizing s with
  | nil => exact iff_of_true (by simp) trivial
  | cons i is ih =>
    rw [emitted_cons, List.countP_append, atMostOnce_cons, ← ih,
      ← countP_emitted_eq_zero_iff hone hnone]
    by_cases hC : C s i
    · have := hone s i hC
      simp only [hC, forall_const]
      omega
    · have := hnone s i hC
      simp only [hC, false_imp_iff, true_and]
      omega

end Once

/-! ## Simulation -/

section Simulation

variable {σ' ι' : Type*}

/-- Steps that meet `C`, in states that satisfy `J`, are steps of another component: `f` reads
its state off, and `g` its inputs. -/
structure Simulation (step : σ → ι → σ) (out : σ → ι → List ω) (step' : σ' → ι' → σ')
    (out' : σ' → ι' → List ω) (f : σ → σ') (g : σ → ι → ι') (J : σ → Prop) (C : σ → ι → Prop) :
    Prop where
  keeps : ∀ s i, J s → C s i → J (step s i)
  state : ∀ s i, J s → C s i → f (step s i) = step' (f s) (g s i)
  output : ∀ s i, J s → C s i → out s i = out' (f s) (g s i)

/-- The inputs of a run, as the other component takes them. -/
def translated (step : σ → ι → σ) (g : σ → ι → ι') (s : σ) (is : List ι) : List ι' :=
  emitted step (fun s i => [g s i]) s is

variable {step : σ → ι → σ} {out : σ → ι → List ω} {step' : σ' → ι' → σ'}
  {out' : σ' → ι' → List ω} {f : σ → σ'} {g : σ → ι → ι'} {J : σ → Prop} {C : σ → ι → Prop}

theorem translated_cons (s : σ) (i : ι) (is : List ι) :
    translated step g s (i :: is) = g s i :: translated step g (step s i) is := rfl

/-- Inputs that are translated regardless of the state. -/
theorem translated_eq_map (g : ι → ι') (s : σ) (is : List ι) :
    translated step (fun _ => g) s is = is.map g := by
  induction is generalizing s with
  | nil => rfl
  | cons i is ih => rw [translated_cons, ih, List.map_cons]

/-- **Every run is a run of the other component**: it ends in the state read off, and puts out
the same. -/
theorem Simulation.run (h : Simulation step out step' out' f g J C) {s : σ} {is : List ι}
    (hs : J s) (hC : StepsMeet step C s is) :
    f (exec step s is) = exec step' (f s) (translated step g s is) ∧
      emitted step out s is = emitted step' out' (f s) (translated step g s is) := by
  induction is generalizing s with
  | nil => exact ⟨rfl, rfl⟩
  | cons i is ih =>
    obtain ⟨hstate, hout⟩ := ih (h.keeps s i hs hC.1) hC.2
    rw [translated_cons, exec_cons, exec_cons, emitted_cons, emitted_cons, hstate, hout,
      h.state s i hs hC.1, h.output s i hs hC.1]
    exact ⟨rfl, rfl⟩

/-- Conditions on the steps of the other component are read off as well. -/
theorem Simulation.stepsMeet_iff (h : Simulation step out step' out' f g J C) {s : σ}
    {is : List ι} (hs : J s) (hC : StepsMeet step C s is) (C' : σ' → ι' → Prop) :
    StepsMeet step' C' (f s) (translated step g s is) ↔
      StepsMeet step (fun s i => C' (f s) (g s i)) s is := by
  induction is generalizing s with
  | nil => exact Iff.rfl
  | cons i is ih =>
    rw [translated_cons, stepsMeet_cons, stepsMeet_cons, ← ih (h.keeps s i hs hC.1) hC.2,
      h.state s i hs hC.1]

end Simulation

/-! ## Projection -/

section Projection

variable {σ' ι' ω' : Type*}

/-- In states that satisfy `J`, a component sees every step as some steps of its own: `f` reads
its state off, `g` the inputs it takes in the step, and `k` its outputs. -/
structure Projection (step : σ → ι → σ) (out : σ → ι → List ω) (step' : σ' → ι' → σ')
    (out' : σ' → ι' → List ω') (f : σ → σ') (g : σ → ι → List ι') (k : ω → List ω')
    (J : σ → Prop) : Prop where
  keeps : ∀ s i, J s → J (step s i)
  state : ∀ s i, J s → f (step s i) = exec step' (f s) (g s i)
  output : ∀ s i, J s → (out s i).flatMap k = emitted step' out' (f s) (g s i)

variable {step : σ → ι → σ} {out : σ → ι → List ω} {step' : σ' → ι' → σ'}
  {out' : σ' → ι' → List ω'} {f : σ → σ'} {g : σ → ι → List ι'} {k : ω → List ω'} {J : σ → Prop}

/-- **Every run is a run of the component** on the inputs it takes: it ends in the state read
off, and its outputs are those of the component. -/
theorem Projection.run (h : Projection step out step' out' f g k J) {s : σ} (hs : J s)
    (is : List ι) :
    f (exec step s is) = exec step' (f s) (emitted step g s is) ∧
      (emitted step out s is).flatMap k = emitted step' out' (f s) (emitted step g s is) := by
  induction is generalizing s with
  | nil => exact ⟨rfl, rfl⟩
  | cons i is ih =>
    obtain ⟨hstate, hout⟩ := ih (h.keeps s i hs)
    rw [exec_cons, emitted_cons, emitted_cons, List.flatMap_append, exec_append, emitted_append,
      hstate, hout, h.state s i hs, h.output s i hs]
    exact ⟨rfl, rfl⟩

/-- What the component demands of the steps it takes, every run meets. -/
theorem Projection.stepsMeet (h : Projection step out step' out' f g k J) {C : σ' → ι' → Prop}
    (hC : ∀ s i, J s → StepsMeet step' C (f s) (g s i)) {s : σ} (hs : J s) (is : List ι) :
    StepsMeet step' C (f s) (emitted step g s is) := by
  induction is generalizing s with
  | nil => trivial
  | cons i is ih =>
    rw [emitted_cons, stepsMeet_append, ← h.state s i hs]
    exact ⟨hC s i hs, ih (h.keeps s i hs)⟩

end Projection

end Transitions
