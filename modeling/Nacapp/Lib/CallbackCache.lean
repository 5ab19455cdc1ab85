import Mathlib.Data.List.Nodup
import Mathlib.Data.Set.Insert
import Nacapp.Lib.Transitions

/-!
# A cache that is filled by callbacks

A component serves requests for items from a cache.  The items are made by somebody else,
each once: the request that has an item made is owed a callback, which brings the item, or
turns out to bring nothing, before the call returns or later.  A request is answered in its
callback, and again when the item is in the cache after the call.  An item may also be made
without a callback (`touch`), and is then never brought.

* `nodup_emitted_iff`: no request is answered twice, exactly when no callback brings an item
  before the call returns.
* `complete_iff`: once nothing is owed, every request has been answered and every item that
  was made is in the cache, exactly when no step of the run loses one (`Lossless`).
-/

namespace CallbackCache

open Transitions

variable {κ : Type*}

/-- The items the requests are for, in order; the items that were made and those in the cache;
and the requests that are owed a callback. -/
structure State (κ : Type*) where
  requests : List κ
  made : Set κ
  stored : Set κ
  owed : List ℕ

/-- A request comes with what is known of its callback when the call returns: none so far, or
one that brought the item or nothing. -/
inductive Event (κ : Type*) where
  | request (k : κ) (early : Option Bool)
  | touch (k : κ)
  | deliver (i : ℕ) (full : Bool)
  | idle

/-- Nothing was asked for yet. -/
def start (made : Set κ) : State κ := ⟨[], made, ∅, []⟩

open Classical in
noncomputable def step (s : State κ) : Event κ → State κ
  | .request k early =>
    { requests := s.requests ++ [k]
      made := insert k s.made
      stored := {k' | k' ∈ s.stored ∨ early = some true ∧ k' = k}
      owed := if k ∈ s.made ∨ early ≠ none then s.owed else s.owed ++ [s.requests.length] }
  | .touch k => { s with made := insert k s.made }
  | .deliver i full =>
    { s with
      stored := {k | k ∈ s.stored ∨ full = true ∧ s.requests[i]? = some k}
      owed := s.owed.erase i }
  | .idle => s

open Classical in
/-- The requests that are answered, by their positions. -/
noncomputable def out (s : State κ) : Event κ → List ℕ
  | .request k early =>
    (if early ≠ none then [s.requests.length] else []) ++
      if k ∈ s.stored ∨ early = some true then [s.requests.length] else []
  | .touch _ => []
  | .deliver i _ => [i]
  | .idle => []

@[simp] theorem out_touch (s : State κ) (k : κ) : out s (.touch k) = [] := rfl

@[simp] theorem out_idle (s : State κ) : out s .idle = [] := rfl

@[simp] theorem step_idle (s : State κ) : step s .idle = s := rfl

/-- Callbacks are made for items that are made by the request, and once. -/
def Valid (s : State κ) : Event κ → Prop
  | .request k early => k ∈ s.made → early = none
  | .deliver i _ => i ∈ s.owed
  | _ => True

/-! ## What every run keeps -/

/-- What holds in every state, with the requests answered so far. -/
structure Sound (s : State κ) (answered : List ℕ) : Prop where
  stored : s.stored ⊆ s.made
  requests : ∀ (i : ℕ) (k : κ), s.requests[i]? = some k → k ∈ s.made
  owed_lt : ∀ i ∈ s.owed, i < s.requests.length
  owed_nodup : s.owed.Nodup
  owed_stored : ∀ i ∈ s.owed, ∀ k : κ, s.requests[i]? = some k → k ∉ s.stored
  owed_inj : ∀ i ∈ s.owed, ∀ j ∈ s.owed, s.requests[i]? = s.requests[j]? → i = j
  answered_lt : ∀ i ∈ answered, i < s.requests.length

theorem sound_start (made : Set κ) : Sound (start made) [] where
  stored := Set.empty_subset _
  requests _ _ h := absurd h (by simp [start])
  owed_lt _ h := absurd h List.not_mem_nil
  owed_nodup := List.nodup_nil
  owed_stored _ h := absurd h List.not_mem_nil
  owed_inj _ h := absurd h List.not_mem_nil
  answered_lt _ h := absurd h List.not_mem_nil

/-- **The three kinds of request.**  The item was made before, and is in the cache or not; or
the request has it made, and is owed the callback; or it is made, and the callback comes at
once. -/
theorem request_cases {s : State κ} (hstored : s.stored ⊆ s.made) {k : κ} {early : Option Bool}
    (hvalid : Valid s (.request k early)) :
    (k ∈ s.made ∧ step s (.request k early) = { s with requests := s.requests ++ [k] } ∧
        (k ∈ s.stored ∧ out s (.request k early) = [s.requests.length] ∨
          k ∉ s.stored ∧ out s (.request k early) = [])) ∨
      (k ∉ s.made ∧ early = none ∧
        step s (.request k early) =
          ⟨s.requests ++ [k], insert k s.made, s.stored, s.owed ++ [s.requests.length]⟩ ∧
        out s (.request k early) = []) ∨
      (k ∉ s.made ∧ early = some false ∧
        step s (.request k early) = ⟨s.requests ++ [k], insert k s.made, s.stored, s.owed⟩ ∧
        out s (.request k early) = [s.requests.length]) ∨
      k ∉ s.made ∧ early = some true ∧
        step s (.request k early) =
          ⟨s.requests ++ [k], insert k s.made, insert k s.stored, s.owed⟩ ∧
        out s (.request k early) = [s.requests.length, s.requests.length] := by
  by_cases hk : k ∈ s.made
  · obtain rfl := hvalid hk
    refine Or.inl ⟨hk, by simp [step, hk, Set.insert_eq_of_mem], ?_⟩
    by_cases hin : k ∈ s.stored
    · exact Or.inl ⟨hin, by simp [out, hin]⟩
    · exact Or.inr ⟨hin, by simp [out, hin]⟩
  · have hin : k ∉ s.stored := fun h => hk (hstored h)
    refine Or.inr ?_
    rcases early with _ | _ | _
    · exact Or.inl ⟨hk, rfl, by simp [step, hk], by simp [out, hin]⟩
    · exact Or.inr (Or.inl ⟨hk, rfl, by simp [step], by simp [out, hin]⟩)
    · refine Or.inr (Or.inr ⟨hk, rfl, ?_, by simp [out]⟩)
      simp [step, or_comm]
      rfl

/-- What a request adds at most: it is owed the callback itself, or has its item in the cache,
and then the item was not made before; and it is the only one that is answered. -/
theorem request_bounds {s : State κ} (hstored : s.stored ⊆ s.made) {k : κ}
    {early : Option Bool} (hvalid : Valid s (.request k early)) :
    (∀ i ∈ (step s (.request k early)).owed,
        i ∈ s.owed ∨ k ∉ s.made ∧ i = s.requests.length) ∧
      (∀ k' ∈ (step s (.request k early)).stored, k' ∈ s.stored ∨ k ∉ s.made ∧ k' = k) ∧
      ∀ i ∈ out s (.request k early), i = s.requests.length := by
  rcases request_cases hstored hvalid with
    ⟨-, hstep, hout⟩ | ⟨hk, -, hstep, hout⟩ | ⟨-, -, hstep, hout⟩ | ⟨hk, -, hstep, hout⟩
  · rw [hstep]
    refine ⟨fun i hi => Or.inl hi, fun k' hk' => Or.inl hk', ?_⟩
    rcases hout with ⟨-, hout⟩ | ⟨-, hout⟩
    · simp [hout]
    · simp [hout]
  · rw [hstep, hout]
    refine ⟨fun i hi => ?_, fun k' hk' => Or.inl hk', by simp⟩
    exact (List.mem_append.mp hi).imp_right fun hi => ⟨hk, List.mem_singleton.mp hi⟩
  · rw [hstep, hout]
    exact ⟨fun i hi => Or.inl hi, fun k' hk' => Or.inl hk', by simp⟩
  · rw [hstep, hout]
    refine ⟨fun i hi => Or.inl hi, fun k' hk' => ?_, by simp⟩
    exact (Set.mem_insert_iff.mp hk').symm.imp_right fun hk' => ⟨hk, hk'⟩

section Append

variable {s : State κ} {k : κ}

theorem getElem?_append_of_lt {i : ℕ} (h : i < s.requests.length) :
    (s.requests ++ [k])[i]? = s.requests[i]? := List.getElem?_append_left h

theorem mem_made_of_getElem?_append {answered : List ℕ} (h : Sound s answered) {i : ℕ} {k' : κ}
    (hi : (s.requests ++ [k])[i]? = some k') : k' ∈ insert k s.made := by
  rcases lt_trichotomy i s.requests.length with hlt | rfl | hgt
  · rw [getElem?_append_of_lt hlt] at hi
    exact Set.mem_insert_of_mem _ (h.requests i k' hi)
  · rw [List.getElem?_concat_length] at hi
    exact Set.mem_insert_iff.mpr (Or.inl (Option.some.inj hi).symm)
  · rw [List.getElem?_eq_none (by simp; omega)] at hi
    exact absurd hi (by simp)

/-- A request that is owed nothing leaves what is owed as it was. -/
theorem sound_append {answered : List ℕ} (h : Sound s answered) {made stored : Set κ}
    {outs : List ℕ} (hmade : insert k s.made ⊆ made) (hstored : stored ⊆ made)
    (howed : ∀ i ∈ s.owed, ∀ k' : κ, s.requests[i]? = some k' → k' ∉ stored)
    (houts : ∀ i ∈ outs, i = s.requests.length) :
    Sound ⟨s.requests ++ [k], made, stored, s.owed⟩ (answered ++ outs) where
  stored := hstored
  requests _ _ hi := hmade (mem_made_of_getElem?_append h hi)
  owed_lt i hi := by
    have := h.owed_lt i hi
    simp only [List.length_append, List.length_singleton]
    omega
  owed_nodup := h.owed_nodup
  owed_stored i hi k' hk' := by
    rw [getElem?_append_of_lt (h.owed_lt i hi)] at hk'
    exact howed i hi k' hk'
  owed_inj i hi j hj hij := by
    rw [getElem?_append_of_lt (h.owed_lt i hi), getElem?_append_of_lt (h.owed_lt j hj)] at hij
    exact h.owed_inj i hi j hj hij
  answered_lt i hi := by
    simp only [List.length_append, List.length_singleton]
    rcases List.mem_append.mp hi with hi | hi
    · have := h.answered_lt i hi
      omega
    · have := houts i hi
      omega

/-- A request that has its item made is the only one owed the callback. -/
theorem sound_append_owed {answered : List ℕ} (h : Sound s answered) (hk : k ∉ s.made) :
    Sound ⟨s.requests ++ [k], insert k s.made, s.stored, s.owed ++ [s.requests.length]⟩
      answered := by
  have hnone : ∀ i ∈ ([] : List ℕ), i = s.requests.length := nofun
  have hbase := sound_append (k := k) h subset_rfl
    (h.stored.trans (Set.subset_insert k s.made)) h.owed_stored hnone
  rw [List.append_nil] at hbase
  have hnew : ∀ i ∈ s.owed,
      (s.requests ++ [k])[i]? ≠ (s.requests ++ [k])[s.requests.length]? := by
    intro i hi heq
    rw [List.getElem?_concat_length, getElem?_append_of_lt (h.owed_lt i hi)] at heq
    exact hk (h.requests i k heq)
  refine ⟨hbase.stored, hbase.requests, ?_, ?_, ?_, ?_, hbase.answered_lt⟩
  · intro i hi
    rcases List.mem_append.mp hi with hi | hi
    · exact hbase.owed_lt i hi
    · rw [List.mem_singleton.mp hi]
      simp
  · refine List.nodup_append.mpr ⟨h.owed_nodup, List.nodup_singleton _, ?_⟩
    intro i hi j hj
    have := h.owed_lt i hi
    rw [List.mem_singleton.mp hj]
    omega
  · intro i hi k' hk'
    rcases List.mem_append.mp hi with hi | hi
    · exact hbase.owed_stored i hi k' hk'
    · rw [List.mem_singleton.mp hi] at hk'
      have hk' : (s.requests ++ [k])[s.requests.length]? = some k' := hk'
      rw [List.getElem?_concat_length] at hk'
      rw [← Option.some.inj hk']
      exact fun hin => hk (h.stored hin)
  · intro i hi j hj hij
    rcases List.mem_append.mp hi with hi | hi <;> rcases List.mem_append.mp hj with hj | hj
    · exact hbase.owed_inj i hi j hj hij
    · rw [List.mem_singleton.mp hj] at hij
      exact absurd hij (hnew i hi)
    · rw [List.mem_singleton.mp hi] at hij
      exact absurd hij.symm (hnew j hj)
    · rw [List.mem_singleton.mp hi, List.mem_singleton.mp hj]

end Append

theorem sound_request {s : State κ} {answered : List ℕ} (h : Sound s answered) {k : κ}
    {early : Option Bool} (hvalid : Valid s (.request k early)) :
    Sound (step s (.request k early)) (answered ++ out s (.request k early)) := by
  rcases request_cases h.stored hvalid with
    ⟨hk, hstep, hout⟩ | ⟨hk, -, hstep, hout⟩ | ⟨hk, -, hstep, hout⟩ | ⟨hk, -, hstep, hout⟩
  · rw [hstep]
    refine sound_append h (Set.insert_subset hk subset_rfl) h.stored h.owed_stored ?_
    rcases hout with ⟨-, hout⟩ | ⟨-, hout⟩
    · rw [hout]
      simp
    · rw [hout]
      simp
  · rw [hstep, hout, List.append_nil]
    exact sound_append_owed h hk
  · rw [hstep, hout]
    exact sound_append h subset_rfl (h.stored.trans (Set.subset_insert k s.made)) h.owed_stored
      (by simp)
  · rw [hstep, hout]
    refine sound_append h subset_rfl (Set.insert_subset_insert h.stored) ?_ (by simp)
    intro i hi k' hk' hin
    rcases Set.mem_insert_iff.mp hin with rfl | hin
    · exact hk (h.requests i k' hk')
    · exact h.owed_stored i hi k' hk' hin

theorem sound_step {s : State κ} {answered : List ℕ} (h : Sound s answered) {e : Event κ}
    (hvalid : Valid s e) : Sound (step s e) (answered ++ out s e) := by
  cases e with
  | request k early => exact sound_request h hvalid
  | touch k =>
    rw [out_touch, List.append_nil]
    exact { h with
      stored := h.stored.trans (Set.subset_insert k s.made)
      requests := fun i k' hk' => Set.mem_insert_of_mem _ (h.requests i k' hk') }
  | deliver i full =>
    have hi : i ∈ s.owed := hvalid
    have hrest : ∀ j ∈ s.owed.erase i, j ∈ s.owed ∧ j ≠ i := fun j hj =>
      (h.owed_nodup.mem_erase_iff.mp hj).symm
    refine ⟨?_, h.requests, fun j hj => h.owed_lt j (hrest j hj).1, h.owed_nodup.erase i, ?_,
      fun j hj j' hj' => h.owed_inj j (hrest j hj).1 j' (hrest j' hj').1, ?_⟩
    · rintro k (hk | ⟨-, hk⟩)
      · exact h.stored hk
      · exact h.requests i k hk
    · rintro j hj k hk (hin | ⟨-, hi'⟩)
      · exact h.owed_stored j (hrest j hj).1 k hk hin
      · exact (hrest j hj).2 (h.owed_inj j (hrest j hj).1 i hi (hk.trans hi'.symm))
    · intro j hj
      rcases List.mem_append.mp hj with hj | hj
      · exact h.answered_lt j hj
      · rw [List.mem_singleton.mp hj]
        exact h.owed_lt i hi
  | idle =>
    rw [out_idle, step_idle, List.append_nil]
    exact h

/-! ## Answered once -/

/-- No request was answered twice, and those that are owed a callback were not answered. -/
structure Once (s : State κ) (answered : List ℕ) : Prop where
  nodup : answered.Nodup
  owed : ∀ i ∈ s.owed, i ∉ answered

/-- The callback does not bring the item before the call returns. -/
def NotEarly (_ : State κ) (e : Event κ) : Prop := ∀ k, e ≠ .request k (some true)

/-- One more answer, to a request that had none. -/
theorem nodup_concat {answered : List ℕ} (h : answered.Nodup) {i : ℕ} (hi : i ∉ answered) :
    (answered ++ [i]).Nodup := by
  refine List.nodup_append.mpr ⟨h, List.nodup_singleton i, fun j hj j' hj' heq => hi ?_⟩
  rwa [← List.mem_singleton.mp hj', ← heq]

theorem once_step {s : State κ} {answered : List ℕ} (h : Sound s answered)
    (honce : Once s answered) {e : Event κ} (hvalid : Valid s e) (hearly : NotEarly s e) :
    Once (step s e) (answered ++ out s e) := by
  have hnew : s.requests.length ∉ answered := fun hi => (h.answered_lt _ hi).false
  have howed : ∀ i ∈ s.owed, i ∉ answered ++ [s.requests.length] := by
    intro i hi hmem
    rcases List.mem_append.mp hmem with hmem | hmem
    · exact honce.owed i hi hmem
    · exact (h.owed_lt i hi).ne (List.mem_singleton.mp hmem)
  cases e with
  | request k early =>
    rcases request_cases h.stored hvalid with
      ⟨-, hstep, hout⟩ | ⟨-, -, hstep, hout⟩ | ⟨-, -, hstep, hout⟩ | ⟨-, rfl, -⟩
    · rw [hstep]
      rcases hout with ⟨-, hout⟩ | ⟨-, hout⟩
      · rw [hout]
        exact ⟨nodup_concat honce.nodup hnew, howed⟩
      · rw [hout, List.append_nil]
        exact ⟨honce.nodup, honce.owed⟩
    · rw [hstep, hout, List.append_nil]
      refine ⟨honce.nodup, fun i hi => ?_⟩
      rcases List.mem_append.mp hi with hi | hi
      · exact honce.owed i hi
      · rwa [List.mem_singleton.mp hi]
    · rw [hstep, hout]
      exact ⟨nodup_concat honce.nodup hnew, howed⟩
    · exact absurd rfl (hearly k)
  | touch k =>
    rw [out_touch, List.append_nil]
    exact ⟨honce.nodup, honce.owed⟩
  | deliver i full =>
    refine ⟨nodup_concat honce.nodup (honce.owed i hvalid), fun j hj hmem => ?_⟩
    obtain ⟨hne, hj⟩ := h.owed_nodup.mem_erase_iff.mp hj
    rcases List.mem_append.mp hmem with hmem | hmem
    · exact honce.owed j hj hmem
    · exact hne (List.mem_singleton.mp hmem)
  | idle =>
    rw [out_idle, step_idle, List.append_nil]
    exact honce

theorem nodup_append_emitted_iff {s : State κ} {answered : List ℕ} (h : Sound s answered)
    (honce : Once s answered) {es : List (Event κ)} (hvalid : StepsMeet step Valid s es) :
    (answered ++ emitted step out s es).Nodup ↔ StepsMeet step NotEarly s es := by
  induction es generalizing s answered with
  | nil =>
    rw [emitted_nil, List.append_nil]
    exact iff_of_true honce.nodup trivial
  | cons e es ih =>
    rw [emitted_cons, ← List.append_assoc, stepsMeet_cons]
    by_cases hearly : NotEarly s e
    · rw [ih (sound_step h hvalid.1) (once_step h honce hvalid.1 hearly) hvalid.2]
      exact (and_iff_right hearly).symm
    · refine iff_of_false (fun hnodup => ?_) fun hmeet => hearly hmeet.1
      obtain ⟨k, rfl⟩ : ∃ k, e = .request k (some true) := by
        simpa [NotEarly] using hearly
      -- the callback answers, and so does the look into the cache
      have htwice : out s (.request k (some true)) = [s.requests.length, s.requests.length] := by
        simp [out]
      have hout := ((List.nodup_append.mp hnodup).1 |> List.nodup_append.mp).2.1
      rw [htwice] at hout
      simp at hout

/-- **No request is answered twice**, exactly when no callback brings an item before the call
returns. -/
theorem nodup_emitted_iff (made : Set κ) {es : List (Event κ)}
    (hvalid : StepsMeet step Valid (start made) es) :
    (emitted step out (start made) es).Nodup ↔ StepsMeet step NotEarly (start made) es :=
  nodup_append_emitted_iff (sound_start made)
    ⟨List.nodup_nil, fun _ h => absurd h List.not_mem_nil⟩ hvalid

/-! ## Nothing is lost -/

/-- Every request was answered, and every item that was made is in the cache. -/
structure Complete (s : State κ) (answered : List ℕ) : Prop where
  requests : ∀ i, i < s.requests.length → i ∈ answered
  made : s.made ⊆ s.stored

/-- What is not there yet is still owed. -/
structure Kept (s : State κ) (answered : List ℕ) : Prop where
  requests : ∀ i, i < s.requests.length → i ∈ answered ∨ i ∈ s.owed
  made : ∀ k ∈ s.made, k ∈ s.stored ∨ ∃ i ∈ s.owed, s.requests[i]? = some k

/-- The step loses nothing: what is asked for again is in the cache, no item is made without a
callback, and every callback brings its item. -/
def Lossless (s : State κ) : Event κ → Prop
  | .request k early => (k ∈ s.made → k ∈ s.stored) ∧ early ≠ some false
  | .touch k => k ∈ s.made
  | .deliver _ full => full = true
  | .idle => True

/-- A request that is answered or owed a callback, for an item that is in the cache or owed
with it, leaves what was kept before. -/
theorem kept_append {s : State κ} {answered : List ℕ} (h : Sound s answered)
    (hkept : Kept s answered) {k : κ} {made stored : Set κ} {owed outs : List ℕ}
    (hmade : made ⊆ insert k s.made) (hstored : s.stored ⊆ stored) (howed : s.owed ⊆ owed)
    (hrequest : s.requests.length ∈ outs ∨ s.requests.length ∈ owed)
    (hitem : k ∈ stored ∨ s.requests.length ∈ owed) :
    Kept ⟨s.requests ++ [k], made, stored, owed⟩ (answered ++ outs) where
  requests i hi := by
    rw [List.length_append, List.length_singleton] at hi
    rcases Nat.lt_succ_iff_lt_or_eq.mp hi with hi | rfl
    · exact (hkept.requests i hi).imp (List.mem_append_left outs) fun hi => howed hi
    · exact hrequest.imp_left (List.mem_append_right answered)
  made k' hk' := by
    rcases Set.mem_insert_iff.mp (hmade hk') with rfl | hk'
    · exact hitem.imp_right fun hi => ⟨_, hi, List.getElem?_concat_length⟩
    · rcases hkept.made k' hk' with hin | ⟨i, hi, hreq⟩
      · exact Or.inl (hstored hin)
      · exact Or.inr ⟨i, howed hi, by rwa [getElem?_append_of_lt (h.owed_lt i hi)]⟩

theorem kept_request {s : State κ} {answered : List ℕ} (h : Sound s answered)
    (hkept : Kept s answered) {k : κ} {early : Option Bool} (hvalid : Valid s (.request k early))
    (hless : Lossless s (.request k early)) :
    Kept (step s (.request k early)) (answered ++ out s (.request k early)) := by
  rcases request_cases h.stored hvalid with
    ⟨hk, hstep, hout⟩ | ⟨hk, -, hstep, hout⟩ | ⟨-, rfl, -⟩ | ⟨hk, -, hstep, hout⟩
  · rw [hstep]
    rcases hout with ⟨hin, hout⟩ | ⟨hin, -⟩
    · rw [hout]
      exact kept_append h hkept (Set.subset_insert k s.made) subset_rfl
        (List.Subset.refl _) (Or.inl List.mem_cons_self) (Or.inl hin)
    · exact absurd (hless.1 hk) hin
  · have hlast : s.requests.length ∈ s.owed ++ [s.requests.length] :=
      List.mem_append_right _ List.mem_cons_self
    rw [hstep, hout]
    exact kept_append h hkept subset_rfl subset_rfl (List.subset_append_left _ _)
      (Or.inr hlast) (Or.inr hlast)
  · exact absurd rfl hless.2
  · rw [hstep, hout]
    exact kept_append h hkept subset_rfl (Set.subset_insert k s.stored)
      (List.Subset.refl _) (Or.inl List.mem_cons_self) (Or.inl (Set.mem_insert k s.stored))

theorem kept_step {s : State κ} {answered : List ℕ} (h : Sound s answered)
    (hkept : Kept s answered) {e : Event κ} (hvalid : Valid s e) (hless : Lossless s e) :
    Kept (step s e) (answered ++ out s e) := by
  cases e with
  | request k early => exact kept_request h hkept hvalid hless
  | touch k =>
    rw [out_touch, List.append_nil]
    refine ⟨hkept.requests, fun k' hk' => hkept.made k' ?_⟩
    rwa [show (step s (.touch k)).made = insert k s.made from rfl,
      Set.insert_eq_of_mem hless] at hk'
  | deliver i full =>
    obtain rfl : full = true := hless
    refine ⟨fun j hj => ?_, fun k hk => ?_⟩
    · rcases hkept.requests j hj with hj | hj
      · exact Or.inl (List.mem_append_left _ hj)
      · by_cases hij : j = i
        · exact Or.inl (List.mem_append_right _ (List.mem_singleton.mpr hij))
        · exact Or.inr ((List.mem_erase_of_ne hij).mpr hj)
    · rcases hkept.made k hk with hin | ⟨j, hj, hreq⟩
      · exact Or.inl (Or.inl hin)
      · by_cases hij : j = i
        · exact Or.inl (Or.inr ⟨rfl, hij ▸ hreq⟩)
        · exact Or.inr ⟨j, (List.mem_erase_of_ne hij).mpr hj, hreq⟩
  | idle =>
    rw [out_idle, step_idle, List.append_nil]
    exact hkept

/-- An item was made that will not come, or a request was made that will not be answered. -/
def Lost (s : State κ) (answered : List ℕ) : Prop :=
  (∃ k ∈ s.made, k ∉ s.stored ∧ ∀ i ∈ s.owed, s.requests[i]? ≠ some k) ∨
    ∃ i, i < s.requests.length ∧ i ∉ answered ∧ i ∉ s.owed

theorem not_complete_of_lost {s : State κ} {answered : List ℕ} (h : Lost s answered) :
    ¬ Complete s answered := by
  rintro hc
  rcases h with ⟨k, hk, hin, -⟩ | ⟨i, hi, hans, -⟩
  · exact hin (hc.made hk)
  · exact hans (hc.requests i hi)

/-- An item that is made without being brought is lost. -/
theorem lost_of_new {s : State κ} {answered outs : List ℕ} (h : Sound s answered) {k : κ}
    (hk : k ∉ s.made) {requests : List κ}
    (hrequests : ∀ i ∈ s.owed, requests[i]? = s.requests[i]?) :
    Lost ⟨requests, insert k s.made, s.stored, s.owed⟩ outs := by
  refine Or.inl ⟨k, Set.mem_insert _ _, fun hin => hk (h.stored hin), fun i hi hreq => hk ?_⟩
  exact h.requests i k ((hrequests i hi).symm.trans hreq)

/-- **A step that loses something loses it.** -/
theorem lost_of_not_lossless {s : State κ} {answered : List ℕ} (h : Sound s answered)
    {e : Event κ} (hvalid : Valid s e) (hless : ¬ Lossless s e) :
    Lost (step s e) (answered ++ out s e) := by
  cases e with
  | request k early =>
    rcases request_cases h.stored hvalid with
      ⟨hk, hstep, hout⟩ | ⟨hk, rfl, -⟩ | ⟨hk, -, hstep, hout⟩ | ⟨hk, rfl, -⟩
    · obtain rfl : early = none := hvalid hk
      rcases hout with ⟨hin, -⟩ | ⟨-, hout⟩
      · exact absurd ⟨fun _ => hin, by simp⟩ hless
      · rw [hstep, hout, List.append_nil]
        refine Or.inr ⟨s.requests.length, by simp, fun hi => ?_, fun hi => ?_⟩
        · exact (h.answered_lt _ hi).false
        · exact (h.owed_lt _ hi).false
    · exact absurd ⟨fun hin => absurd hin hk, by simp⟩ hless
    · rw [hstep]
      exact lost_of_new h hk fun i hi => getElem?_append_of_lt (h.owed_lt i hi)
    · exact absurd ⟨fun hin => absurd hin hk, by simp⟩ hless
  | touch k => exact lost_of_new h hless fun _ _ => rfl
  | deliver i full =>
    obtain rfl : full = false := by simpa [Lossless] using hless
    have hi : i ∈ s.owed := hvalid
    have hlt := h.owed_lt i hi
    refine Or.inl ⟨s.requests[i], h.requests i _ (List.getElem?_eq_getElem hlt), ?_, ?_⟩
    · rintro (hin | ⟨hfull, -⟩)
      · exact h.owed_stored i hi _ (List.getElem?_eq_getElem hlt) hin
      · exact Bool.noConfusion hfull
    · intro j hj hreq
      obtain ⟨hne, hj⟩ := h.owed_nodup.mem_erase_iff.mp hj
      exact hne (h.owed_inj j hj i hi (hreq.trans (List.getElem?_eq_getElem hlt).symm))
  | idle => exact absurd trivial hless

/-- An item that will not come does not come by a step. -/
theorem lost_item_step {s : State κ} {answered : List ℕ} (h : Sound s answered) {k : κ}
    (hk : k ∈ s.made) (hin : k ∉ s.stored) (hown : ∀ i ∈ s.owed, s.requests[i]? ≠ some k)
    {e : Event κ} (hvalid : Valid s e) :
    k ∈ (step s e).made ∧ k ∉ (step s e).stored ∧
      ∀ i ∈ (step s e).owed, (step s e).requests[i]? ≠ some k := by
  cases e with
  | request k' early =>
    obtain ⟨howed, hstored, -⟩ := request_bounds h.stored hvalid
    refine ⟨Set.mem_insert_of_mem _ hk, fun hin' => ?_, fun i hi hreq => ?_⟩
    · rcases hstored k hin' with hin' | ⟨hk', rfl⟩
      · exact hin hin'
      · exact hk' hk
    · have hreq : (s.requests ++ [k'])[i]? = some k := hreq
      rcases howed i hi with hi | ⟨hk', rfl⟩
      · rw [getElem?_append_of_lt (h.owed_lt i hi)] at hreq
        exact hown i hi hreq
      · rw [List.getElem?_concat_length] at hreq
        exact hk' (Option.some.inj hreq ▸ hk)
  | touch k' => exact ⟨Set.mem_insert_of_mem _ hk, hin, hown⟩
  | deliver i full =>
    refine ⟨hk, ?_, fun j hj => hown j (List.mem_of_mem_erase hj)⟩
    rintro (hin' | ⟨-, hreq⟩)
    · exact hin hin'
    · exact hown i hvalid hreq
  | idle => exact ⟨hk, hin, hown⟩

/-- A request that will not be answered is not answered by a step. -/
theorem lost_request_step {s : State κ} {answered : List ℕ} (h : Sound s answered) {i : ℕ}
    (hi : i < s.requests.length) (hans : i ∉ answered) (hown : i ∉ s.owed) {e : Event κ}
    (hvalid : Valid s e) :
    i < (step s e).requests.length ∧ i ∉ answered ++ out s e ∧ i ∉ (step s e).owed := by
  have hlast : ∀ outs : List ℕ, (∀ j ∈ outs, j ≠ i) → i ∉ answered ++ outs := by
    intro outs houts hmem
    rcases List.mem_append.mp hmem with hmem | hmem
    · exact hans hmem
    · exact houts i hmem rfl
  cases e with
  | request k early =>
    obtain ⟨howed, -, hout⟩ := request_bounds h.stored hvalid
    have hlt : i < (s.requests ++ [k]).length := by
      rw [List.length_append]
      omega
    refine ⟨hlt, hlast _ fun j hj => ?_, fun hmem => ?_⟩
    · rw [hout j hj]
      exact hi.ne'
    · rcases howed i hmem with hmem | ⟨-, rfl⟩
      · exact hown hmem
      · exact hi.false
  | touch k => exact ⟨hi, hlast [] (by simp), hown⟩
  | deliver j full =>
    refine ⟨hi, hlast [j] ?_, fun hmem => hown (List.mem_of_mem_erase hmem)⟩
    rw [List.forall_mem_singleton]
    rintro rfl
    exact hown hvalid
  | idle => exact ⟨hi, hlast [] (by simp), hown⟩

/-- **What is lost stays lost.** -/
theorem lost_step {s : State κ} {answered : List ℕ} (h : Sound s answered)
    (hlost : Lost s answered) {e : Event κ} (hvalid : Valid s e) :
    Lost (step s e) (answered ++ out s e) := by
  rcases hlost with ⟨k, hk, hin, hown⟩ | ⟨i, hi, hans, hown⟩
  · exact Or.inl ⟨k, lost_item_step h hk hin hown hvalid⟩
  · exact Or.inr ⟨i, lost_request_step h hi hans hown hvalid⟩

theorem lost_exec {s : State κ} {answered : List ℕ} (h : Sound s answered)
    (hlost : Lost s answered) {es : List (Event κ)} (hvalid : StepsMeet step Valid s es) :
    Lost (exec step s es) (answered ++ emitted step out s es) :=
  (invariant_emitted_of_stepsMeet (I := fun s os => Sound s os ∧ Lost s os)
    (fun _ _ _ hi hs => ⟨sound_step hs.1 hi, lost_step hs.1 hs.2 hi⟩) hvalid ⟨h, hlost⟩).2

theorem complete_append_emitted_iff {s : State κ} {answered : List ℕ} (h : Sound s answered)
    (hkept : Kept s answered) {es : List (Event κ)} (hvalid : StepsMeet step Valid s es)
    (hquiet : (exec step s es).owed = []) :
    Complete (exec step s es) (answered ++ emitted step out s es) ↔
      StepsMeet step Lossless s es := by
  induction es generalizing s answered with
  | nil =>
    have hquiet : s.owed = [] := hquiet
    rw [emitted_nil, List.append_nil]
    refine iff_of_true ⟨fun i hi => ?_, fun k hk => ?_⟩ trivial
    · exact (hkept.requests i hi).resolve_right (by simp [hquiet])
    · refine (hkept.made k hk).resolve_right ?_
      rintro ⟨i, hi, -⟩
      rw [hquiet] at hi
      exact List.not_mem_nil hi
  | cons e es ih =>
    have hnext := sound_step h hvalid.1
    rw [exec_cons, emitted_cons, ← List.append_assoc, stepsMeet_cons]
    by_cases hless : Lossless s e
    · rw [ih hnext (kept_step h hkept hvalid.1 hless) hvalid.2 hquiet]
      exact (and_iff_right hless).symm
    · refine iff_of_false (fun hc => ?_) fun hmeet => hless hmeet.1
      exact not_complete_of_lost
        (lost_exec hnext (lost_of_not_lossless h hvalid.1 hless) hvalid.2) hc

/-- **Nothing is lost**: in a state where no callback is owed, every request has been answered
and every item that was made is in the cache, exactly when no item was made before the start
and every step of the run was lossless. -/
theorem complete_iff (made : Set κ) {es : List (Event κ)}
    (hvalid : StepsMeet step Valid (start made) es)
    (hquiet : (exec step (start made) es).owed = []) :
    Complete (exec step (start made) es) (emitted step out (start made) es) ↔
      made = ∅ ∧ StepsMeet step Lossless (start made) es := by
  by_cases hmade : made = ∅
  · subst hmade
    rw [and_iff_right rfl]
    exact complete_append_emitted_iff (sound_start ∅)
      ⟨fun _ h => absurd h (by simp [start]), fun _ h => absurd h (Set.notMem_empty _)⟩ hvalid
      hquiet
  · obtain ⟨k, hk⟩ := Set.nonempty_iff_ne_empty.mpr hmade
    refine iff_of_false (fun hc => ?_) fun h => hmade h.1
    exact not_complete_of_lost
      (lost_exec (sound_start made) (Or.inl ⟨k, hk, Set.notMem_empty k,
        fun _ h => absurd h List.not_mem_nil⟩) hvalid) hc

end CallbackCache
