import Mathlib.Data.List.Nodup
import Mathlib.Data.List.Perm.Basic
import Nacapp.Lib.Transitions

/-!
# A ledger of requests

Requests that are opened, stay outstanding for a while, and are closed in any order with an
outcome.  The ledger numbers the requests as they are opened, so that every closing can be
traced to its request, however the list of the outstanding ones shifts in the meantime.

* `Accounted`: the numbers outstanding and the numbers closed are those of the requests, each
  once.  Every run keeps it (`accounted_run`).
* `Accounted.closedOnce`: when nothing is outstanding, every request was closed exactly once.
* `ofNumber`: the outputs that belong to one request.
* `ofNumber_flatMap_numbered`: when every closing puts out something under its number, the
  outputs of a request are those of its closings.
-/

namespace Ledger

open Transitions

variable {ρ α ω : Type*}

/-! ## Opening and closing -/

/-- A request is opened, or the outstanding request of that index is closed. -/
inductive Event (ρ α : Type*) where
  | opened (request : ρ)
  | closed (index : ℕ) (outcome : α)

/-- All requests, in the order they were opened, and the outstanding ones with their
numbers. -/
structure State (ρ : Type*) where
  requests : List ρ := []
  outstanding : List (ℕ × ρ) := []

/-- The request of that number was closed. -/
structure Closing (ρ α : Type*) where
  number : ℕ
  request : ρ
  outcome : α

def step (s : State ρ) : Event ρ α → State ρ
  | .opened r => ⟨s.requests ++ [r], s.outstanding ++ [(s.requests.length, r)]⟩
  | .closed index _ => { s with outstanding := s.outstanding.eraseIdx index }

/-- What an event closes.  An index without an outstanding request closes none. -/
def closing (s : State ρ) : Event ρ α → List (Closing ρ α)
  | .opened _ => []
  | .closed index a => (s.outstanding[index]?.map fun e => ⟨e.1, e.2, a⟩).toList

/-- The ledger after a run, from an empty one. -/
def after (events : List (Event ρ α)) : State ρ := exec step {} events

/-- The closings of a run, in order. -/
def closings (events : List (Event ρ α)) : List (Closing ρ α) := emitted step closing {} events

/-! ## Every request is accounted for -/

/-- **Conservation.**  The numbers of the outstanding requests and of the closings so far are
the numbers of the requests, each once; and each of them stands for its request. -/
structure Accounted (s : State ρ) (cs : List (Closing ρ α)) : Prop where
  numbers : (s.outstanding.map Prod.fst ++ cs.map Closing.number).Perm
    (List.range s.requests.length)
  outstanding : ∀ e ∈ s.outstanding, s.requests[e.1]? = some e.2
  closed : ∀ c ∈ cs, s.requests[c.number]? = some c.request

theorem Accounted.opened {s : State ρ} {cs : List (Closing ρ α)} (h : Accounted s cs) (r : ρ) :
    Accounted (step (α := α) s (.opened r)) cs := by
  have hkeeps : ∀ {k : ℕ} {q : ρ}, s.requests[k]? = some q →
      (s.requests ++ [r])[k]? = some q := by
    intro k q hk
    rw [List.getElem?_append_left (List.getElem?_eq_some_iff.mp hk).1, hk]
  refine ⟨?_, ?_, fun c hc => hkeeps (h.closed c hc)⟩
  · have hnumbers : ((s.outstanding ++ [(s.requests.length, r)]).map Prod.fst ++
        cs.map Closing.number).Perm (List.range (s.requests.length + 1)) := by
      rw [List.map_append, List.append_assoc, List.range_succ]
      refine ((List.perm_append_comm).append_left _).trans ?_
      rw [← List.append_assoc]
      exact h.numbers.append_right _
    rwa [step, List.length_append, List.length_singleton]
  · intro e he
    rcases List.mem_append.mp he with he | he
    · exact hkeeps (h.outstanding e he)
    · rw [List.mem_singleton.mp he, step]
      exact List.getElem?_concat_length

theorem Accounted.ended {s : State ρ} {cs : List (Closing ρ α)} (h : Accounted s cs) (index : ℕ)
    (a : α) : Accounted (step s (.closed index a)) (cs ++ closing s (.closed index a)) := by
  rw [closing]
  cases he : s.outstanding[index]? with
  | none =>
    have hlen := List.getElem?_eq_none_iff.mp he
    rw [step, List.eraseIdx_of_length_le hlen, Option.map_none, Option.toList_none,
      List.append_nil]
    exact h
  | some e =>
    obtain ⟨hindex, hget⟩ := List.getElem?_eq_some_iff.mp he
    have hmem : e ∈ s.outstanding := List.mem_of_getElem? he
    refine ⟨?_, fun q hq => h.outstanding q (List.eraseIdx_subset hq), ?_⟩
    · -- the number moves from the outstanding ones to the closed ones
      have hmoves : s.outstanding.Perm (e :: s.outstanding.eraseIdx index) := by
        rw [← hget]
        exact (List.getElem_cons_eraseIdx_perm hindex).symm
      refine List.Perm.trans ?_ h.numbers
      rw [step, List.map_append, Option.map_some, Option.toList_some, List.map_singleton,
        ← List.append_assoc]
      refine (List.perm_append_singleton _ _).trans ?_
      have hnumber : (e.1 :: (s.outstanding.eraseIdx index).map Prod.fst).Perm
          (s.outstanding.map Prod.fst) := (hmoves.map Prod.fst).symm
      exact hnumber.append_right _
    · intro c hc
      rcases List.mem_append.mp hc with hc | hc
      · exact h.closed c hc
      · rw [Option.map_some, Option.toList_some] at hc
        rw [List.mem_singleton.mp hc]
        exact h.outstanding e hmem

/-- **Every request is accounted for** at the end of every run. -/
theorem accounted_run (events : List (Event ρ α)) : Accounted (after events) (closings events) := by
  have hstart : Accounted ({} : State ρ) ([] : List (Closing ρ α)) :=
    ⟨List.Perm.refl _, by simp, by simp⟩
  refine invariant_emitted ?_ hstart events
  rintro s cs (r | ⟨index, a⟩) h
  · rw [closing, List.append_nil]
    exact h.opened r
  · exact h.ended index a

/-- **When nothing is outstanding, every request was closed exactly once.** -/
theorem Accounted.closedOnce {s : State ρ} {cs : List (Closing ρ α)} (h : Accounted s cs)
    (hnone : s.outstanding = []) {k : ℕ} {r : ρ} (hk : s.requests[k]? = some r) :
    ∃ a, cs.filter (fun c => c.number == k) = [⟨k, r, a⟩] := by
  have hnumbers := h.numbers
  rw [hnone, List.map_nil, List.nil_append] at hnumbers
  have hlt : k < s.requests.length := (List.getElem?_eq_some_iff.mp hk).1
  have hfiltered : (cs.filter (fun c => c.number == k)).length = 1 := by
    have hcount := hnumbers.count_eq k
    rw [List.count_eq_one_of_mem List.nodup_range (List.mem_range.mpr hlt), List.count,
      List.countP_map, List.countP_eq_length_filter] at hcount
    exact hcount
  obtain ⟨c, hc⟩ := List.length_eq_one_iff.mp hfiltered
  obtain ⟨hmem, hnumber⟩ := List.mem_filter.mp (hc ▸ List.mem_singleton_self c)
  obtain rfl := beq_iff_eq.mp hnumber
  obtain rfl := Option.some.inj (hk.symm.trans (h.closed c hmem))
  exact ⟨c.outcome, hc⟩

/-! ## Outputs by number -/

/-- Something is put out under the number of a request. -/
def numbered (f : Closing ρ α → List ω) (c : Closing ρ α) : List (ℕ × ω) :=
  (f c).map (Prod.mk c.number)

/-- What was put out under that number. -/
def ofNumber (k : ℕ) (os : List (ℕ × ω)) : List ω :=
  (os.filter fun o => o.1 == k).map Prod.snd

theorem ofNumber_append (k : ℕ) (os ps : List (ℕ × ω)) :
    ofNumber k (os ++ ps) = ofNumber k os ++ ofNumber k ps := by
  rw [ofNumber, List.filter_append, List.map_append]
  rfl

theorem ofNumber_numbered (k : ℕ) (f : Closing ρ α → List ω) (c : Closing ρ α) :
    ofNumber k (numbered f c) = if c.number = k then f c else [] := by
  have hnumber : ∀ o ∈ numbered f c, o.1 = c.number := by
    intro o ho
    obtain ⟨w, -, rfl⟩ := List.mem_map.mp ho
    rfl
  rw [ofNumber]
  by_cases hk : c.number = k
  · rw [if_pos hk, List.filter_eq_self.mpr fun o ho => beq_iff_eq.mpr ((hnumber o ho).trans hk),
      numbered, List.map_map]
    exact List.map_id _
  · rw [if_neg hk, List.filter_eq_nil_iff.mpr, List.map_nil]
    exact fun o ho heq => hk ((hnumber o ho).symm.trans (beq_iff_eq.mp heq))

/-- **The outputs of a request** are those of its closings. -/
theorem ofNumber_flatMap_numbered (k : ℕ) (f : Closing ρ α → List ω) (cs : List (Closing ρ α)) :
    ofNumber k (cs.flatMap (numbered f)) = (cs.filter fun c => c.number == k).flatMap f := by
  induction cs with
  | nil => rfl
  | cons c cs ih =>
    rw [List.flatMap_cons, ofNumber_append, ofNumber_numbered, ih, List.filter_cons]
    by_cases hk : c.number = k
    · rw [if_pos hk, if_pos (beq_iff_eq.mpr hk), List.flatMap_cons]
    · rw [if_neg hk, if_neg fun h => hk (beq_iff_eq.mp h), List.nil_append]

end Ledger
