import Mathlib.Data.List.GetD
import Mathlib.Data.List.Nodup
import Nacapp.Ndn.Packet
import Nacapp.Lib.Transitions

/-!
# Expressing an Interest with retries

`expressInterest` and `onTimeout` (`shared/src/ndn-util.cpp`).  A call stores its retry count
on the heap and expresses the Interest with callbacks that share the count through a pointer;
the callback for a timeout takes one off the count and expresses the Interest again, bound to
the same count, until the count is used up.

A run interleaves any number of calls with what the face reports for their transmissions: one
outcome for each of them, in any order.  The callbacks handed to a call are told apart by the
number of the call.  The half second `onTimeout` sleeps for is left out, and so is the log.

The counter of a call belongs to it alone and it has at most one transmission under way
(`Separate`), so a run of all calls is, for each of them, a run of a machine that knows of no
other (`projection_call`).
-/

namespace Nacapp.Express

open Transitions

/-! ## The code -/

/-- `ndn::lp::Nack`.  One that is made without a reason has `NackReason::NONE`. -/
structure Nack where
  reason : ℕ := 0
  deriving DecidableEq

/-- How a transmission ends. -/
inductive Outcome where
  | data (d : Data)
  | nack (n : Nack)
  | timeout
  deriving DecidableEq

/-- A call, or the outcome of one of the transmissions under way. -/
inductive Event where
  | express (interest : Interest) (retry : Int32)
  | outcome (index : ℕ) (o : Outcome)

/-- What is done on behalf of a call: the Interest is put on the face, or one of the callbacks
of the caller is called. -/
inductive Report where
  | transmit (interest : Interest)
  | onData (interest : Interest) (d : Data)
  | onNack (interest : Interest) (n : Nack)
  deriving DecidableEq

/-- An Interest the face has expressed, with what is bound to its callbacks: the pointer to the
count, and the callbacks of the caller. -/
structure Transmission where
  interest : Interest
  retryCount : ℕ
  caller : ℕ
  deriving DecidableEq

structure State where
  calls : ℕ := 0
  heap : List Int32 := []
  pending : List Transmission := []

/-- What is done, and for which call. -/
abbrev Reports := List (ℕ × Report)

/-- `f->expressInterest(interest, onData, onNack, retry)`. -/
def State.transmit (s : State) (t : Transmission) : State × Reports :=
  ({ s with pending := s.pending ++ [t] }, [(t.caller, .transmit t.interest)])

/-- `*retryCount`. -/
def State.count (s : State) (t : Transmission) : Int32 := s.heap.getD t.retryCount 0

/-- `shared_ptr<int> retryCount = make_shared<int>(retry)`, bound to the callbacks. -/
def expressInterest (s : State) (interest : Interest) (retry : Int32) : State × Reports :=
  State.transmit { s with calls := s.calls + 1, heap := s.heap ++ [retry] }
    ⟨interest, s.heap.length, s.calls⟩

/-- One less.  Below the smallest `int` C++ leaves the result undefined.  It is `overflow` here, any
value, and no failure as in `encrypt_aes`: a count that is not positive is taken down once and never
read again, so that nothing depends on what it becomes. -/
def decrement (overflow count : Int32) : Int32 :=
  if count = Int32.minValue then overflow else count - 1

variable (overflow : Int32)

/-- The count is taken down in any case, and compared as it was before. -/
def onTimeout (s : State) (t : Transmission) : State × Reports :=
  let s' := { s with heap := s.heap.set t.retryCount (decrement overflow (s.count t)) }
  if s.count t > 0 then s'.transmit t
  else (s', [(t.caller, .onNack t.interest {})])

/-- The face calls back for a transmission. -/
def callBack (s : State) (t : Transmission) : Outcome → State × Reports
  | .data d => (s, [(t.caller, .onData t.interest d)])
  | .nack n => (s, [(t.caller, .onNack t.interest n)])
  | .timeout => onTimeout overflow s t

/-- One event. -/
def react (s : State) : Event → State × Reports
  | .express interest retry => expressInterest s interest retry
  | .outcome index o =>
    match s.pending[index]? with
    | some t => callBack overflow { s with pending := s.pending.eraseIdx index } t o
    | none => (s, [])

/-- The state after an event. -/
def step (s : State) (e : Event) : State := (react overflow s e).1

/-- What is done in an event. -/
def out (s : State) (e : Event) : Reports := (react overflow s e).2

/-- The state after the events of a run. -/
def run (es : List Event) : State := exec (step overflow) {} es

/-! ## One call by itself -/

/-- A call: it waits for the outcome of its transmission, with a count left, or one of its
callbacks has been called. -/
inductive Call where
  | waiting (interest : Interest) (count : Int32)
  | done

namespace Call

/-- The call after an outcome. -/
def step : Call → Outcome → Call
  | .waiting interest count, .timeout =>
    if count > 0 then .waiting interest (count - 1) else .done
  | .waiting _ _, _ => .done
  | .done, _ => .done

/-- What is done for the call. -/
def out : Call → Outcome → List Report
  | .waiting interest _, .data d => [.onData interest d]
  | .waiting interest _, .nack n => [.onNack interest n]
  | .waiting interest count, .timeout =>
    if count > 0 then [.transmit interest] else [.onNack interest {}]
  | .done, _ => []

/-- How often the call can still transmit. -/
def budget : Call → ℕ
  | .waiting _ count => count.toInt.toNat
  | .done => 0

/-- Transmissions under way. -/
def outstanding : Call → ℕ
  | .waiting _ _ => 1
  | .done => 0

end Call

/-- The transmissions among what is done. -/
def transmissions (rs : List Report) : ℕ :=
  rs.countP fun r => match r with
    | .transmit _ => true
    | _ => false

/-- The calls of callbacks among what is done. -/
def callbacks (rs : List Report) : List Report :=
  rs.filter fun r => match r with
    | .transmit _ => false
    | _ => true

@[simp] theorem transmissions_append (rs rs' : List Report) :
    transmissions (rs ++ rs') = transmissions rs + transmissions rs' := List.countP_append

@[simp] theorem callbacks_append (rs rs' : List Report) :
    callbacks (rs ++ rs') = callbacks rs ++ callbacks rs' := List.filter_append ..

/-- A count that is positive goes down by one. -/
theorem toInt_sub_one {count : Int32} (h : count > 0) : (count - 1).toInt = count.toInt - 1 := by
  have hpos : 0 < count.toInt := Int32.lt_iff_toInt_lt.mp h
  have hle : count.toInt ≤ 2147483647 := Int32.toInt_le count
  rw [Int32.toInt_sub, Int32.toInt_one]
  exact Int.bmod_eq_of_le_mul_two (by omega) (by omega)

theorem decrement_of_pos {count : Int32} (h : count > 0) :
    decrement overflow count = count - 1 := by
  refine if_neg ?_
  rintro rfl
  exact absurd (Int32.lt_iff_toInt_lt.mp h) (by decide)

namespace Call

/-- Every retransmission is paid for, and a timeout spends no more than that. -/
theorem step_budget (c : Call) (o : Outcome) :
    transmissions (c.out o) + (c.step o).budget ≤ c.budget ∧
      (o = .timeout → transmissions (c.out o) + (c.step o).budget = c.budget) := by
  cases c with
  | done => exact ⟨le_rfl, fun _ => rfl⟩
  | waiting interest count =>
    cases o with
    | data d => exact ⟨Nat.zero_le _, by simp⟩
    | nack n => exact ⟨Nat.zero_le _, by simp⟩
    | timeout =>
      suffices h : transmissions (out (.waiting interest count) .timeout) +
          (step (.waiting interest count) .timeout).budget =
            (Call.waiting interest count).budget from ⟨h.le, fun _ => h⟩
      rw [out, step]
      by_cases hpos : count > 0
      · have hint : 0 < count.toInt := Int32.lt_iff_toInt_lt.mp hpos
        rw [if_pos hpos, if_pos hpos, budget, budget, toInt_sub_one hpos]
        show 1 + (count.toInt - 1).toNat = count.toInt.toNat
        omega
      · have hint : count.toInt ≤ 0 := Int.not_lt.mp fun h => hpos (Int32.lt_iff_toInt_lt.mpr h)
        rw [if_neg hpos, if_neg hpos, budget, budget]
        show 0 + 0 = count.toInt.toNat
        omega

/-- The outcome is taken by the transmission under way, and either another one follows or a
callback is called. -/
theorem step_outstanding (c : Call) (o : Outcome) :
    (c.step o).outstanding + (callbacks (c.out o)).length = c.outstanding ∧
      transmissions (c.out o) = (c.step o).outstanding := by
  cases c with
  | done => exact ⟨rfl, rfl⟩
  | waiting interest count =>
    cases o with
    | data d => exact ⟨rfl, rfl⟩
    | nack n => exact ⟨rfl, rfl⟩
    | timeout =>
      rw [out, step]
      by_cases hpos : count > 0
      · rw [if_pos hpos, if_pos hpos]
        exact ⟨rfl, rfl⟩
      · rw [if_neg hpos, if_neg hpos]
        exact ⟨rfl, rfl⟩

/-- Every transmission but the one under way has had its outcome. -/
theorem length_add_outstanding {c : Call} {os : List Outcome}
    (h : StepsMeet step (fun c _ => c.outstanding = 1) c os) :
    os.length + (exec step c os).outstanding =
      transmissions (emitted step out c os) + c.outstanding := by
  induction os generalizing c with
  | nil => rfl
  | cons o os ih =>
    have hrest := ih h.2
    have hwaiting : c.outstanding = 1 := h.1
    have hstep := (step_outstanding c o).2
    rw [exec_cons, emitted_cons, List.length_cons, transmissions_append]
    omega

/-- A call for an Interest: what is left of it, and what has been done for it so far. -/
structure Retried (interest : Interest) (retry : Int32) (c : Call) (rs : List Report) :
    Prop where
  waits : ∀ i count, c = .waiting i count → i = interest
  transmits : ∀ i, .transmit i ∈ rs → i = interest
  spent : transmissions rs + c.budget ≤ retry.toInt.toNat + 1
  once : (callbacks rs).length + c.outstanding = 1

/-- A call whose transmissions have timed out so far. -/
structure TimedOut (interest : Interest) (retry : Int32) (c : Call) (rs : List Report) :
    Prop where
  spent : transmissions rs + c.budget = retry.toInt.toNat + 1
  nacked : callbacks rs = if c.outstanding = 0 then [.onNack interest {}] else []

variable {interest : Interest} {retry : Int32} {c : Call} {rs : List Report}

theorem Retried.start (interest : Interest) (retry : Int32) :
    Retried interest retry (.waiting interest retry) [.transmit interest] where
  waits := fun _ _ h => (waiting.inj h).1.symm
  transmits := fun _ h => Report.transmit.inj (List.mem_singleton.mp h)
  spent := (Nat.add_comm _ _).le
  once := rfl

/-- A call that waits has waited before, for the same Interest. -/
theorem eq_waiting_of_step {o : Outcome} {count : Int32}
    (h : c.step o = .waiting interest count) : ∃ n, c = .waiting interest n := by
  cases c with
  | done => exact absurd h (by simp [Call.step])
  | waiting i n =>
    cases o with
    | data d => exact absurd h (by simp [Call.step])
    | nack n => exact absurd h (by simp [Call.step])
    | timeout =>
      rw [Call.step] at h
      split at h
      · exact ⟨n, (waiting.inj h).1 ▸ rfl⟩
      · exact absurd h (by simp)

/-- Only a call that waits for an Interest transmits it. -/
theorem eq_waiting_of_transmit {o : Outcome} (h : .transmit interest ∈ c.out o) :
    ∃ n, c = .waiting interest n := by
  cases c with
  | done => exact absurd h List.not_mem_nil
  | waiting i n =>
    cases o with
    | data d => exact absurd h (by simp [Call.out])
    | nack n => exact absurd h (by simp [Call.out])
    | timeout =>
      rw [Call.out] at h
      split at h
      · exact ⟨n, Report.transmit.inj (List.mem_singleton.mp h) ▸ rfl⟩
      · exact absurd h (by simp)

theorem Retried.step (h : Retried interest retry c rs) (o : Outcome) :
    Retried interest retry (c.step o) (rs ++ c.out o) where
  waits := fun i count heq => by
    obtain ⟨n, hc⟩ := eq_waiting_of_step heq
    exact h.waits i n hc
  transmits := fun i hmem => by
    rcases List.mem_append.mp hmem with hmem | hmem
    · exact h.transmits i hmem
    · obtain ⟨n, hc⟩ := eq_waiting_of_transmit hmem
      exact h.waits i n hc
  spent := by
    have hstep := (step_budget c o).1
    have hspent := h.spent
    rw [transmissions_append]
    omega
  once := by
    have hstep := (step_outstanding c o).1
    have honce := h.once
    rw [callbacks_append, List.length_append]
    omega

theorem TimedOut.start (interest : Interest) (retry : Int32) :
    TimedOut interest retry (.waiting interest retry) [.transmit interest] where
  spent := Nat.add_comm _ _
  nacked := rfl

theorem TimedOut.step (hr : Retried interest retry c rs) (h : TimedOut interest retry c rs) :
    TimedOut interest retry (c.step .timeout) (rs ++ c.out .timeout) where
  spent := by
    have hstep := (step_budget c .timeout).2 rfl
    have hspent := h.spent
    rw [transmissions_append]
    omega
  nacked := by
    rw [callbacks_append, h.nacked]
    cases c with
    | done => rfl
    | waiting i count =>
      rw [hr.waits i count rfl, Call.step, Call.out]
      by_cases hpos : count > 0
      · rw [if_pos hpos, if_pos hpos]
        rfl
      · rw [if_neg hpos, if_neg hpos]
        rfl

/-- Whatever the outcomes. -/
theorem retried_emitted (interest : Interest) (retry : Int32)
    (os : List Outcome) :
    Retried interest retry (exec Call.step (.waiting interest retry) os)
      (.transmit interest :: emitted Call.step out (.waiting interest retry) os) :=
  invariant_emitted (fun _ _ o h => h.step o) (Retried.start interest retry) os

/-- When all of them are timeouts. -/
theorem timedOut_emitted (interest : Interest) (retry : Int32)
    {os : List Outcome} (h : ∀ o ∈ os, o = .timeout) :
    TimedOut interest retry (exec Call.step (.waiting interest retry) os)
      (.transmit interest :: emitted Call.step out (.waiting interest retry) os) := by
  have hstep : ∀ c rs o, o = Outcome.timeout →
      Retried interest retry c rs ∧ TimedOut interest retry c rs →
        Retried interest retry (Call.step c o) (rs ++ out c o) ∧
          TimedOut interest retry (Call.step c o) (rs ++ out c o) := by
    rintro c rs o rfl ⟨hr, ht⟩
    exact ⟨hr.step .timeout, ht.step hr⟩
  have hboth := invariant_emitted_of_stepsMeet (C := fun _ o => o = Outcome.timeout) hstep
    (stepsMeet_of_forall h (.waiting interest retry))
    ⟨Retried.start interest retry, TimedOut.start interest retry⟩
  exact hboth.2

/-- What has been done for a call, when its transmissions have had these outcomes and so many of
them are under way. -/
structure RetriesOnce (interest : Interest) (retry : Int32) (outcomes : List Outcome)
    (pending : ℕ) (rs : List Report) : Prop where
  same : ∀ i, .transmit i ∈ rs → i = interest
  answered : outcomes.length + pending = transmissions rs
  bounded : (transmissions rs : ℤ) ≤ max retry.toInt 0 + 1
  once : (callbacks rs).length + pending = 1
  timeouts : (∀ o ∈ outcomes, o = .timeout) → pending = 0 →
    (transmissions rs : ℤ) = max retry.toInt 0 + 1 ∧ callbacks rs = [.onNack interest {}]

theorem budget_eq_zero {c : Call} (h : c.outstanding = 0) : c.budget = 0 := by
  cases c with
  | waiting => exact absurd h Nat.one_ne_zero
  | done => rfl

/-- **A call by itself**, with the outcomes it takes. -/
theorem retriesOnce {os : List Outcome}
    (h : StepsMeet Call.step (fun c _ => c.outstanding = 1) (.waiting interest retry) os) :
    RetriesOnce interest retry os (exec Call.step (.waiting interest retry) os).outstanding
      (.transmit interest :: emitted Call.step out (.waiting interest retry) os) := by
  have hretried := retried_emitted interest retry os
  have hspent := hretried.spent
  refine ⟨hretried.transmits, ?_, by omega, hretried.once, fun htimeouts hdone => ?_⟩
  · rw [length_add_outstanding h]
    exact (List.countP_cons_of_pos rfl).symm
  · have htimed := timedOut_emitted interest retry htimeouts
    have hspent := htimed.spent
    have hnacked := htimed.nacked
    rw [budget_eq_zero hdone] at hspent
    rw [if_pos hdone] at hnacked
    exact ⟨by omega, hnacked⟩

end Call

/-! ## All calls together -/

/-- The transmissions of a call that are under way. -/
def State.pendingOf (s : State) (c : ℕ) : List Transmission :=
  s.pending.filter fun t => t.caller = c

/-- What a call sees of the state. -/
def State.callOf (s : State) (c : ℕ) : Call :=
  match s.pendingOf c with
  | [] => .done
  | t :: _ => .waiting t.interest (s.count t)

/-- The outcome a call sees in an event. -/
def outcomeOf (c : ℕ) (s : State) : Event → List Outcome
  | .express _ _ => []
  | .outcome index o =>
    match s.pending[index]? with
    | some t => if t.caller = c then [o] else []
    | none => []

/-- What is done for a call. -/
def reportOf (c : ℕ) (r : ℕ × Report) : List Report := if r.1 = c then [r.2] else []

/-- Every call has a counter of its own, and at most one transmission under way. -/
structure Separate (s : State) : Prop where
  counters : s.heap.length = s.calls
  owns : ∀ t ∈ s.pending, t.retryCount = t.caller ∧ t.caller < s.calls
  callers : (s.pending.map Transmission.caller).Nodup

variable {overflow} {s s' : State} {t : Transmission} {c : ℕ}

theorem State.mem_pendingOf : t ∈ s.pendingOf c ↔ t ∈ s.pending ∧ t.caller = c := by
  rw [State.pendingOf, List.mem_filter, decide_eq_true_iff]

theorem State.pendingOf_eq_nil (h : ∀ t ∈ s.pending, t.caller ≠ c) : s.pendingOf c = [] :=
  List.filter_eq_nil_iff.mpr fun t ht => by simpa using h t ht

theorem State.callOf_eq_done (h : s.pendingOf c = []) : s.callOf c = .done := by
  rw [State.callOf, h]

theorem State.callOf_eq_waiting (h : s.pendingOf c = [t]) :
    s.callOf c = .waiting t.interest (s.count t) := by
  rw [State.callOf, h]

/-- The call sees its own transmission and its own counter. -/
theorem State.callOf_congr (hpending : s'.pendingOf c = s.pendingOf c)
    (hcount : ∀ t ∈ s.pendingOf c, s'.count t = s.count t) : s'.callOf c = s.callOf c := by
  rw [State.callOf, State.callOf, hpending]
  cases h : s.pendingOf c with
  | nil => rfl
  | cons t ts =>
    show Call.waiting t.interest (s'.count t) = Call.waiting t.interest (s.count t)
    rw [hcount t (h ▸ List.mem_cons_self)]

theorem outcomeOf_of_some {index : ℕ} {o : Outcome} (h : s.pending[index]? = some t) :
    outcomeOf c s (.outcome index o) = if c = t.caller then [o] else [] := by
  rw [outcomeOf, h]
  exact if_congr eq_comm rfl rfl

theorem outcomeOf_of_none {index : ℕ} {o : Outcome} (h : s.pending[index]? = none) :
    outcomeOf c s (.outcome index o) = [] := by
  rw [outcomeOf, h]

/-- A transmission that is taken out of those under way. -/
theorem exists_of_getElem? {index : ℕ} {ts : List Transmission} (h : ts[index]? = some t) :
    ∃ ps qs, ts = ps ++ t :: qs ∧ ts.eraseIdx index = ps ++ qs := by
  obtain ⟨hlt, rfl⟩ := List.getElem?_eq_some_iff.mp h
  refine ⟨ts.take index, ts.drop (index + 1), ?_, List.eraseIdx_eq_take_drop_succ ..⟩
  rw [List.getElem_cons_drop, List.take_append_drop]

/-- An Interest is expressed for a call that has none under way. -/
theorem Separate.transmit (hs : Separate s) (howns : t.retryCount = t.caller ∧ t.caller < s.calls)
    (hnone : s.pendingOf t.caller = []) :
    Separate (s.transmit t).1 ∧ (s.transmit t).1.callOf t.caller = .waiting t.interest (s.count t) ∧
      ∀ c, c ≠ t.caller → (s.transmit t).1.callOf c = s.callOf c := by
  have hne : ∀ u ∈ s.pending, ¬ u.caller = t.caller := by
    intro u hu heq
    have hmem := State.mem_pendingOf.mpr ⟨hu, heq⟩
    rw [hnone] at hmem
    exact List.not_mem_nil hmem
  refine ⟨⟨hs.counters, ?_, ?_⟩, ?_, ?_⟩
  · intro u hu
    rcases List.mem_append.mp hu with hu | hu
    · exact hs.owns u hu
    · rw [List.mem_singleton.mp hu]
      exact howns
  · show ((s.pending ++ [t]).map Transmission.caller).Nodup
    rw [List.map_append, List.map_singleton, List.nodup_append_comm, List.singleton_append,
      List.nodup_cons]
    refine ⟨fun hmem => ?_, hs.callers⟩
    obtain ⟨u, hu, heq⟩ := List.mem_map.mp hmem
    exact hne u hu heq
  · refine State.callOf_eq_waiting ?_
    rw [State.pendingOf] at hnone ⊢
    show (s.pending ++ [t]).filter _ = [t]
    rw [List.filter_append, hnone, List.filter_cons_of_pos (by simp)]
    rfl
  · intro c hc
    refine State.callOf_congr ?_ fun _ _ => rfl
    show (s.pending ++ [t]).filter _ = s.pending.filter _
    rw [List.filter_append, List.filter_cons_of_neg (a := t) (by simpa using fun h => hc h.symm),
      List.filter_nil, List.append_nil]

/-- A new call has a counter of its own, and the others see nothing of it. -/
theorem Separate.expressInterest (hs : Separate s) (interest : Interest) (retry : Int32) :
    Separate (expressInterest s interest retry).1 ∧
      (expressInterest s interest retry).1.callOf s.calls = .waiting interest retry ∧
        ∀ c, c < s.calls → (expressInterest s interest retry).1.callOf c = s.callOf c := by
  have hlt : ∀ u ∈ s.pending, u.caller < s.calls := fun u hu => (hs.owns u hu).2
  let made : State := { s with calls := s.calls + 1, heap := s.heap ++ [retry] }
  have hmade : Separate made := by
    refine ⟨?_, fun u hu => ⟨(hs.owns u hu).1, (hlt u hu).trans (Nat.lt_succ_self _)⟩, hs.callers⟩
    show (s.heap ++ [retry]).length = s.calls + 1
    rw [List.length_append, hs.counters, List.length_singleton]
  have hnone : made.pendingOf s.calls = [] :=
    State.pendingOf_eq_nil fun u hu => (hlt u hu).ne
  obtain ⟨hseparate, hown, hothers⟩ := hmade.transmit
    (t := ⟨interest, s.heap.length, s.calls⟩) ⟨hs.counters, Nat.lt_succ_self _⟩ hnone
  refine ⟨hseparate, hown.trans ?_, fun c hc => (hothers c hc.ne).trans ?_⟩
  · show Call.waiting interest ((s.heap ++ [retry]).getD s.heap.length 0) = _
    rw [List.getD_append_right _ _ _ _ le_rfl, Nat.sub_self]
    rfl
  · refine State.callOf_congr rfl fun u hu => ?_
    obtain ⟨hu, -⟩ := State.mem_pendingOf.mp hu
    have hcell : u.retryCount < s.heap.length := by
      rw [(hs.owns u hu).1, hs.counters]
      exact hlt u hu
    exact List.getD_append _ _ _ _ hcell

/-- `s'` is `s` after the face has taken out the transmission `t`: its counter may have
changed. -/
structure Taken (s : State) (t : Transmission) (s' : State) : Prop where
  separate : Separate s'
  calls : s'.calls = s.calls
  owns : t.retryCount = t.caller ∧ t.caller < s.calls
  own : s.pendingOf t.caller = [t]
  gone : s'.pendingOf t.caller = []
  others : ∀ c, c ≠ t.caller → s'.pendingOf c = s.pendingOf c
  counts : ∀ u, u.retryCount ≠ t.retryCount → s'.count u = s.count u

theorem Separate.taken (hs : Separate s) {index : ℕ} (h : s.pending[index]? = some t) :
    Taken s t { s with pending := s.pending.eraseIdx index } := by
  obtain ⟨ps, qs, hpending, herase⟩ := exists_of_getElem? h
  have hcallers := hs.callers
  rw [hpending, List.map_append, List.map_cons, List.nodup_middle, List.nodup_cons,
    ← List.map_append, ← herase] at hcallers
  have hne : ∀ u ∈ ps ++ qs, ¬ u.caller = t.caller := by
    intro u hu heq
    rw [← herase] at hu
    exact hcallers.1 (heq ▸ List.mem_map_of_mem hu)
  have hps : ps.filter (fun u => u.caller = t.caller) = [] :=
    List.filter_eq_nil_iff.mpr fun u hu => by simpa using hne u (List.mem_append_left _ hu)
  have hqs : qs.filter (fun u => u.caller = t.caller) = [] :=
    List.filter_eq_nil_iff.mpr fun u hu => by simpa using hne u (List.mem_append_right _ hu)
  constructor
  · exact ⟨hs.counters, fun u hu => hs.owns u (List.eraseIdx_subset hu), hcallers.2⟩
  · rfl
  · exact hs.owns t (List.mem_of_getElem? h)
  · rw [State.pendingOf, hpending, List.filter_append, List.filter_cons_of_pos (by simp), hps, hqs]
    rfl
  · rw [State.pendingOf, herase, List.filter_append, hps, hqs]
    rfl
  · intro c hc
    rw [State.pendingOf, State.pendingOf, herase, hpending, List.filter_append,
      List.filter_append, List.filter_cons_of_neg (a := t) (by simpa using fun h => hc h.symm)]
  · exact fun _ _ => rfl

/-- The counter of the transmission is written to. -/
theorem Taken.write (h : Taken s t s') (count : Int32) :
    Taken s t { s' with heap := s'.heap.set t.retryCount count } where
  separate := ⟨List.length_set.trans h.separate.counters, h.separate.owns, h.separate.callers⟩
  calls := h.calls
  owns := h.owns
  own := h.own
  gone := h.gone
  others := h.others
  counts := fun u hu => by
    rw [← h.counts u hu, State.count, State.count, List.getD_eq_getElem?_getD,
      List.getElem?_set_ne (fun heq => hu heq.symm), ← List.getD_eq_getElem?_getD]

/-- The transmission of a call has been taken out, and nothing else of any call. -/
theorem Taken.callOf (h : Taken s t s') (c : ℕ) (hs : Separate s) :
    s'.callOf c = if c = t.caller then .done else s.callOf c := by
  by_cases hc : c = t.caller
  · rw [if_pos hc, hc]
    exact State.callOf_eq_done h.gone
  · rw [if_neg hc]
    refine State.callOf_congr (h.others c hc) fun u hu => h.counts u ?_
    obtain ⟨hu, hcaller⟩ := State.mem_pendingOf.mp hu
    rw [h.owns.1, (hs.owns u hu).1, hcaller]
    exact hc

/-- `next` follows `s` when the transmission `t` has the outcome `o`: the calls stay apart, the
call of `t` takes the outcome, and no other call sees anything of it. -/
structure Follows (s : State) (t : Transmission) (o : Outcome)
    (next : State × Reports) : Prop where
  separate : Separate next.1
  calls : next.1.calls = s.calls
  state : ∀ c, next.1.callOf c = if c = t.caller then (s.callOf c).step o else s.callOf c
  reports : ∀ c, next.2.flatMap (reportOf c) = if c = t.caller then (s.callOf c).out o else []

theorem flatMap_reportOf (c caller : ℕ) (r : Report) :
    [(caller, r)].flatMap (reportOf c) = if c = caller then [r] else [] := by
  rw [List.flatMap_singleton, reportOf]
  exact if_congr eq_comm rfl rfl

/-- The call ends with a callback. -/
theorem Taken.ended (h : Taken s t s') (hs : Separate s) {o : Outcome} {r : Report}
    (hstep : (s.callOf t.caller).step o = .done)
    (hout : (s.callOf t.caller).out o = [r]) : Follows s t o (s', [(t.caller, r)]) where
  separate := h.separate
  calls := h.calls
  state := fun c => by
    rw [h.callOf c hs]
    by_cases hc : c = t.caller
    · rw [if_pos hc, if_pos hc, hc, hstep]
    · rw [if_neg hc, if_neg hc]
  reports := fun c => by
    rw [flatMap_reportOf]
    by_cases hc : c = t.caller
    · rw [if_pos hc, if_pos hc, hc, hout]
    · rw [if_neg hc, if_neg hc]

/-- The call goes on with another transmission. -/
theorem Taken.goesOn (h : Taken s t s') (hs : Separate s) {o : Outcome}
    (hstep : (s.callOf t.caller).step o = .waiting t.interest (s'.count t))
    (hout : (s.callOf t.caller).out o = [.transmit t.interest]) :
    Follows s t o (s'.transmit t) := by
  obtain ⟨hseparate, hown, hothers⟩ :=
    h.separate.transmit ⟨h.owns.1, h.owns.2.trans_eq h.calls.symm⟩ h.gone
  refine ⟨hseparate, h.calls, fun c => ?_, fun c => ?_⟩
  · by_cases hc : c = t.caller
    · rw [if_pos hc, hc, hown, hstep]
    · rw [if_neg hc, hothers c hc, h.callOf c hs, if_neg hc]
  · rw [State.transmit, flatMap_reportOf]
    by_cases hc : c = t.caller
    · rw [if_pos hc, if_pos hc, hc, hout]
    · rw [if_neg hc, if_neg hc]

theorem Taken.count_write (h : Taken s t s') (count : Int32) :
    State.count { s' with heap := s'.heap.set t.retryCount count } t = count := by
  have hlt : t.retryCount < s'.heap.length := by
    rw [h.separate.counters, h.calls, h.owns.1]
    exact h.owns.2
  rw [State.count, List.getD_eq_getElem?_getD, List.getElem?_set_self hlt, Option.getD_some]

/-- **The face calls back** for a transmission. -/
theorem Taken.callBack (overflow : Int32) (h : Taken s t s') (hs : Separate s)
    (hcount : s'.count t = s.count t) (o : Outcome) : Follows s t o (callBack overflow s' t o) := by
  have hown : s.callOf t.caller = .waiting t.interest (s.count t) := State.callOf_eq_waiting h.own
  cases o with
  | data d => exact h.ended hs (by rw [hown]; rfl) (by rw [hown]; rfl)
  | nack n => exact h.ended hs (by rw [hown]; rfl) (by rw [hown]; rfl)
  | timeout =>
    have hwrite := h.write (decrement overflow (s.count t))
    rw [Express.callBack, onTimeout, hcount]
    by_cases hpos : s.count t > 0
    · rw [if_pos hpos]
      refine hwrite.goesOn hs ?_ ?_
      · rw [hown, Call.step, if_pos hpos, h.count_write, decrement_of_pos overflow hpos]
      · rw [hown, Call.out, if_pos hpos]
    · rw [if_neg hpos]
      refine hwrite.ended hs ?_ ?_
      · rw [hown, Call.step, if_neg hpos]
      · rw [hown, Call.out, if_neg hpos]

/-- Every event keeps the calls apart. -/
theorem Separate.step (overflow : Int32) (hs : Separate s) (e : Event) :
    Separate (step overflow s e) ∧ s.calls ≤ (step overflow s e).calls := by
  cases e with
  | express interest retry => exact ⟨(hs.expressInterest interest retry).1, Nat.le_succ _⟩
  | outcome index o =>
    rw [Express.step, react]
    cases h : s.pending[index]? with
    | none => exact ⟨hs, le_rfl⟩
    | some t =>
      have hfollows := (hs.taken h).callBack overflow hs rfl o
      exact ⟨hfollows.separate, hfollows.calls.ge⟩

theorem separate_run (overflow : Int32) (es : List Event) : Separate (run overflow es) :=
  invariant (fun e _ _ hs => (hs.step overflow e).1)
    ⟨rfl, fun _ h => absurd h List.not_mem_nil, List.nodup_nil⟩

/-- **A call among others**: a run is, for a call that has been made, a run of the call on the
outcomes of its own transmissions. -/
theorem projection_call (overflow : Int32) (c : ℕ) :
    Projection (step overflow) (out overflow) Call.step Call.out (State.callOf · c)
      (outcomeOf c) (reportOf c) fun s => Separate s ∧ c < s.calls where
  keeps := by
    rintro s e ⟨hs, hc⟩
    exact ⟨(hs.step overflow e).1, hc.trans_le (hs.step overflow e).2⟩
  state := by
    rintro s e ⟨hs, hc⟩
    cases e with
    | express interest retry => exact (hs.expressInterest interest retry).2.2 c hc
    | outcome index o =>
      rw [step, react]
      cases h : s.pending[index]? with
      | none => rw [outcomeOf_of_none h, exec_nil]
      | some t =>
        have hfollows := (hs.taken h).callBack overflow hs rfl o
        rw [outcomeOf_of_some h]
        refine (hfollows.state c).trans ?_
        by_cases hcaller : c = t.caller
        · rw [if_pos hcaller, if_pos hcaller, exec_cons, exec_nil]
        · rw [if_neg hcaller, if_neg hcaller, exec_nil]
  output := by
    rintro s e ⟨hs, hc⟩
    cases e with
    | express interest retry =>
      exact (flatMap_reportOf c s.calls _).trans (if_neg hc.ne)
    | outcome index o =>
      rw [out, react]
      cases h : s.pending[index]? with
      | none => rw [outcomeOf_of_none h, emitted_nil, List.flatMap_nil]
      | some t =>
        have hfollows := (hs.taken h).callBack overflow hs rfl o
        rw [outcomeOf_of_some h]
        refine (hfollows.reports c).trans ?_
        by_cases hcaller : c = t.caller
        · rw [if_pos hcaller, if_pos hcaller, emitted_cons, emitted_nil, List.append_nil]
        · rw [if_neg hcaller, if_neg hcaller, emitted_nil]

/-- A call takes outcomes only while a transmission of it is under way. -/
theorem stepsMeet_outcomeOf (hs : Separate s) (e : Event) :
    StepsMeet Call.step (fun call _ => call.outstanding = 1) (s.callOf c) (outcomeOf c s e) := by
  cases e with
  | express interest retry => trivial
  | outcome index o =>
    cases h : s.pending[index]? with
    | none =>
      rw [outcomeOf_of_none h]
      trivial
    | some t =>
      rw [outcomeOf_of_some h]
      by_cases hcaller : c = t.caller
      · rw [if_pos hcaller, hcaller, State.callOf_eq_waiting (hs.taken h).own]
        exact ⟨rfl, trivial⟩
      · rw [if_neg hcaller]
        trivial

theorem Separate.outstanding_callOf (hs : Separate s) (c : ℕ) :
    (s.callOf c).outstanding = (s.pendingOf c).length := by
  cases h : s.pendingOf c with
  | nil =>
    rw [State.callOf_eq_done h]
    rfl
  | cons t ts =>
    obtain ⟨hmem, rfl⟩ := State.mem_pendingOf.mp (h ▸ List.mem_cons_self : t ∈ s.pendingOf c)
    obtain ⟨index, hindex⟩ := List.mem_iff_getElem?.mp hmem
    have hown := (hs.taken hindex).own
    rw [State.callOf_eq_waiting hown, ← h, hown]
    rfl

/-- When no other call has been made, an outcome is one of this call, which may have ended. -/
theorem Separate.outcomeOf_alone (hs : Separate s) (hcalls : s.calls = 1) (o : Outcome) :
    outcomeOf 0 s (.outcome 0 o) = [o] ∨
      outcomeOf 0 s (.outcome 0 o) = [] ∧ s.callOf 0 = .done := by
  cases h : s.pending[0]? with
  | none =>
    have hnil : s.pending = [] := List.length_eq_zero_iff.mp
      (Nat.le_zero.mp (List.getElem?_eq_none_iff.mp h))
    refine Or.inr ⟨outcomeOf_of_none h, State.callOf_eq_done ?_⟩
    rw [State.pendingOf, hnil, List.filter_nil]
  | some t =>
    have hcaller : 0 = t.caller := by
      have hlt := (hs.owns t (List.mem_of_getElem? h)).2
      omega
    exact Or.inl ((outcomeOf_of_some h).trans (if_pos hcaller))

/-- **A call by itself**: when no other call has been made, every outcome is one of its
transmissions'. -/
theorem simulation_alone (overflow : Int32) :
    Simulation (step overflow) (fun s e => (out overflow s e).flatMap (reportOf 0)) Call.step
      Call.out (State.callOf · 0)
      (fun _ e => match e with
        | .outcome _ o => o
        | .express _ _ => .timeout)
      (fun s => Separate s ∧ s.calls = 1) fun _ e => ∃ o, e = .outcome 0 o where
  keeps := by
    rintro s e ⟨hs, hcalls⟩ ⟨o, rfl⟩
    refine ⟨(hs.step overflow _).1, ?_⟩
    rw [step, react]
    cases h : s.pending[0]? with
    | none => exact hcalls
    | some t => exact ((hs.taken h).callBack overflow hs rfl o).calls.trans hcalls
  state := by
    rintro s e ⟨hs, hcalls⟩ ⟨o, rfl⟩
    rw [(projection_call overflow 0).state s _ ⟨hs, hcalls ▸ Nat.one_pos⟩]
    rcases hs.outcomeOf_alone hcalls o with h | ⟨h, hdone⟩
    · rw [h, exec_cons, exec_nil]
    · rw [h, hdone, exec_nil]
      rfl
  output := by
    rintro s e ⟨hs, hcalls⟩ ⟨o, rfl⟩
    rw [(projection_call overflow 0).output s _ ⟨hs, hcalls ▸ Nat.one_pos⟩]
    rcases hs.outcomeOf_alone hcalls o with h | ⟨h, hdone⟩
    · rw [h, emitted_cons, emitted_nil, List.append_nil]
    · rw [h, hdone, emitted_nil]
      rfl

/-! ## What a call does -/

variable (overflow)

/-- What is done for a call in a run. -/
def reportsOf (c : ℕ) (s : State) (es : List Event) : List Report :=
  (emitted (step overflow) (out overflow) s es).flatMap (reportOf c)

/-- The outcomes of the transmissions of a call in a run. -/
def outcomesOf (c : ℕ) (s : State) (es : List Event) : List Outcome :=
  emitted (step overflow) (outcomeOf c) s es

/-- **From a call on**, what is done for it is what the call by itself does. -/
theorem reportsOf_express (hs : Separate s) (interest : Interest) (retry : Int32)
    (post : List Event) :
    let os := outcomesOf overflow s.calls s (.express interest retry :: post)
    reportsOf overflow s.calls s (.express interest retry :: post) =
        .transmit interest :: emitted Call.step Call.out (.waiting interest retry) os ∧
      (exec (step overflow) s (.express interest retry :: post)).callOf s.calls =
        exec Call.step (.waiting interest retry) os ∧
      StepsMeet Call.step (fun call _ => call.outstanding = 1) (.waiting interest retry) os := by
  obtain ⟨hseparate, hown, -⟩ := hs.expressInterest interest retry
  have hstart : Separate (step overflow s (.express interest retry)) ∧
      s.calls < (step overflow s (.express interest retry)).calls :=
    ⟨hseparate, Nat.lt_succ_self _⟩
  have hproj := projection_call overflow s.calls
  obtain ⟨hstate, hout⟩ := hproj.run hstart post
  have hmeets := hproj.stepsMeet (fun _ e h => stepsMeet_outcomeOf h.1 e) hstart post
  have hos : outcomesOf overflow s.calls s (.express interest retry :: post) =
      outcomesOf overflow s.calls (step overflow s (.express interest retry)) post := rfl
  intro os
  have hcall : (step overflow s (.express interest retry)).callOf s.calls =
    .waiting interest retry := hown
  rw [hcall] at hstate hout hmeets
  refine ⟨?_, hstate, hmeets⟩
  rw [reportsOf, emitted_cons, List.flatMap_append, hout]
  exact congrArg (· ++ _) ((flatMap_reportOf s.calls s.calls _).trans (if_pos rfl))

/-- The only call of a run, with its outcomes in order. -/
theorem reportsOf_alone (interest : Interest) (retry : Int32) (os : List Outcome) :
    reportsOf overflow 0 {} (.express interest retry :: os.map (.outcome 0)) =
      .transmit interest :: emitted Call.step Call.out (.waiting interest retry) os := by
  have hempty : Separate {} := separate_run overflow []
  obtain ⟨hseparate, hown, -⟩ := hempty.expressInterest interest retry
  have hmeets : StepsMeet (step overflow) (fun _ e => ∃ o, e = Event.outcome 0 o)
      (step overflow {} (.express interest retry)) (os.map (.outcome 0)) :=
    stepsMeet_of_forall (fun e he => (List.mem_map.mp he).imp fun _ h => h.2.symm) _
  have hrun := ((simulation_alone overflow).run ⟨hseparate, rfl⟩ hmeets).2
  rw [emitted_flatMap, translated_eq_map, List.map_map] at hrun
  have hcall : (expressInterest {} interest retry).1.callOf 0 = .waiting interest retry := hown
  have hid : os.map ((fun e => match e with
      | Event.outcome _ o => o
      | Event.express _ _ => .timeout) ∘ Event.outcome 0) = os := List.map_id os
  rw [hid, hcall] at hrun
  rw [reportsOf, emitted_cons, List.flatMap_append]
  exact congrArg (List.cons (Report.transmit interest)) hrun

/-- **Retries are bounded and reported once**, whatever other calls there are before and after:
the Interest is transmitted at most `max retry 0 + 1` times, exactly that often when every
transmission times out, and one callback is called once no transmission is under way.  The
call does what it would do if its transmissions were the only ones. -/
theorem retries_once (pre post : List Event) (interest : Interest) (retry : Int32) :
    let s := run overflow pre
    let es := .express interest retry :: post
    Call.RetriesOnce interest retry (outcomesOf overflow s.calls s es)
        ((exec (step overflow) s es).pendingOf s.calls).length
        (reportsOf overflow s.calls s es) ∧
      ∀ overflow', reportsOf overflow s.calls s es =
        reportsOf overflow' 0 {}
          (.express interest retry :: (outcomesOf overflow s.calls s es).map (.outcome 0)) := by
  have hs := separate_run overflow pre
  obtain ⟨hreports, hcall, hmeets⟩ := reportsOf_express overflow hs interest retry post
  have hend : Separate
      (exec (step overflow) (run overflow pre) (.express interest retry :: post)) :=
    invariant (fun e _ _ hs => (hs.step overflow e).1) hs
  refine ⟨?_, fun overflow' => ?_⟩
  · rw [← hend.outstanding_callOf, hreports, hcall]
    exact Call.retriesOnce hmeets
  · rw [hreports, reportsOf_alone]

end Nacapp.Express
