import Nacapp.Bootstrap.DeviceCert

/-!
# How often a run has an outcome

`onSuccess` and `onFail` are called from three places that know nothing of one another, and
nothing in a run remembers that one of them was called.

* A refused answer to the first Interest calls `onFail`, and so does an invalid session or
  configuration.  Nothing else can happen afterwards.
* Every certificate that fits and answers an Interest for the signed certificate calls
  `onSuccess`.  Every valid request, a repeated one too, has such an Interest expressed.
* Every invalid request after the eleventh calls `onFail`, until their number overflows.

`one_outcome_iff`: a run has at most one outcome exactly when at most one step of it is of the
last two kinds (`Decides`).
-/

namespace Nacapp.Bootstrap

open Transitions SymbolicMac HmacText

/-- A call of `onSuccess` or `onFail`. -/
def Output.isOutcome {α : Type} : Output α → Bool
  | .onSuccess => true
  | .onFail _ => true
  | _ => false

namespace Run

variable {α : Type} [DecidableEq α] (E : Env α)

/-! ## Steps with an outcome -/

/-- A certificate that fits arrives for an outstanding Interest, or an invalid request when
eleven were refused before, and not as many as an `int` can count. -/
def Decides (s : Run α) (e : Event α) : Prop :=
  (∃ d cert key, e.deviceCertAnswer E = some d ∧ E.ofContent d.content = some cert ∧
      s.Installs E cert key) ∨
    ∃ serving args, s.halted = false ∧ e = .request args ∧ s.serving = some serving ∧
      E.text.validateOwnerRequest (E.nodePrefix ++ args) args E.pairCode = some false ∧
      serving.retry > 10 ∧ serving.retry < INT_MAX

/-- The answer to the first Interest is refused. -/
def RefusesOwner (s : Run α) (e : Event α) : Prop :=
  ∃ d, s.halted = false ∧ s.ownerAnswer E e = some d ∧ s.awaitingOwner = true ∧
    E.text.validateOwnerCertResp d s.randomNo E.pairCode = some false

variable {E}

theorem out_of_refusesOwner {s : Run α} {e : Event α} (h : s.RefusesOwner E e) :
    s.step E e = { s with awaitingOwner := false } ∧
      s.out E e = [.onFail (bytes "owner certificate is not valid.")] := by
  obtain ⟨d, hrunning, hd, hawaiting, hinvalid⟩ := h
  have hanswer : s.answerOwner E d = ({ s with awaitingOwner := false },
      [.onFail (bytes "owner certificate is not valid.")]) := by
    unfold answerOwner receiveOwnerCert
    rw [if_pos hawaiting, hinvalid]
  unfold step out
  rw [react_of_ownerAnswer hrunning hd, hanswer]
  exact ⟨rfl, rfl⟩

theorem out_of_refusedForGood {s : Run α} {serving : Serving} {args : TextName α}
    (hrunning : s.halted = false) (hserving : s.serving = some serving)
    (hinvalid : E.text.validateOwnerRequest (E.nodePrefix ++ args) args E.pairCode = some false)
    (hretry : serving.retry > 10) (hmax : serving.retry < INT_MAX) :
    s.out E (.request args) = [.onFail (bytes "Invalid request - Max Retry Reached"),
      .data ⟨E.nodePrefix ++ args, E.text.str (bytes "Invalid request - Max Retry Reached")⟩] := by
  unfold out react
  rw [if_neg (by rw [hrunning]; decide), hserving]
  dsimp only
  rw [serveDeviceUnsignedCert]
  dsimp only
  rw [hinvalid]
  dsimp only
  rw [if_neg (Nat.not_le.mpr hmax), if_pos hretry]

/-- A halted run does nothing. -/
theorem out_of_halted {s : Run α} (h : s.halted = true) (e : Event α) : s.out E e = [] := by
  unfold out react
  rw [if_pos h]

theorem countP_out_of_decides {s : Run α} {e : Event α} (h : s.Decides E e) :
    (s.out E e).countP Output.isOutcome = 1 := by
  rcases h with ⟨d, cert, key, hd, hcert, hinst⟩ |
    ⟨serving, args, hrun, rfl, hserv, hinv, hretry, hmax⟩
  · rw [out_of_installs hd hcert hinst]
    rfl
  · rw [out_of_refusedForGood hrun hserv hinv hretry hmax]
    rfl

/-- **A step has one outcome, or none**: one when it decides the run or refuses the owner. -/
theorem countP_out_of_not_decides {s : Run α} {e : Event α}
    (h : ¬ (s.Decides E e ∨ s.RefusesOwner E e)) :
    (s.out E e).countP Output.isOutcome = 0 := by
  by_cases hrunning : s.halted = true
  · rw [out_of_halted hrunning]
    rfl
  rw [Bool.not_eq_true] at hrunning
  have hreaction := reaction (E := E) s e
  generalize s.step E e = s', s.out E e = outs at hreaction
  cases hreaction with
  | ownerRefused hd hawaiting hinvalid =>
    exact absurd (Or.inr ⟨_, hrunning, hd, hawaiting, hinvalid⟩) h
  | refusedForGood he hserving hinvalid hretry hmax =>
    exact absurd (Or.inl (Or.inr ⟨_, _, hrunning, he, hserving, hinvalid, hretry, hmax⟩)) h
  | installed hd hcert hinst => exact absurd (Or.inl (Or.inl ⟨_, _, _, hd, hcert, hinst⟩)) h
  | _ => rfl

theorem countP_out_of_decides_or {s : Run α} {e : Event α}
    (h : s.Decides E e ∨ s.RefusesOwner E e) : (s.out E e).countP Output.isOutcome = 1 := by
  rcases h with h | h
  · exact countP_out_of_decides h
  · rw [(out_of_refusesOwner h).2]
    rfl

/-! ## The owner comes first -/

/-- There is no handler, and no Interest for the signed certificate. -/
def Inactive (s : Run α) : Prop := s.serving = none ∧ s.fetching = 0

/-- Nothing is active while the first Interest is outstanding. -/
def OwnerFirst (s : Run α) : Prop := s.awaitingOwner = true → s.Inactive

theorem not_decides_of_inactive {s : Run α} (h : s.Inactive) (e : Event α) : ¬ s.Decides E e := by
  rintro (⟨d, cert, key, -, -, -, hfetching, -⟩ | ⟨serving, args, -, -, hserving, -⟩)
  · exact hfetching.ne' h.2
  · rw [h.1] at hserving
    exact absurd hserving (by simp)

theorem not_refusesOwner {s : Run α} (h : s.awaitingOwner = false) (e : Event α) :
    ¬ s.RefusesOwner E e := by
  rintro ⟨d, -, -, hawaiting, -⟩
  exact Bool.noConfusion (h.symm.trans hawaiting)

/-- The first Interest is expressed once. -/
theorem awaitingOwner_step {s : Run α} (h : s.awaitingOwner = false) (e : Event α) :
    (s.step E e).awaitingOwner = false := by
  have hreaction := reaction (E := E) s e
  generalize s.step E e = s', s.out E e = outs at hreaction
  cases hreaction with
  | quiet _ _ _ hawaiting _ =>
    exact Bool.eq_false_iff.mpr fun h' => Bool.false_ne_true (h.symm.trans (hawaiting h'))
  | ownerRefused => rfl
  | ownerAccepted => exact onOwnerCert_awaitingOwner _ _
  | _ => exact h

theorem awaitingOwner_of_step {s : Run α} {e : Event α} (h : (s.step E e).awaitingOwner = true) :
    s.awaitingOwner = true := by
  by_contra hnot
  rw [awaitingOwner_step (Bool.not_eq_true _ ▸ hnot) e] at h
  exact Bool.noConfusion h

/-- Only an answer to the first Interest makes a run active. -/
theorem inactive_step {s : Run α} (h : s.Inactive) (e : Event α) :
    (s.step E e).Inactive ∨ s.awaitingOwner = true ∧ (s.step E e).awaitingOwner = false := by
  have hreaction := reaction (E := E) s e
  generalize s.step E e = s', s.out E e = outs at hreaction
  have hserving : ∀ serving, s.serving ≠ some serving := fun serving heq => by
    rw [h.1] at heq
    exact absurd heq (by simp)
  cases hreaction with
  | quiet _ hserv _ _ hfetching =>
    refine Or.inl ⟨hserv.trans h.1, ?_⟩
    have := h.2
    omega
  | ownerRefused _ hawaiting _ => exact Or.inr ⟨hawaiting, rfl⟩
  | ownerAccepted _ hawaiting _ _ _ =>
    exact Or.inr ⟨hawaiting, onOwnerCert_awaitingOwner _ _⟩
  | served _ hserv _ => exact absurd hserv (hserving _)
  | refused _ hserv _ _ => exact absurd hserv (hserving _)
  | refusedForGood _ hserv _ _ => exact absurd hserv (hserving _)
  | installed _ _ hinst => exact absurd h.2 hinst.2.1.ne'

theorem ownerFirst_step {s : Run α} (h : s.OwnerFirst) (e : Event α) :
    (s.step E e).OwnerFirst := by
  intro hawaiting'
  have hawaiting : s.awaitingOwner = true := awaitingOwner_of_step hawaiting'
  rcases inactive_step (E := E) (h hawaiting) e with hinactive | ⟨-, hended⟩
  · exact hinactive
  · exact Bool.noConfusion (hended.symm.trans hawaiting')

omit [DecidableEq α] in
theorem ownerFirst_start (session : Session) (randomNo : List α) :
    (start E session randomNo).1.OwnerFirst := by
  rw [start]
  split
  · exact fun _ => ⟨rfl, rfl⟩
  · split
    · exact fun _ => ⟨rfl, rfl⟩
    · exact fun _ => ⟨rfl, rfl⟩

omit [DecidableEq α] in
/-- A session or a configuration that is not valid is an outcome, and the run waits for
nothing. -/
theorem start_cases (session : Session) (randomNo : List α) :
    (start E session randomNo).2.countP Output.isOutcome = 0 ∨
      (start E session randomNo).2.countP Output.isOutcome = 1 ∧
        (start E session randomNo).1.Inactive ∧
        (start E session randomNo).1.awaitingOwner = false := by
  rw [start]
  split
  · exact Or.inr ⟨rfl, ⟨rfl, rfl⟩, rfl⟩
  · split
    · exact Or.inr ⟨rfl, ⟨rfl, rfl⟩, rfl⟩
    · exact Or.inl rfl

/-- **Nothing follows** in a run that is not active and waits for nothing. -/
theorem stepsMeet_not_decides {s : Run α} (hinactive : s.Inactive)
    (hended : s.awaitingOwner = false) (events : List (Event α)) :
    StepsMeet (step E) (fun s e => ¬ (s.Decides E e ∨ s.RefusesOwner E e)) s events := by
  refine stepsMeet_iff.mpr fun pre e post _ => ?_
  have hstill : (exec (step E) s pre).Inactive ∧ (exec (step E) s pre).awaitingOwner = false := by
    refine invariant (I := fun s : Run α => s.Inactive ∧ s.awaitingOwner = false)
      (fun e _ s hs => ⟨?_, awaitingOwner_step hs.2 e⟩) ⟨hinactive, hended⟩
    refine (inactive_step hs.1 e).resolve_right fun h => ?_
    exact Bool.noConfusion (hs.2.symm.trans h.1)
  rintro (h | h)
  · exact not_decides_of_inactive hstill.1 e h
  · exact not_refusesOwner hstill.2 e h

/-- A run that refuses the owner has no other outcome. -/
theorem atMostOnce_decides_iff {s : Run α} (h : s.OwnerFirst) (events : List (Event α)) :
    AtMostOnce (step E) (fun s e => s.Decides E e ∨ s.RefusesOwner E e) s events ↔
      AtMostOnce (step E) (Decides E) s events := by
  induction events generalizing s with
  | nil => exact Iff.rfl
  | cons e events ih =>
    rw [atMostOnce_cons, atMostOnce_cons, ih (ownerFirst_step h e)]
    refine and_congr_left fun _ => ?_
    by_cases hrefuses : s.RefusesOwner E e
    · have hinactive : s.Inactive := by
        obtain ⟨d, -, -, hawaiting, -⟩ := hrefuses
        exact h hawaiting
      refine iff_of_true (fun _ => ?_) fun hdecides =>
        absurd hdecides (not_decides_of_inactive hinactive e)
      rw [(out_of_refusesOwner hrefuses).1]
      have hinactive' : ({ s with awaitingOwner := false } : Run α).Inactive := hinactive
      exact stepsMeet_not_decides hinactive' rfl events
    · rw [or_iff_left hrefuses]
      refine imp_congr_right fun hdecides => ?_
      -- the run decides, so it has the owner's answer
      have hended : s.awaitingOwner = false := by
        by_contra hnot
        rw [Bool.not_eq_false] at hnot
        exact not_decides_of_inactive (h hnot) e hdecides
      refine stepsMeet_congr (J := fun s : Run α => s.awaitingOwner = false)
        (fun s e hs _ => awaitingOwner_step hs e) (fun s e hs => ?_) (awaitingOwner_step hended e) _
      rw [or_iff_left (not_refusesOwner hs e)]

/-! ## One outcome -/

/-- The outcomes of a run of `bootstrap::start`. -/
def outcomes (E : Env α) (session : Session) (randomNo : List α) (events : List (Event α)) : ℕ :=
  let started := start E session randomNo
  (started.2 ++ started.1.outputs E events).countP Output.isOutcome

/-- **A run has at most one outcome**, exactly when at most one of its steps decides it. -/
theorem one_outcome_iff (E : Env α) (session : Session) (randomNo : List α)
    (events : List (Event α)) :
    outcomes E session randomNo events ≤ 1 ↔
      AtMostOnce (step E) (Decides E) (start E session randomNo).1 events := by
  have hone : ∀ (s : Run α) e, s.Decides E e ∨ s.RefusesOwner E e →
      (s.out E e).countP Output.isOutcome = 1 := fun _ _ => countP_out_of_decides_or
  have hnone : ∀ (s : Run α) e, ¬ (s.Decides E e ∨ s.RefusesOwner E e) →
      (s.out E e).countP Output.isOutcome = 0 := fun _ _ => countP_out_of_not_decides
  unfold outcomes outputs
  dsimp only
  rw [List.countP_append, ← atMostOnce_decides_iff (ownerFirst_start session randomNo)]
  rcases start_cases (E := E) session randomNo with hstart | ⟨hstart, hinactive, hended⟩
  · rw [hstart, Nat.zero_add, countP_emitted_le_one_iff hone hnone]
  · have hnothing := stepsMeet_not_decides (E := E) hinactive hended events
    have hzero := (countP_emitted_eq_zero_iff hone hnone).mpr hnothing
    rw [hstart, hzero]
    exact iff_of_true le_rfl (atMostOnce_of_stepsMeet_not hnothing)

end Run

/-! ## A request that is repeated -/

/-- The owner's request arrives twice, and both Interests for the signed certificate are
answered. -/
def repeatedEvents : List (Event (Symbol UInt8)) :=
  ownerEvents ++ ownerEvents.tail ++ [.deviceCertReply rogueReply, .deviceCertReply rogueReply]

/-- A session with a key chain may see two outcomes. -/
theorem two_outcomes_after_repeated_request :
    ¬ ∀ (E : Env (Symbol UInt8)) (session : Session) (randomNo : List (Symbol UInt8))
      (events : List (Event (Symbol UInt8))), session.keychain.isSome →
        Run.outcomes E session randomNo events ≤ 1 := by
  intro h
  have hone := h pairedEnv pairedSession (plain (bytes "1923856")) repeatedEvents rfl
  have htwo : Run.outcomes pairedEnv pairedSession (plain (bytes "1923856")) repeatedEvents =
      2 := by
    decide +kernel
  omega

end Nacapp.Bootstrap
