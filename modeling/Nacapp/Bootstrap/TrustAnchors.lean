import Nacapp.Bootstrap.Traces

/-!
# Whom a bootstrapped device trusts

`setTrustAnchor` hands the certificate of the owner to the validator of the session, or to the node
when the session has none, and neither of them forgets an anchor.

`trustAnchors_run`: in every run the anchors are those there were, and the owner's certificate that
was accepted, if one was.  It is the one the session keeps.  What is served, requested and installed
afterwards, and what is refused, adds none.
-/

namespace Nacapp.Bootstrap

open Transitions

variable {α : Type}

/-- The owner's certificate that an output accepts. -/
def Output.accepts : Output α → Option Certificate
  | .ownerCert owner => some owner
  | _ => none

namespace Run

/-- The anchors of the validator, or of the node where there is no validator. -/
def trustAnchors (s : Run α) : List Certificate := s.session.validator.getD s.nodeAnchors

/-- What a reaction adds: the anchors and the owner of the session follow the certificates that
are accepted, and the node is given none when there is a validator. -/
structure Trusts (s : Run α) (new : List Certificate) (s' : Run α) : Prop where
  anchors : s'.trustAnchors = s.trustAnchors ++ new
  owner : s'.session.ownerCert = new.getLast?.or s.session.ownerCert
  validator : s'.session.validator.isSome = s.session.validator.isSome
  node : s.session.validator.isSome → s'.nodeAnchors = s.nodeAnchors

/-- What keeps the session and the anchors of the node trusts nobody new. -/
theorem Trusts.of_eq {s s' : Run α} (hsession : s'.session = s.session)
    (hnode : s'.nodeAnchors = s.nodeAnchors) : s.Trusts [] s' where
  anchors := by rw [trustAnchors, hsession, hnode, List.append_nil, trustAnchors]
  owner := by rw [hsession]; rfl
  validator := by rw [hsession]
  node _ := hnode

theorem Trusts.trans {s s' s'' : Run α} {new new' : List Certificate} (h : s.Trusts new s')
    (h' : s'.Trusts new' s'') : s.Trusts (new ++ new') s'' where
  anchors := by rw [h'.anchors, h.anchors, List.append_assoc]
  owner := by
    rw [h'.owner, h.owner, List.getLast?_append]
    cases new'.getLast? <;> rfl
  validator := h'.validator.trans h.validator
  node hv := (h'.node (h.validator.trans hv)).trans (h.node hv)

/-- An owner that is accepted is trusted. -/
theorem trusts_onOwnerCert (s : Run α) (owner : Certificate) :
    s.Trusts [owner] (s.onOwnerCert owner) := by
  unfold onOwnerCert setTrustAnchor
  cases hv : s.session.validator with
  | none =>
    refine ⟨?_, ?_, ?_, fun h => ?_⟩
    · simp [trustAnchors, hv]
    · simp
    · simp [hv]
    · exact absurd h (by simp [hv])
  | some anchors =>
    refine ⟨?_, ?_, ?_, fun _ => rfl⟩
    · simp [trustAnchors, hv]
    · simp
    · simp [hv]

variable [DecidableEq α] {E : Env α}

/-- **What a step adds** are the certificates it accepts. -/
theorem trusts_receiveOwnerCert (s : Run α) (d : TextData α) :
    s.Trusts ((s.receiveOwnerCert E d).2.filterMap Output.accepts) (s.receiveOwnerCert E d).1 := by
  unfold receiveOwnerCert
  split
  · exact .of_eq rfl rfl
  · exact .of_eq rfl rfl
  · split
    · exact .of_eq rfl rfl
    · split
      · exact .of_eq rfl rfl
      · rename_i owner _ _ _ _
        have htrusts := trusts_onOwnerCert s owner
        exact ⟨htrusts.anchors, htrusts.owner, htrusts.validator, htrusts.node⟩

theorem trusts_answerOwner (s : Run α) (d : TextData α) :
    s.Trusts ((s.answerOwner E d).2.filterMap Output.accepts) (s.answerOwner E d).1 := by
  unfold answerOwner
  split
  · have hended : s.Trusts [] { s with awaitingOwner := false } := .of_eq rfl rfl
    exact hended.trans (trusts_receiveOwnerCert _ d)
  · exact .of_eq rfl rfl

omit [DecidableEq α] in
theorem trusts_answerDeviceCert (s : Run α) (d : TextData α) :
    s.Trusts ((s.answerDeviceCert E d).2.filterMap Output.accepts) (s.answerDeviceCert E d).1 := by
  unfold answerDeviceCert receiveDeviceCert onDeviceCertSigned
  split
  · split
    · split
      · exact .of_eq rfl rfl
      · exact .of_eq rfl rfl
    · exact .of_eq rfl rfl
  · exact .of_eq rfl rfl

theorem trusts_serveDeviceUnsignedCert (s : Run α) (serving : Serving) (args : TextName α) :
    s.Trusts ((s.serveDeviceUnsignedCert E serving args).2.filterMap Output.accepts)
      (s.serveDeviceUnsignedCert E serving args).1 := by
  unfold serveDeviceUnsignedCert
  dsimp only
  split
  · exact .of_eq rfl rfl
  · exact .of_eq rfl rfl
  · split
    · exact .of_eq rfl rfl
    · split
      · exact .of_eq rfl rfl
      · exact .of_eq rfl rfl

theorem trusts_step (s : Run α) (e : Event α) :
    s.Trusts ((s.out E e).filterMap Output.accepts) (s.step E e) := by
  unfold step out react
  split
  · exact .of_eq rfl rfl
  · cases e with
    | ownerReply d => exact trusts_answerOwner s d
    | ownerTimeout => exact trusts_answerOwner s _
    | ownerNack => exact .of_eq rfl rfl
    | request args =>
      dsimp only
      split
      · exact trusts_serveDeviceUnsignedCert s _ args
      · exact .of_eq rfl rfl
    | deviceCertReply d => exact trusts_answerDeviceCert s d
    | deviceCertTimeout => exact trusts_answerDeviceCert s _
    | deviceCertNack => exact .of_eq rfl rfl

theorem trusts_run (s : Run α) (events : List (Event α)) :
    s.Trusts ((s.outputs E events).filterMap Output.accepts) (s.run E events) := by
  induction events generalizing s with
  | nil => exact .of_eq rfl rfl
  | cons e events ih =>
    rw [outputs, emitted_cons, List.filterMap_append]
    exact (trusts_step s e).trans (ih (s.step E e))

/-! ## One owner -/

/-- Nobody is accepted once the first Interest is answered. -/
theorem accepts_outputs_eq_nil {s : Run α} (hended : s.awaitingOwner = false)
    (events : List (Event α)) : (s.outputs E events).filterMap Output.accepts = [] := by
  induction events generalizing s with
  | nil => rfl
  | cons e events ih =>
    have hrest := ih (s := s.step E e) (awaitingOwner_step hended e)
    rw [outputs, emitted_cons, List.filterMap_append, ← outputs, hrest, List.append_nil]
    have hreaction := reaction (E := E) s e
    generalize s.step E e = s', s.out E e = outs at hreaction
    cases hreaction with
    | ownerAccepted _ hawaiting _ _ _ => exact Bool.noConfusion (hended.symm.trans hawaiting)
    | _ => rfl

/-- One owner is accepted, or none. -/
theorem length_accepts_outputs_le (s : Run α) (events : List (Event α)) :
    ((s.outputs E events).filterMap Output.accepts).length ≤ 1 := by
  induction events generalizing s with
  | nil => exact Nat.zero_le 1
  | cons e events ih =>
    rw [outputs, emitted_cons, List.filterMap_append, ← outputs]
    have hrest := ih (s.step E e)
    have hended (h : (s.step E e).awaitingOwner = false) :=
      accepts_outputs_eq_nil (E := E) h events
    have hreaction := reaction (E := E) s e
    generalize s.step E e = s', s.out E e = outs at hreaction hrest hended
    cases hreaction with
    | ownerAccepted _ _ _ _ _ =>
      rw [hended (onOwnerCert_awaitingOwner _ _)]
      exact le_rfl
    | _ => exact hrest

end Run

variable [DecidableEq α] {E : Env α}

/-- **Whom a device trusts** after a run of `bootstrap::start`: whom it trusted before, and the
owner whose certificate it has accepted, which is then the owner of the session.  Whatever arrives,
at most one owner is accepted.  A session with a validator adds no anchor to the node. -/
theorem trustAnchors_run (E : Env α) (session : Session) (randomNo : List α)
    (events : List (Event α)) :
    let s := (Run.start E session randomNo).1.run E events
    let accepted := (Run.shown E session randomNo events).filterMap Output.accepts
    accepted.length ≤ 1 ∧ s.trustAnchors = session.validator.getD [] ++ accepted ∧
      s.session.ownerCert = accepted.head?.or session.ownerCert ∧
      (session.validator.isSome → s.nodeAnchors = []) := by
  intro s accepted
  have hstart : Run.Trusts (Run.idle session randomNo) [] (Run.start E session randomNo).1 ∧
      (Run.start E session randomNo).2.filterMap Output.accepts = [] := by
    unfold Run.start
    split
    · exact ⟨.of_eq rfl rfl, rfl⟩
    · split
      · exact ⟨.of_eq rfl rfl, rfl⟩
      · exact ⟨.of_eq rfl rfl, rfl⟩
  have haccepted : accepted =
      ((Run.start E session randomNo).1.outputs E events).filterMap Output.accepts :=
    List.filterMap_append.trans (by rw [hstart.2, List.nil_append])
  have hone : accepted.length ≤ 1 := haccepted ▸ Run.length_accepts_outputs_le _ events
  have hrun : Run.Trusts (Run.idle session randomNo) accepted s := by
    rw [haccepted]
    exact hstart.1.trans (Run.trusts_run (Run.start E session randomNo).1 events)
  have hhead : accepted.getLast? = accepted.head? := by
    rcases accepted with _ | ⟨owner, _ | ⟨owner', rest⟩⟩
    · rfl
    · rfl
    · exact absurd hone (by simp)
  exact ⟨hone, hrun.anchors, hhead ▸ hrun.owner, hrun.node⟩

end Nacapp.Bootstrap
