import Nacapp.Bootstrap.DeviceIdentity

/-!
# What a bootstrapping device can be seen to do

The device reacts to what arrives, and anybody may send it anything, in any order.  Yet little of
this can be seen from outside.  `Protocol` is the set of what can be seen: an Interest for the
owner's certificate; then at most one certificate, that is accepted once; and only after that
Data, Interests for a signed certificate, and certificates installed, of which there are never
more than there were Interests.

What arrives, arrives at the face.  The Interests for the signed certificate have one name, so a
Data or a Nack for them answers all that are outstanding, each by a call of its own (`callbacks`);
an Interest that times out is answered alone.

* `Paired`: what is done once the owner is accepted, with the number of requests refused so far
  and of Interests that may still be answered.
* `faceOutputs_eq_outputs`: what is seen at the face is seen in a run of the callbacks.
* `outputs_iff_protocol`: the runs of the device show exactly what `Protocol` allows.
-/

namespace Nacapp.Bootstrap

open Transitions

variable {α : Type} [DecidableEq α]

/-! ## The protocol -/

/-- The certificate that a Data carries and the key it is installed for, where it can be decoded
and fits the key of the device. -/
def installable (E : Env α) (device : Option Identity) (d : TextData α) :
    Option (Key × Certificate) :=
  match E.ofContent d.content, device with
  | some cert, some id =>
    if E.acceptsCertificate id.defaultKey cert then some (id.defaultKey, cert) else none
  | _, _ => none

/-- The Data that is made up when an Interest for the signed certificate times out. -/
def deviceCertTimeoutData (E : Env α) : TextData α :=
  Run.timeoutData E (E.text.deviceCertName E.wellknown E.pairId)

/-- What `n` answers with the same certificate do. -/
def installed (n : ℕ) (key : Key) (cert : Certificate) : List (Output α) :=
  (List.replicate n [.deviceCert key cert, .onSuccess]).flatten

/-- What a device that holds an unsigned certificate does, after `r` refused requests and with `f`
Interests that may be answered. -/
inductive Paired (E : Env α) (unsigned : Certificate) (device : Option Identity) :
    ℕ → ℕ → List (Output α) → Prop
  | nothing (r f : ℕ) : Paired E unsigned device r f []
  | serve {r f : ℕ} {outs : List (Output α)} (args : TextName α)
      (hvalid : E.text.validateOwnerRequest (E.nodePrefix ++ args) args E.pairCode = some true)
      (h : Paired E unsigned device r (f + 1) outs) :
      Paired E unsigned device r f
        (.data (E.text.hmacSignUnsignedCert E.toCertificateCodec unsigned E.pairId E.pairCode) ::
          .interest (E.text.deviceCertName E.wellknown E.pairId) :: outs)
  | refuse {r f : ℕ} {outs : List (Output α)} (args : TextName α)
      (hinvalid : E.text.validateOwnerRequest (E.nodePrefix ++ args) args E.pairCode = some false)
      (hr : r ≤ 10) (h : Paired E unsigned device (r + 1) f outs) :
      Paired E unsigned device r f
        (.data ⟨E.nodePrefix ++ args, E.text.str (bytes "Invalid request")⟩ :: outs)
  | giveUp {r f : ℕ} {outs : List (Output α)} (args : TextName α)
      (hinvalid : E.text.validateOwnerRequest (E.nodePrefix ++ args) args E.pairCode = some false)
      (hr : 10 < r) (hmax : r < INT_MAX) (h : Paired E unsigned device (r + 1) f outs) :
      Paired E unsigned device r f
        (.onFail (bytes "Invalid request - Max Retry Reached") ::
          .data ⟨E.nodePrefix ++ args,
            E.text.str (bytes "Invalid request - Max Retry Reached")⟩ :: outs)
  | answered {r f : ℕ} {outs : List (Output α)} {key : Key} {cert : Certificate} (d : TextData α)
      (hinst : installable E device d = some (key, cert)) (h : Paired E unsigned device r 0 outs) :
      Paired E unsigned device r f (installed f key cert ++ outs)
  | timedOut {r f : ℕ} {outs : List (Output α)} {key : Key} {cert : Certificate}
      (hinst : installable E device (deviceCertTimeoutData E) = some (key, cert))
      (h : Paired E unsigned device r f outs) :
      Paired E unsigned device r (f + 1) (installed 1 key cert ++ outs)
  | nacked {r f : ℕ} {outs : List (Output α)} (h : Paired E unsigned device r 0 outs) :
      Paired E unsigned device r f outs

/-- What a run of `bootstrap::start` can be seen to do. -/
inductive Protocol (E : Env α) (session : Session) (randomNo : List α) : List (Output α) → Prop
  | invalidSession (h : isValidSession session = false) :
      Protocol E session randomNo [.onFail (bytes "invalid initial session")]
  | invalidConfig (hsession : isValidSession session = true) (h : isValidConfig E.cfg = false) :
      Protocol E session randomNo [.onFail (bytes "invalid bootstrap config")]
  | unanswered (hsession : isValidSession session = true) (hconfig : isValidConfig E.cfg = true) :
      Protocol E session randomNo
        [.interest (E.text.constructBootstrapName E.wellknown randomNo E.pairId E.pairCode)]
  | ownerRefused (hsession : isValidSession session = true) (hconfig : isValidConfig E.cfg = true)
      (d : TextData α)
      (hinvalid : E.text.validateOwnerCertResp d randomNo E.pairCode = some false) :
      Protocol E session randomNo
        [.interest (E.text.constructBootstrapName E.wellknown randomNo E.pairId E.pairCode),
          .onFail (bytes "owner certificate is not valid.")]
  | ownerAccepted (hsession : isValidSession session = true)
      (hconfig : isValidConfig E.cfg = true) (d : TextData α) {dname : List α}
      {owner : Certificate} {id : Identity} {outs : List (Output α)}
      (hvalid : E.text.validateOwnerCertResp d randomNo E.pairCode = some true)
      (hextract : E.text.extractOwnerCert E.toCertificateCodec d = some (dname, owner))
      (hid : E.createIdentity dname = some id)
      (h : Paired E id.defaultCertificate session.deviceIdentity 0 0 outs) :
      Protocol E session randomNo
        (.interest (E.text.constructBootstrapName E.wellknown randomNo E.pairId E.pairCode) ::
          .ownerCert owner :: outs)

variable {E : Env α} {unsigned : Certificate} {device : Option Identity}

namespace Run

/-- The run after the owner is accepted, with the identity that was created. -/
def accepted (s : Run α) (owner : Certificate) (id : Identity) : Run α :=
  { onOwnerCert { s with awaitingOwner := false } owner with
    serving := some ⟨id.defaultCertificate, 0⟩ }

section Accepted

omit [DecidableEq α]

variable (s : Run α) (owner : Certificate) (id : Identity)

theorem accepted_serves : (s.accepted owner id).Serves id.defaultCertificate 0 :=
  ⟨rfl, onOwnerCert_awaitingOwner _ _⟩

theorem accepted_deviceIdentity :
    (s.accepted owner id).session.deviceIdentity = s.session.deviceIdentity :=
  onOwnerCert_deviceIdentity _ _

theorem accepted_fetching : (s.accepted owner id).fetching = s.fetching := by
  unfold accepted onOwnerCert setTrustAnchor
  split <;> rfl

theorem accepted_halted : (s.accepted owner id).halted = s.halted := by
  unfold accepted onOwnerCert setTrustAnchor
  split <;> rfl

end Accepted

/-! ## At the face -/

/-- The calls that the face makes of what arrives. -/
def callbacks (s : Run α) : Event α → List (Event α)
  | .deviceCertReply d => List.replicate s.fetching (.deviceCertReply d)
  | .deviceCertNack => List.replicate s.fetching .deviceCertNack
  | e => [e]

variable (E) in
def faceStep (s : Run α) (e : Event α) : Run α := s.run E (s.callbacks e)

variable (E) in
def faceOut (s : Run α) (e : Event α) : List (Output α) := s.outputs E (s.callbacks e)

variable (E) in
/-- What a run does in the course of what arrives at the face. -/
def faceOutputs (s : Run α) (events : List (Event α)) : List (Output α) :=
  emitted (faceStep E) (faceOut E) s events

/-- The face makes calls of the receivers, and nothing else. -/
theorem faceStep_projection :
    Projection (faceStep E) (faceOut E) (step E) (out E) id callbacks (fun o => [o])
      (fun _ => True) where
  keeps _ _ _ := trivial
  state _ _ _ := rfl
  output s e _ := List.flatMap_singleton' (s.faceOut E e)

/-- **What is seen at the face** is seen in a run of the callbacks. -/
theorem faceOutputs_eq_outputs (s : Run α) (events : List (Event α)) :
    s.faceOutputs E events = s.outputs E (emitted (faceStep E) callbacks s events) := by
  have hrun := ((faceStep_projection (E := E)).run (s := s) trivial events).2
  rw [List.flatMap_singleton'] at hrun
  exact hrun

/-- What the run shows of an event and the events after it. -/
theorem outputs_cons_of_react {s s' : Run α} {e : Event α} {outs : List (Output α)}
    (h : s.react E e = (s', outs)) (events : List (Event α)) :
    s.outputs E (e :: events) = outs ++ s'.outputs E events := by
  have hstep : s.step E e = s' := congrArg Prod.fst h
  have hout : s.out E e = outs := congrArg Prod.snd h
  rw [outputs, emitted_cons, hstep, hout]
  rfl

theorem run_cons_of_react {s s' : Run α} {e : Event α} {outs : List (Output α)}
    (h : s.react E e = (s', outs)) (events : List (Event α)) :
    s.run E (e :: events) = s'.run E events := by
  have hstep : s.step E e = s' := congrArg Prod.fst h
  rw [run, exec_cons, hstep]
  rfl

/-- What the run shows at the face of an arrival that makes one call. -/
theorem faceOutputs_cons_of_react {s s' : Run α} {e : Event α} {outs : List (Output α)}
    (hcalls : s.callbacks e = [e]) (h : s.react E e = (s', outs)) (events : List (Event α)) :
    s.faceOutputs E (e :: events) = outs ++ s'.faceOutputs E events := by
  have hstep : s.faceStep E e = s' := by rw [faceStep, hcalls, run_cons_of_react h]; rfl
  have hout : s.faceOut E e = outs := by
    rw [faceOut, hcalls, outputs_cons_of_react h]
    exact List.append_nil outs
  rw [faceOutputs, emitted_cons, hstep, hout]
  rfl

/-- A run that has ended does nothing. -/
theorem react_of_halted {s : Run α} (hhalted : s.halted = true) (e : Event α) :
    s.react E e = (s, []) := by
  unfold react
  rw [if_pos hhalted]

theorem run_of_halted {s : Run α} (hhalted : s.halted = true) (events : List (Event α)) :
    s.run E events = s ∧ s.outputs E events = [] := by
  induction events with
  | nil => exact ⟨rfl, rfl⟩
  | cons e events ih =>
    rw [run_cons_of_react (react_of_halted hhalted e),
      outputs_cons_of_react (react_of_halted hhalted e)]
    exact ih

theorem faceOutputs_of_halted {s : Run α} (hhalted : s.halted = true) (events : List (Event α)) :
    s.faceOutputs E events = [] := by
  rw [faceOutputs_eq_outputs]
  exact (run_of_halted hhalted _).2

/-- With no Interest for a signed certificate outstanding, the face adds nothing. -/
theorem faceOutputs_cons_of_fetching_eq_zero {s : Run α} (hfetching : s.fetching = 0)
    (e : Event α) (events : List (Event α)) :
    s.faceOutputs E (e :: events) = s.out E e ++ (s.step E e).faceOutputs E events := by
  have hnone {e : Event α} (hcalls : s.callbacks e = []) (hreact : s.react E e = (s, [])) :
      s.faceOutputs E (e :: events) = s.out E e ++ (s.step E e).faceOutputs E events := by
    rw [faceOutputs, emitted_cons, faceOut, faceStep, hcalls, step, out, hreact]
    rfl
  by_cases hhalted : s.halted = true
  · rw [faceOutputs_of_halted hhalted, out, step, react_of_halted hhalted,
      faceOutputs_of_halted hhalted]
    rfl
  · rw [Bool.not_eq_true] at hhalted
    cases e with
    | deviceCertReply d =>
      refine hnone (by rw [callbacks, hfetching]; rfl) ?_
      rw [react_of_deviceCertAnswer hhalted rfl, answerDeviceCert,
        if_neg (by rw [hfetching]; decide)]
    | deviceCertNack =>
      refine hnone (by rw [callbacks, hfetching]; rfl) ?_
      unfold react
      rw [if_neg (by rw [hhalted]; decide)]
      dsimp only
      rw [hfetching, Nat.zero_sub, ← hfetching]
    | _ => exact faceOutputs_cons_of_react rfl rfl events

/-! ## Reactions -/

/-- The reaction to a request, once the handler is installed. -/
theorem react_request {s : Run α} {serving : Serving} (hrunning : s.halted = false)
    (hserving : s.serving = some serving) (args : TextName α) :
    s.react E (.request args) = s.serveDeviceUnsignedCert E serving args := by
  unfold react
  rw [if_neg (by rw [hrunning]; decide), hserving]

theorem react_of_valid {s : Run α} {serving : Serving} {args : TextName α}
    (hrunning : s.halted = false) (hserving : s.serving = some serving)
    (hvalid : E.text.validateOwnerRequest (E.nodePrefix ++ args) args E.pairCode = some true) :
    s.react E (.request args) = ({ s with fetching := s.fetching + 1 },
      [.data (E.text.hmacSignUnsignedCert E.toCertificateCodec serving.deviceCertUnsigned E.pairId
        E.pairCode), .interest (E.text.deviceCertName E.wellknown E.pairId)]) := by
  rw [react_request hrunning hserving, serveDeviceUnsignedCert]
  dsimp only
  rw [hvalid]

/-- What is put in answer to an invalid request, after `r` of them. -/
def refusal (E : Env α) (args : TextName α) (r : ℕ) : List (Output α) :=
  if r > 10 then
    [.onFail (bytes "Invalid request - Max Retry Reached"),
      .data ⟨E.nodePrefix ++ args, E.text.str (bytes "Invalid request - Max Retry Reached")⟩]
  else [.data ⟨E.nodePrefix ++ args, E.text.str (bytes "Invalid request")⟩]

theorem react_of_invalid {s : Run α} {serving : Serving} {args : TextName α}
    (hrunning : s.halted = false) (hserving : s.serving = some serving)
    (hinvalid : E.text.validateOwnerRequest (E.nodePrefix ++ args) args E.pairCode = some false)
    (hmax : serving.retry < INT_MAX) :
    s.react E (.request args) =
      ({ s with serving := some { serving with retry := serving.retry + 1 } },
        refusal E args serving.retry) := by
  rw [react_request hrunning hserving, serveDeviceUnsignedCert]
  dsimp only
  rw [hinvalid]
  dsimp only
  rw [if_neg (Nat.not_le.mpr hmax)]
  unfold refusal
  split
  · rfl
  · rfl

/-- A request that cannot be checked ends the run, and so does one that is refused when the counter
is at its end. -/
theorem react_of_overflow {s : Run α} {serving : Serving} {args : TextName α}
    (hrunning : s.halted = false) (hserving : s.serving = some serving)
    (h : E.text.validateOwnerRequest (E.nodePrefix ++ args) args E.pairCode = none ∨
      E.text.validateOwnerRequest (E.nodePrefix ++ args) args E.pairCode = some false ∧
        INT_MAX ≤ serving.retry) :
    s.react E (.request args) = (s.halt, []) := by
  rw [react_request hrunning hserving, serveDeviceUnsignedCert]
  dsimp only
  rcases h with hnone | ⟨hinvalid, hmax⟩
  · rw [hnone]
  · rw [hinvalid]
    dsimp only
    rw [if_pos hmax]

/-- An answer to the first Interest does nothing once that has been answered. -/
theorem react_of_owner_ended {s : Run α} (hrunning : s.halted = false)
    (hended : s.awaitingOwner = false) {e : Event α}
    (he : e = .ownerNack ∨ (s.ownerAnswer E e).isSome = true) : s.react E e = (s, []) := by
  rcases he with rfl | he
  · unfold react
    rw [if_neg (by rw [hrunning]; decide)]
    dsimp only
    rw [← hended]
  · obtain ⟨d, hd⟩ := Option.isSome_iff_exists.mp he
    rw [react_of_ownerAnswer hrunning hd, answerOwner, if_neg (by rw [hended]; decide)]

omit [DecidableEq α] in
theorem setDeviceCert_eq {s : Run α} {d : TextData α} {cert : Certificate}
    (hcert : E.ofContent d.content = some cert) :
    (s.setDeviceCert E cert).map (·, cert) = installable E s.session.deviceIdentity d := by
  unfold setDeviceCert installable
  rw [hcert]
  cases s.session.deviceIdentity with
  | none => rfl
  | some id =>
    dsimp only
    split
    · rfl
    · rfl

/-- A certificate that fits is installed. -/
theorem react_of_installable {s : Run α} {e : Event α} {d : TextData α} {key : Key}
    {cert : Certificate} (hrunning : s.halted = false) (hd : e.deviceCertAnswer E = some d)
    (hfetching : 0 < s.fetching)
    (hinst : installable E s.session.deviceIdentity d = some (key, cert)) :
    s.react E e = ({ s with fetching := s.fetching - 1 }, installed 1 key cert) := by
  cases hcert : E.ofContent d.content with
  | none =>
    unfold installable at hinst
    rw [hcert] at hinst
    exact absurd hinst (by simp)
  | some cert' =>
    rw [← setDeviceCert_eq hcert, Option.map_eq_some_iff] at hinst
    obtain ⟨key', hkey, heq⟩ := hinst
    obtain ⟨rfl, rfl⟩ := Prod.mk.inj heq
    exact react_of_setDeviceCert hrunning hd hfetching hcert hkey

/-- One that does not ends the run. -/
theorem react_of_not_installable {s : Run α} {e : Event α} {d : TextData α}
    (hrunning : s.halted = false) (hd : e.deviceCertAnswer E = some d) (hfetching : 0 < s.fetching)
    (hinst : installable E s.session.deviceIdentity d = none) :
    s.react E e = (halt { s with fetching := s.fetching - 1 }, []) := by
  rw [react_of_deviceCertAnswer hrunning hd, answerDeviceCert, if_pos hfetching, receiveDeviceCert]
  cases hcert : E.ofContent d.content with
  | none => rfl
  | some cert =>
    rw [← setDeviceCert_eq hcert, Option.map_eq_none_iff] at hinst
    have hkey : setDeviceCert E { s with fetching := s.fetching - 1 } cert = none := hinst
    dsimp only
    rw [onDeviceCertSigned, hkey]

/-- An answer that no Interest waits for does nothing. -/
theorem react_of_fetching_eq_zero {s : Run α} {e : Event α} {d : TextData α}
    (hrunning : s.halted = false) (hd : e.deviceCertAnswer E = some d)
    (hfetching : s.fetching = 0) : s.react E e = (s, []) := by
  rw [react_of_deviceCertAnswer hrunning hd, answerDeviceCert, if_neg (by rw [hfetching]; decide)]

theorem react_deviceCertNack {s : Run α} (hrunning : s.halted = false) :
    s.react E .deviceCertNack = ({ s with fetching := s.fetching - 1 }, []) := by
  unfold react
  rw [if_neg (by rw [hrunning]; decide)]

/-! ## Many calls of one kind -/

omit [DecidableEq α] in
theorem installed_succ (n : ℕ) (key : Key) (cert : Certificate) :
    (installed (n + 1) key cert : List (Output α)) = installed 1 key cert ++ installed n key cert :=
  rfl

omit [DecidableEq α] in
theorem eq_of_fetching {s : Run α} {n : ℕ} (h : s.fetching = n) : s = { s with fetching := n } := by
  rw [← h]

/-- **A Data that is installable** answers all Interests at once. -/
theorem run_deviceCertReplies {s : Run α} {n : ℕ} {d : TextData α} {key : Key} {cert : Certificate}
    (hrunning : s.halted = false) (hfetching : s.fetching = n)
    (hinst : installable E s.session.deviceIdentity d = some (key, cert)) :
    s.run E (List.replicate n (.deviceCertReply d)) = { s with fetching := 0 } ∧
      s.outputs E (List.replicate n (.deviceCertReply d)) = installed n key cert := by
  induction n generalizing s with
  | zero => exact ⟨eq_of_fetching hfetching, rfl⟩
  | succ n ih =>
    have hreact := react_of_installable (e := .deviceCertReply d) hrunning rfl
      (hfetching ▸ Nat.succ_pos n) hinst
    obtain ⟨hrun, houts⟩ := ih (s := { s with fetching := s.fetching - 1 }) hrunning
      (by rw [hfetching, Nat.add_sub_cancel]) hinst
    rw [List.replicate_succ, run_cons_of_react hreact, outputs_cons_of_react hreact, hrun, houts,
      ← installed_succ]
    exact ⟨rfl, rfl⟩

/-- One that is not ends the run, if an Interest waits for it. -/
theorem run_deviceCertReplies_of_none {s : Run α} {n : ℕ} {d : TextData α}
    (hrunning : s.halted = false) (hfetching : s.fetching = n + 1)
    (hinst : installable E s.session.deviceIdentity d = none) :
    (s.run E (List.replicate (n + 1) (.deviceCertReply d))).halted = true ∧
      s.outputs E (List.replicate (n + 1) (.deviceCertReply d)) = [] := by
  have hreact := react_of_not_installable (e := .deviceCertReply d) hrunning rfl
    (hfetching ▸ Nat.succ_pos n) hinst
  obtain ⟨hrun, houts⟩ := run_of_halted (E := E)
    (s := halt { s with fetching := s.fetching - 1 }) rfl (List.replicate n (.deviceCertReply d))
  rw [List.replicate_succ, run_cons_of_react hreact, outputs_cons_of_react hreact, hrun, houts]
  exact ⟨rfl, rfl⟩

theorem run_deviceCertNacks {s : Run α} {n : ℕ} (hrunning : s.halted = false)
    (hfetching : s.fetching = n) :
    s.run E (List.replicate n .deviceCertNack) = { s with fetching := 0 } ∧
      s.outputs E (List.replicate n .deviceCertNack) = [] := by
  induction n generalizing s with
  | zero => exact ⟨eq_of_fetching hfetching, rfl⟩
  | succ n ih =>
    have hreact := react_deviceCertNack (E := E) hrunning
    obtain ⟨hrun, houts⟩ := ih (s := { s with fetching := s.fetching - 1 }) hrunning
      (by rw [hfetching, Nat.add_sub_cancel])
    rw [List.replicate_succ, run_cons_of_react hreact, outputs_cons_of_react hreact, hrun, houts]
    exact ⟨rfl, rfl⟩

/-- What the run shows at the face of an answer, and of a Nack, to all Interests. -/
theorem faceOutputs_deviceCertReply {s : Run α} {d : TextData α} {key : Key} {cert : Certificate}
    (hrunning : s.halted = false)
    (hinst : installable E s.session.deviceIdentity d = some (key, cert))
    (events : List (Event α)) :
    s.faceOutputs E (.deviceCertReply d :: events) =
      installed s.fetching key cert ++ faceOutputs E { s with fetching := 0 } events := by
  obtain ⟨hrun, houts⟩ := run_deviceCertReplies hrunning rfl hinst
  rw [faceOutputs, emitted_cons, faceStep, faceOut, callbacks, hrun, houts, ← faceOutputs]

theorem faceOutputs_deviceCertReply_of_none {s : Run α} {d : TextData α}
    (hrunning : s.halted = false) (hfetching : 0 < s.fetching)
    (hinst : installable E s.session.deviceIdentity d = none) (events : List (Event α)) :
    s.faceOutputs E (.deviceCertReply d :: events) = [] := by
  obtain ⟨n, hn⟩ := Nat.exists_eq_add_one.mpr hfetching
  obtain ⟨hhalted, houts⟩ := run_deviceCertReplies_of_none hrunning hn hinst
  rw [faceOutputs, emitted_cons, faceStep, faceOut, callbacks, hn, houts, ← faceOutputs,
    faceOutputs_of_halted hhalted]
  rfl

theorem faceOutputs_deviceCertNack {s : Run α} (hrunning : s.halted = false)
    (events : List (Event α)) :
    s.faceOutputs E (.deviceCertNack :: events) =
      faceOutputs E { s with fetching := 0 } events := by
  obtain ⟨hrun, houts⟩ := run_deviceCertNacks (E := E) hrunning rfl
  rw [faceOutputs, emitted_cons, faceStep, faceOut, callbacks, hrun, houts, ← faceOutputs]
  rfl

/-! ## Runs are allowed -/

/-- **After the owner is accepted**, every run is allowed. -/
theorem Serves.paired {s : Run α} {r f : ℕ} (h : s.Serves unsigned r)
    (hdevice : s.session.deviceIdentity = device) (hf : s.fetching = f) (events : List (Event α)) :
    Paired E unsigned device r f (s.faceOutputs E events) := by
  induction events generalizing s r f with
  | nil => exact .nothing _ _
  | cons e events ih =>
    by_cases hhalted : s.halted = true
    · rw [faceOutputs_of_halted hhalted]
      exact .nothing _ _
    rw [Bool.not_eq_true] at hhalted
    obtain ⟨hserves, hended⟩ := id h
    have hquiet (hreact : s.react E e = (s, [])) (hcalls : s.callbacks e = [e]) :
        Paired E unsigned device r f (s.faceOutputs E (e :: events)) := by
      rw [faceOutputs_cons_of_react hcalls hreact]
      exact ih h hdevice hf
    have hends {s' : Run α} (hreact : s.react E e = (s'.halt, [])) (hcalls : s.callbacks e = [e]) :
        Paired E unsigned device r f (s.faceOutputs E (e :: events)) := by
      rw [faceOutputs_cons_of_react hcalls hreact, faceOutputs_of_halted rfl]
      exact .nothing _ _
    cases e with
    | ownerReply d => exact hquiet (react_of_owner_ended hhalted hended (Or.inr rfl)) rfl
    | ownerTimeout => exact hquiet (react_of_owner_ended hhalted hended (Or.inr rfl)) rfl
    | ownerNack => exact hquiet (react_of_owner_ended hhalted hended (Or.inl rfl)) rfl
    | request args =>
      cases hargs : E.text.validateOwnerRequest (E.nodePrefix ++ args) args E.pairCode with
      | none => exact hends (react_of_overflow hhalted hserves (Or.inl hargs)) rfl
      | some valid =>
        cases valid with
        | true =>
          rw [faceOutputs_cons_of_react rfl (react_of_valid hhalted hserves hargs)]
          exact .serve _ hargs (ih ⟨hserves, hended⟩ hdevice (congrArg Nat.succ hf))
        | false =>
          by_cases hmax : r < INT_MAX
          · rw [faceOutputs_cons_of_react rfl (react_of_invalid hhalted hserves hargs hmax),
              refusal]
            have hrest := ih (s := { s with serving := some ⟨unsigned, r + 1⟩ }) ⟨rfl, hended⟩
              hdevice hf
            split
            · rename_i hr
              exact .giveUp _ hargs hr hmax hrest
            · rename_i hr
              exact .refuse _ hargs (Nat.not_lt.mp hr) hrest
          · exact hends (react_of_overflow hhalted hserves
              (Or.inr ⟨hargs, Nat.not_lt.mp hmax⟩)) rfl
    | deviceCertReply d =>
      cases hinst : installable E s.session.deviceIdentity d with
      | some install =>
        obtain ⟨key, cert⟩ := install
        rw [faceOutputs_deviceCertReply hhalted hinst, hf]
        exact .answered d (hdevice ▸ hinst) (ih ⟨hserves, hended⟩ hdevice rfl)
      | none =>
        by_cases hpos : 0 < s.fetching
        · rw [faceOutputs_deviceCertReply_of_none hhalted hpos hinst]
          exact .nothing _ _
        · have hzero := Nat.eq_zero_of_not_pos hpos
          rw [faceOutputs_cons_of_fetching_eq_zero hzero, Run.step, Run.out,
            react_of_fetching_eq_zero hhalted rfl hzero]
          exact ih h hdevice hf
    | deviceCertTimeout =>
      by_cases hpos : 0 < s.fetching
      · cases hinst : installable E s.session.deviceIdentity (deviceCertTimeoutData E) with
        | some install =>
          obtain ⟨key, cert⟩ := install
          obtain ⟨n, hn⟩ := Nat.exists_eq_add_one.mpr hpos
          obtain rfl : f = n + 1 := hf.symm.trans hn
          rw [faceOutputs_cons_of_react rfl (react_of_installable hhalted rfl hpos hinst)]
          exact .timedOut (hdevice ▸ hinst) (ih ⟨hserves, hended⟩ hdevice (Nat.sub_eq_of_eq_add hn))
        | none => exact hends (react_of_not_installable hhalted rfl hpos hinst) rfl
      · exact hquiet (react_of_fetching_eq_zero hhalted rfl (Nat.eq_zero_of_not_pos hpos)) rfl
    | deviceCertNack =>
      rw [faceOutputs_deviceCertNack hhalted]
      exact .nacked (ih ⟨hserves, hended⟩ hdevice rfl)

omit [DecidableEq α] in
/-- A run that waits for nothing serves no certificate. -/
theorem Inactive.serving_ne_some {s : Run α} (h : s.Inactive) (serving : Serving) :
    s.serving ≠ some serving := by
  rw [h.1]
  exact (Option.some_ne_none serving).symm

/-- A run that waits for nothing does nothing. -/
theorem faceOutputs_of_inactive {s : Run α} (h : s.Inactive) (hended : s.awaitingOwner = false)
    (events : List (Event α)) : s.faceOutputs E events = [] := by
  induction events generalizing s with
  | nil => rfl
  | cons e events ih =>
    obtain ⟨hserving, hfetching⟩ := id h
    rw [faceOutputs_cons_of_fetching_eq_zero hfetching]
    have hreaction := reaction (E := E) s e
    have hended' := awaitingOwner_step (E := E) hended e
    generalize s.step E e = s', s.out E e = outs at hreaction hended'
    cases hreaction with
    | quiet _ hserving' _ _ hfetching' =>
      exact ih ⟨hserving'.trans hserving, by omega⟩ hended'
    | ownerRefused _ hawaiting _ => exact Bool.noConfusion (hended.symm.trans hawaiting)
    | ownerAccepted _ hawaiting _ _ _ => exact Bool.noConfusion (hended.symm.trans hawaiting)
    | served _ hserving' _ => exact absurd hserving' (h.serving_ne_some _)
    | refused _ hserving' _ _ => exact absurd hserving' (h.serving_ne_some _)
    | refusedForGood _ hserving' _ _ _ => exact absurd hserving' (h.serving_ne_some _)
    | installed _ _ hinst => exact absurd hfetching hinst.2.1.ne'

/-- What is shown after the first Interest. -/
theorem faceOutputs_of_waiting {s : Run α} (h : s.Inactive) (events : List (Event α)) :
    s.faceOutputs E events = [] ∨
      (∃ d, E.text.validateOwnerCertResp d s.randomNo E.pairCode = some false ∧
        s.faceOutputs E events = [.onFail (bytes "owner certificate is not valid.")]) ∨
      ∃ d dname owner id outs,
        E.text.validateOwnerCertResp d s.randomNo E.pairCode = some true ∧
          E.text.extractOwnerCert E.toCertificateCodec d = some (dname, owner) ∧
          E.createIdentity dname = some id ∧
          Paired E id.defaultCertificate s.session.deviceIdentity 0 0 outs ∧
          s.faceOutputs E events = .ownerCert owner :: outs := by
  induction events generalizing s with
  | nil => exact Or.inl rfl
  | cons e events ih =>
    obtain ⟨hserving, hfetching⟩ := id h
    rw [faceOutputs_cons_of_fetching_eq_zero hfetching]
    have hreaction := reaction (E := E) s e
    generalize s.step E e = s', s.out E e = outs at hreaction
    cases hreaction with
    | quiet hsession hserving' hnonce _ hfetching' =>
      have hrest := ih (s := s') ⟨hserving'.trans hserving, by omega⟩
      rw [hsession, hnonce] at hrest
      exact hrest
    | ownerRefused hd hawaiting hinvalid =>
      refine Or.inr (Or.inl ⟨_, hinvalid, ?_⟩)
      have hinactive : Inactive { s with awaitingOwner := false } := ⟨hserving, hfetching⟩
      rw [faceOutputs_of_inactive hinactive rfl]
      rfl
    | @ownerAccepted d dname owner id hd hawaiting hvalid hextract hid =>
      refine Or.inr (Or.inr ⟨d, dname, owner, id, _, hvalid, hextract, hid, ?_, rfl⟩)
      exact (accepted_serves s owner id).paired (accepted_deviceIdentity s owner id)
        ((accepted_fetching s owner id).trans hfetching) events
    | served _ hserving' _ => exact absurd hserving' (h.serving_ne_some _)
    | refused _ hserving' _ _ => exact absurd hserving' (h.serving_ne_some _)
    | refusedForGood _ hserving' _ _ _ => exact absurd hserving' (h.serving_ne_some _)
    | installed _ _ hinst => exact absurd hfetching hinst.2.1.ne'

/-! ## What is allowed is shown -/

end Run

/-- **What is allowed once the owner is accepted is shown by a run.** -/
theorem Paired.exists_events {r f : ℕ} {outs : List (Output α)}
    (h : Paired E unsigned device r f outs) {s : Run α} (hrunning : s.halted = false)
    (hserves : s.Serves unsigned r) (hdevice : s.session.deviceIdentity = device)
    (hf : s.fetching = f) : ∃ events, s.faceOutputs E events = outs := by
  induction h generalizing s with
  | nothing => exact ⟨[], rfl⟩
  | serve args hvalid _ ih =>
    obtain ⟨events, rfl⟩ := ih (s := { s with fetching := s.fetching + 1 }) hrunning hserves hdevice
      (congrArg Nat.succ hf)
    exact ⟨.request args :: events, Run.faceOutputs_cons_of_react rfl
      (Run.react_of_valid hrunning hserves.1 hvalid) events⟩
  | @refuse r f outs args hinvalid hr _ ih =>
    have hmax : r < INT_MAX := hr.trans_lt (by decide)
    obtain ⟨events, rfl⟩ := ih (s := { s with serving := some ⟨unsigned, r + 1⟩ }) hrunning
      ⟨rfl, hserves.2⟩ hdevice hf
    refine ⟨.request args :: events, ?_⟩
    rw [Run.faceOutputs_cons_of_react rfl
      (Run.react_of_invalid hrunning hserves.1 hinvalid hmax), Run.refusal,
      if_neg (Nat.not_lt.mpr hr)]
    rfl
  | @giveUp r f outs args hinvalid hr hmax _ ih =>
    obtain ⟨events, rfl⟩ := ih (s := { s with serving := some ⟨unsigned, r + 1⟩ }) hrunning
      ⟨rfl, hserves.2⟩ hdevice hf
    refine ⟨.request args :: events, ?_⟩
    rw [Run.faceOutputs_cons_of_react rfl
      (Run.react_of_invalid hrunning hserves.1 hinvalid hmax), Run.refusal, if_pos hr]
    rfl
  | answered d hinst _ ih =>
    obtain ⟨events, rfl⟩ := ih (s := { s with fetching := 0 }) hrunning hserves hdevice rfl
    refine ⟨.deviceCertReply d :: events, ?_⟩
    rw [Run.faceOutputs_deviceCertReply hrunning (hdevice ▸ hinst), hf]
  | @timedOut r f outs key cert hinst _ ih =>
    obtain ⟨events, rfl⟩ := ih (s := { s with fetching := s.fetching - 1 }) hrunning hserves hdevice
      (by rw [hf, Nat.add_sub_cancel])
    exact ⟨.deviceCertTimeout :: events, Run.faceOutputs_cons_of_react rfl
      (Run.react_of_installable hrunning rfl (hf ▸ Nat.succ_pos f) (hdevice ▸ hinst)) events⟩
  | nacked _ ih =>
    obtain ⟨events, rfl⟩ := ih (s := { s with fetching := 0 }) hrunning hserves hdevice rfl
    exact ⟨.deviceCertNack :: events, Run.faceOutputs_deviceCertNack hrunning events⟩

/-- All that a run of `bootstrap::start` shows. -/
def Run.shown (E : Env α) (session : Session) (randomNo : List α) (events : List (Event α)) :
    List (Output α) :=
  (start E session randomNo).2 ++ (start E session randomNo).1.outputs E events

/-- All that it shows of what arrives at the face. -/
def Run.shownAtFace (E : Env α) (session : Session) (randomNo : List α)
    (events : List (Event α)) : List (Output α) :=
  (start E session randomNo).2 ++ (start E session randomNo).1.faceOutputs E events

/-- The run that has expressed the first Interest. -/
def Run.waiting (session : Session) (randomNo : List α) : Run α :=
  { idle session randomNo with awaitingOwner := true }

omit [DecidableEq α] in
theorem Run.start_of_valid {session : Session} (hsession : isValidSession session = true)
    (hconfig : isValidConfig E.cfg = true) (randomNo : List α) :
    start E session randomNo = (waiting session randomNo,
      [.interest (E.text.constructBootstrapName E.wellknown randomNo E.pairId E.pairCode)]) := by
  rw [start, if_neg (by rw [hsession]; decide), if_neg (by rw [hconfig]; decide)]
  rfl

/-- What is shown after the first Interest is allowed. -/
theorem Protocol.of_waiting {session : Session} (hsession : isValidSession session = true)
    (hconfig : isValidConfig E.cfg = true) (randomNo : List α) (events : List (Event α)) :
    Protocol E session randomNo
      (.interest (E.text.constructBootstrapName E.wellknown randomNo E.pairId E.pairCode) ::
        (Run.waiting session randomNo).faceOutputs E events) := by
  rcases Run.faceOutputs_of_waiting (E := E) (s := Run.waiting session randomNo) ⟨rfl, rfl⟩
    events with
    hnone | ⟨d, hinvalid, heq⟩ | ⟨d, dname, owner, id, outs, hvalid, hextract, hid, hpaired, heq⟩
  · rw [hnone]
    exact .unanswered hsession hconfig
  · rw [heq]
    exact .ownerRefused hsession hconfig d hinvalid
  · rw [heq]
    exact .ownerAccepted hsession hconfig d hvalid hextract hid hpaired

/-- An acceptable response installs the handler. -/
theorem Run.react_of_accepted {s : Run α} {d : TextData α} {dname : List α} {owner : Certificate}
    {id : Identity} (hrunning : s.halted = false) (hawaiting : s.awaitingOwner = true)
    (hvalid : E.text.validateOwnerCertResp d s.randomNo E.pairCode = some true)
    (hextract : E.text.extractOwnerCert E.toCertificateCodec d = some (dname, owner))
    (hid : E.createIdentity dname = some id) :
    s.react E (.ownerReply d) = (s.accepted owner id, [.ownerCert owner]) := by
  rw [react_of_ownerAnswer hrunning rfl]
  unfold answerOwner receiveOwnerCert
  rw [if_pos hawaiting, hvalid]
  dsimp only
  rw [hextract]
  dsimp only
  rw [hid]
  rfl

/-- Every run is allowed. -/
theorem Protocol.of_shown (E : Env α) (session : Session) (randomNo : List α)
    (events : List (Event α)) :
    Protocol E session randomNo (Run.shownAtFace E session randomNo events) := by
  by_cases hsession : isValidSession session = true
  · by_cases hconfig : isValidConfig E.cfg = true
    · rw [Run.shownAtFace, Run.start_of_valid hsession hconfig]
      exact .of_waiting hsession hconfig randomNo events
    · rw [Bool.not_eq_true] at hconfig
      rw [Run.shownAtFace, Run.start, if_neg (by rw [hsession]; decide), if_pos hconfig]
      dsimp only
      rw [Run.faceOutputs_of_inactive ⟨rfl, rfl⟩ rfl]
      exact .invalidConfig hsession hconfig
  · rw [Bool.not_eq_true] at hsession
    rw [Run.shownAtFace, Run.start, if_pos hsession]
    dsimp only
    rw [Run.faceOutputs_of_inactive ⟨rfl, rfl⟩ rfl]
    exact .invalidSession hsession

/-- **What a run of `bootstrap::start` can show** is what the protocol allows, whatever arrives and
in whatever order; and everything the protocol allows is shown by some run. -/
theorem outputs_iff_protocol (E : Env α) (session : Session) (randomNo : List α)
    (outs : List (Output α)) :
    (∃ events, Run.shownAtFace E session randomNo events = outs) ↔
      Protocol E session randomNo outs := by
  constructor
  · rintro ⟨events, rfl⟩
    exact .of_shown E session randomNo events
  · intro h
    cases h with
    | invalidSession h =>
      refine ⟨[], ?_⟩
      rw [Run.shownAtFace, Run.start, if_pos h]
      rfl
    | invalidConfig hsession h =>
      refine ⟨[], ?_⟩
      rw [Run.shownAtFace, Run.start, if_neg (by rw [hsession]; decide), if_pos h]
      rfl
    | unanswered hsession hconfig =>
      refine ⟨[], ?_⟩
      rw [Run.shownAtFace, Run.start_of_valid hsession hconfig]
      rfl
    | ownerRefused hsession hconfig d hinvalid =>
      have hrefuses : (Run.waiting session randomNo).RefusesOwner E (.ownerReply d) :=
        ⟨d, rfl, rfl, rfl, hinvalid⟩
      have hreact : (Run.waiting session randomNo).react E (.ownerReply d) =
          (_, [.onFail (bytes "owner certificate is not valid.")]) :=
        Prod.ext (Run.out_of_refusesOwner hrefuses).1 (Run.out_of_refusesOwner hrefuses).2
      refine ⟨[.ownerReply d], ?_⟩
      rw [Run.shownAtFace, Run.start_of_valid hsession hconfig]
      dsimp only
      rw [Run.faceOutputs_cons_of_react rfl hreact]
      rfl
    | @ownerAccepted hsession hconfig d dname owner id outs hvalid hextract hid h =>
      have hreact := Run.react_of_accepted (s := Run.waiting session randomNo) rfl rfl hvalid
        hextract hid
      obtain ⟨events, heq⟩ := h.exists_events
        (s := (Run.waiting session randomNo).accepted owner id)
        (Run.accepted_halted _ _ _) (Run.accepted_serves _ _ _)
        (Run.accepted_deviceIdentity _ _ _) (Run.accepted_fetching _ _ _)
      refine ⟨.ownerReply d :: events, ?_⟩
      rw [Run.shownAtFace, Run.start_of_valid hsession hconfig]
      dsimp only
      rw [Run.faceOutputs_cons_of_react rfl hreact, heq]
      rfl

end Nacapp.Bootstrap
