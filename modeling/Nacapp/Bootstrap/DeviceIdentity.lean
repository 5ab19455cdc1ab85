import Nacapp.Bootstrap.GuessLimit

/-!
# The identity the signed certificate is installed on

`setDeviceCert` installs the signed certificate on the default key of `session.deviceIdentity`.
The identity of the run is another matter: `generateIdentity` creates it for the device name in
the owner's response and returns its certificate, which is served to the owner, but nothing
stores the identity in the session.

`installsOnCreated_iff`: the certificate is installed on the identity that was created exactly
when the session that is handed to `start` holds that identity already.

* `ServesCreated`: the certificate that is served is that of the one identity created in the
  run.
-/

namespace Nacapp.Bootstrap

open Transitions SymbolicMac HmacText

variable {α : Type} [DecidableEq α]

namespace Run

/-! ## Identities created in a run -/

/-- The identity `generateIdentity` creates when the event brings the owner's response, with the
device name it is created for. -/
def createdBy (E : Env α) (s : Run α) (e : Event α) : List (List α × Identity) :=
  match s.ownerAnswer E e with
  | none => []
  | some d =>
    if s.halted = false ∧ s.awaitingOwner = true ∧
        E.text.validateOwnerCertResp d s.randomNo E.pairCode = some true then
      match E.text.extractOwnerCert E.toCertificateCodec d with
      | none => []
      | some (dname, _) => (E.createIdentity dname).toList.map fun id => (dname, id)
    else []

/-- The identities created in a run. -/
def created (E : Env α) (s : Run α) (events : List (Event α)) : List (List α × Identity) :=
  emitted (step E) (createdBy E) s events

variable {E : Env α}

/-- An identity is created for the response that is accepted. -/
theorem createdBy_of_accepted {s : Run α} {e : Event α} {d : TextData α} {dname : List α}
    {owner : Certificate} {id : Identity} (hrunning : s.halted = false)
    (hawaiting : s.awaitingOwner = true) (hd : s.ownerAnswer E e = some d)
    (hvalid : E.text.validateOwnerCertResp d s.randomNo E.pairCode = some true)
    (hextract : E.text.extractOwnerCert E.toCertificateCodec d = some (dname, owner))
    (hid : E.createIdentity dname = some id) : createdBy E s e = [(dname, id)] := by
  unfold createdBy
  rw [hd]
  dsimp only
  rw [if_pos ⟨hrunning, hawaiting, hvalid⟩, hextract]
  dsimp only
  rw [hid]
  rfl

/-- What is created is the one identity of an accepted response. -/
theorem accepted_of_mem_createdBy {s : Run α} {e : Event α} {p : List α × Identity}
    (h : p ∈ createdBy E s e) :
    s.halted = false ∧ s.awaitingOwner = true ∧ ∃ d owner, s.ownerAnswer E e = some d ∧
      E.text.validateOwnerCertResp d s.randomNo E.pairCode = some true ∧
      E.text.extractOwnerCert E.toCertificateCodec d = some (p.1, owner) ∧
      E.createIdentity p.1 = some p.2 := by
  unfold createdBy at h
  split at h
  · exact absurd h List.not_mem_nil
  · rename_i d hd
    split at h
    · rename_i haccepted
      split at h
      · exact absurd h List.not_mem_nil
      · rename_i dname owner hextract
        obtain ⟨id, hid, rfl⟩ := List.mem_map.mp h
        exact ⟨haccepted.1, haccepted.2.1, d, owner, hd, haccepted.2.2, hextract,
          Option.mem_toList.mp hid⟩
    · exact absurd h List.not_mem_nil

/-- The step that creates an identity serves its certificate from then on. -/
theorem serves_of_mem_createdBy {s : Run α} {e : Event α} {p : List α × Identity}
    (h : p ∈ createdBy E s e) : (s.step E e).Serves p.2.defaultCertificate 0 := by
  obtain ⟨hrunning, hawaiting, d, owner, hd, hvalid, hextract, hid⟩ := accepted_of_mem_createdBy h
  have hreact : s.step E e = (receiveOwnerCert E { s with awaitingOwner := false } d).1 := by
    rw [step, react_of_ownerAnswer hrunning hd, answerOwner, if_pos hawaiting]
  rw [hreact]
  exact serves_of_receiveOwnerCert rfl hvalid hextract hid

/-! ## What is served -/

/-- After `created`: while the owner's response is awaited nothing was created and nothing is
served, and what is served is the certificate of the one identity that was created. -/
structure ServesCreated (s : Run α) (created : List (List α × Identity)) : Prop where
  awaited : s.awaitingOwner = true → created = [] ∧ s.serving = none
  serving : ∀ serving, s.serving = some serving →
    ∃ p, created = [p] ∧ serving.deviceCertUnsigned = p.2.defaultCertificate

/-- A step that creates nothing leaves the certificate that is served as it is. -/
theorem serving_step_of_createdBy_eq_nil {s : Run α} {e : Event α} (h : createdBy E s e = []) :
    (s.step E e).serving.map Serving.deviceCertUnsigned =
      s.serving.map Serving.deviceCertUnsigned := by
  by_cases hrunning : s.halted = true
  · unfold step react
    rw [if_pos hrunning]
  rw [Bool.not_eq_true] at hrunning
  have hreaction := reaction (E := E) s e
  generalize s.step E e = s', s.out E e = outs at hreaction
  cases hreaction with
  | quiet _ hserving _ _ _ => rw [hserving]
  | ownerAccepted hd hawaiting hvalid hextract hid =>
    rw [createdBy_of_accepted hrunning hawaiting hd hvalid hextract hid] at h
    exact absurd h (List.cons_ne_nil _ _)
  | refused _ hserving _ _ => rw [hserving]; rfl
  | refusedForGood _ hserving _ _ => rw [hserving]; rfl
  | _ => rfl

theorem ServesCreated.step {s : Run α} {created : List (List α × Identity)}
    (h : s.ServesCreated created) (e : Event α) :
    (s.step E e).ServesCreated (created ++ createdBy E s e) := by
  cases hnew : createdBy E s e with
  | nil =>
    rw [List.append_nil]
    have hkeep := serving_step_of_createdBy_eq_nil hnew
    constructor
    · intro hawaiting
      have hbefore : s.awaitingOwner = true := awaitingOwner_of_step hawaiting
      rw [(h.awaited hbefore).2, Option.map_none] at hkeep
      exact ⟨(h.awaited hbefore).1, Option.map_eq_none_iff.mp hkeep⟩
    · intro serving hserving
      rw [hserving, Option.map_some] at hkeep
      obtain ⟨old, hold, hcert⟩ := Option.map_eq_some_iff.mp hkeep.symm
      rw [← hcert]
      exact h.serving old hold
  | cons p rest =>
    have hmem : p ∈ createdBy E s e := by
      rw [hnew]
      exact List.mem_cons_self
    obtain ⟨hrunning, hawaiting, d, owner, hd, hvalid, hextract, hid⟩ :=
      accepted_of_mem_createdBy hmem
    obtain ⟨hserves, hended⟩ := serves_of_mem_createdBy hmem
    -- it is the first identity, and the only one
    rw [(h.awaited hawaiting).1, List.nil_append, ← hnew,
      createdBy_of_accepted hrunning hawaiting hd hvalid hextract hid]
    constructor
    · intro hstill
      exact Bool.noConfusion (hended.symm.trans hstill)
    · intro serving hserving
      obtain rfl := Option.some.inj (hserves.symm.trans hserving)
      exact ⟨p, rfl, rfl⟩

theorem servesCreated_run {s : Run α} (h : s.ServesCreated []) (events : List (Event α)) :
    (s.run E events).ServesCreated (s.created E events) := by
  have hrun : (s.run E events).ServesCreated ([] ++ s.created E events) :=
    invariant_emitted (fun s created e h => h.step e) h events
  rwa [List.nil_append] at hrun

omit [DecidableEq α] in
theorem servesCreated_start (session : Session) (randomNo : List α) :
    (start E session randomNo).1.ServesCreated [] := by
  have hfresh : ∀ s : Run α, s.serving = none → s.ServesCreated [] := by
    intro s hserving
    constructor
    · exact fun _ => ⟨rfl, hserving⟩
    · intro serving hsome
      rw [hserving] at hsome
      cases hsome
  unfold start
  split
  · exact hfresh _ rfl
  · split <;> exact hfresh _ rfl

/-! ## The identity of the session -/

omit [DecidableEq α] in
theorem onOwnerCert_deviceIdentity (s : Run α) (owner : Certificate) :
    (s.onOwnerCert owner).session.deviceIdentity = s.session.deviceIdentity := by
  unfold onOwnerCert setTrustAnchor
  split <;> rfl

/-- **Nothing sets the identity of the session.** -/
theorem deviceIdentity_run (s : Run α) (events : List (Event α)) :
    (s.run E events).session.deviceIdentity = s.session.deviceIdentity := by
  refine invariant (I := fun s' : Run α => s'.session.deviceIdentity = s.session.deviceIdentity)
    (fun e _ s' hs' => ?_) rfl
  have hreaction := reaction (E := E) s' e
  generalize s'.step E e = s'', s'.out E e = outs at hreaction
  cases hreaction with
  | quiet hsession _ _ _ _ => rw [hsession, hs']
  | ownerAccepted => exact (onOwnerCert_deviceIdentity _ _).trans hs'
  | _ => exact hs'

omit [DecidableEq α] in
theorem deviceIdentity_start (session : Session) (randomNo : List α) :
    (start E session randomNo).1.session.deviceIdentity = session.deviceIdentity := by
  unfold start
  split
  · rfl
  · split <;> rfl

/-! ## Installing on the identity that was created -/

/-- `setDeviceCert` is called: a certificate answers an Interest for the signed one. -/
def CallsSetDeviceCert (E : Env α) (s : Run α) (e : Event α) : Prop :=
  s.halted = false ∧ 0 < s.fetching ∧
    ∃ d cert, e.deviceCertAnswer E = some d ∧ E.ofContent d.content = some cert

/-- **Whenever `setDeviceCert` is called**, one identity was created in the run, for the device
name of the owner's response, the session holds it, and its certificate is the one that was
served. -/
def InstallsOnCreated (E : Env α) (s : Run α) (events : List (Event α)) : Prop :=
  ∀ pre e post, events = pre ++ e :: post → CallsSetDeviceCert E (s.run E pre) e →
    ∃ dname id, s.created E pre = [(dname, id)] ∧
      (s.run E pre).session.deviceIdentity = some id ∧
      (s.run E pre).serving.map Serving.deviceCertUnsigned = some id.defaultCertificate

/-- Whenever `setDeviceCert` is called, the session `start` was given holds what was created. -/
def GivenCreated (E : Env α) (session : Session) (s : Run α) (events : List (Event α)) : Prop :=
  ∀ pre e post, events = pre ++ e :: post → CallsSetDeviceCert E (s.run E pre) e →
    ∀ p ∈ s.created E pre, session.deviceIdentity = some p.2

/-- **The signed certificate is installed on the identity created in the run** exactly when
the session that `start` was given holds that identity. -/
theorem installsOnCreated_iff (E : Env α) (session : Session) (randomNo : List α)
    (events : List (Event α)) :
    InstallsOnCreated E (start E session randomNo).1 events ↔
      GivenCreated E session (start E session randomNo).1 events := by
  have hgiven : ∀ pre, ((start E session randomNo).1.run E pre).session.deviceIdentity =
      session.deviceIdentity := fun pre =>
    (deviceIdentity_run _ pre).trans (deviceIdentity_start session randomNo)
  constructor
  · intro h pre e post heq hcalls p hp
    obtain ⟨dname, id, hcreated, hidentity, -⟩ := h pre e post heq hcalls
    rw [hcreated] at hp
    obtain rfl := List.mem_singleton.mp hp
    rwa [hgiven] at hidentity
  · intro h pre e post heq hcalls
    -- an Interest for the signed certificate is outstanding, so a certificate is served
    have hserving := (ownerKnown_outputs (ownerKnown_start (E := E) session randomNo)
      pre).fetching hcalls.2.1
    obtain ⟨serving, hserving⟩ := Option.isSome_iff_exists.mp hserving
    obtain ⟨p, hcreated, hcert⟩ := (servesCreated_run (E := E)
      (servesCreated_start session randomNo) pre).serving serving hserving
    refine ⟨p.1, p.2, hcreated, ?_, ?_⟩
    · rw [hgiven]
      refine h pre e post heq hcalls p ?_
      rw [hcreated]
      exact List.mem_cons_self
    · rw [hserving, Option.map_some, hcert]

end Run

/-! ## A session with a key chain only -/

/-- What `isValidSession` asks for. -/
def keychainSession : Session := ⟨some ⟨bytes "device-key"⟩, none, none, none⟩

/-- The session has a key chain and no identity, and the run gets as far as `setDeviceCert`. -/
theorem identity_not_in_session :
    ¬ ∀ (E : Env (Symbol UInt8)) (session : Session) (randomNo : List (Symbol UInt8))
      (events : List (Event (Symbol UInt8))), isValidSession session = true →
        isValidConfig E.cfg = true →
        Run.InstallsOnCreated E (Run.start E session randomNo).1 events := by
  intro h
  have hinstalls := h pairedEnv keychainSession (plain (bytes "1923856"))
    (ownerEvents ++ [.deviceCertReply rogueReply]) rfl (by decide +kernel)
  have hcalls : Run.CallsSetDeviceCert pairedEnv
      ((Run.start pairedEnv keychainSession (plain (bytes "1923856"))).1.run pairedEnv ownerEvents)
      (.deviceCertReply rogueReply) := by
    have hread : pairedEnv.ofContent rogueReply.content = some rogueCert := by decide +kernel
    exact ⟨by decide +kernel, by decide +kernel, rogueReply, rogueCert, rfl, hread⟩
  obtain ⟨dname, id, -, hidentity, -⟩ := hinstalls ownerEvents _ [] rfl hcalls
  rw [Run.deviceIdentity_run, Run.deviceIdentity_start] at hidentity
  cases hidentity

end Nacapp.Bootstrap
