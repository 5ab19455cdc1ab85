import Nacapp.Bootstrap.Protocol

/-!
# What one event can do

`Reaction` lists everything the device does when something arrives, with the checks that were
passed before it; `reaction` says that the list is complete.  What is said about whole runs
follows from it by cases.
-/

namespace Nacapp.Bootstrap

variable {α : Type} [DecidableEq α]

/-! ## Answers -/

/-- The Data an event delivers in answer to the Interest for the owner's certificate. -/
def Run.ownerAnswer (E : Env α) (s : Run α) : Event α → Option (TextData α)
  | .ownerReply d => some d
  | .ownerTimeout => some (timeoutData E (s.ownerCertName E))
  | _ => none

/-- The Data an event delivers in answer to an Interest for the signed certificate. -/
def Event.deviceCertAnswer (E : Env α) : Event α → Option (TextData α)
  | .deviceCertReply d => some d
  | .deviceCertTimeout => some (Run.timeoutData E (E.text.deviceCertName E.wellknown E.pairId))
  | _ => none

namespace Run

/-- An Interest for the signed certificate is outstanding, and the certificate fits the key of
the device. -/
def Installs (E : Env α) (s : Run α) (cert : Certificate) (key : Key) : Prop :=
  s.halted = false ∧ 0 < s.fetching ∧ s.setDeviceCert E cert = some key

/-! ## Reactions -/

/-- What an event can do. -/
inductive Reaction (E : Env α) (s : Run α) (e : Event α) : Run α → List (Output α) → Prop
  /-- Nothing that is seen; an Interest may end, and so may the run. -/
  | quiet {s' : Run α} (hsession : s'.session = s.session) (hserving : s'.serving = s.serving)
      (hnonce : s'.randomNo = s.randomNo)
      (hawaiting : s'.awaitingOwner = true → s.awaitingOwner = true)
      (hfetching : s'.fetching ≤ s.fetching) : Reaction E s e s' []
  | ownerRefused {d : TextData α} (hd : s.ownerAnswer E e = some d)
      (hawaiting : s.awaitingOwner = true)
      (hinvalid : E.text.validateOwnerCertResp d s.randomNo E.pairCode = some false) :
      Reaction E s e { s with awaitingOwner := false }
        [.onFail (bytes "owner certificate is not valid.")]
  | ownerAccepted {d : TextData α} {dname : List α} {owner : Certificate} {id : Identity}
      (hd : s.ownerAnswer E e = some d) (hawaiting : s.awaitingOwner = true)
      (hvalid : E.text.validateOwnerCertResp d s.randomNo E.pairCode = some true)
      (hextract : E.text.extractOwnerCert E.toCertificateCodec d = some (dname, owner))
      (hid : E.createIdentity dname = some id) :
      Reaction E s e
        { onOwnerCert { s with awaitingOwner := false } owner with
          serving := some ⟨id.defaultCertificate, 0⟩ }
        [.ownerCert owner]
  | served {serving : Serving} {args : TextName α} (he : e = .request args)
      (hserving : s.serving = some serving)
      (hvalid : E.text.validateOwnerRequest (E.nodePrefix ++ args) args E.pairCode = some true) :
      Reaction E s e { s with fetching := s.fetching + 1 }
        [.data (E.text.hmacSignUnsignedCert E.toCertificateCodec serving.deviceCertUnsigned
          E.pairId E.pairCode), .interest (E.text.deviceCertName E.wellknown E.pairId)]
  | refused {serving : Serving} {args : TextName α} (he : e = .request args)
      (hserving : s.serving = some serving)
      (hinvalid : E.text.validateOwnerRequest (E.nodePrefix ++ args) args E.pairCode = some false)
      (hretry : serving.retry ≤ 10) :
      Reaction E s e { s with serving := some { serving with retry := serving.retry + 1 } }
        [.data ⟨E.nodePrefix ++ args, E.text.str (bytes "Invalid request")⟩]
  | refusedForGood {serving : Serving} {args : TextName α} (he : e = .request args)
      (hserving : s.serving = some serving)
      (hinvalid : E.text.validateOwnerRequest (E.nodePrefix ++ args) args E.pairCode = some false)
      (hretry : serving.retry > 10) (hmax : serving.retry < INT_MAX) :
      Reaction E s e { s with serving := some { serving with retry := serving.retry + 1 } }
        [.onFail (bytes "Invalid request - Max Retry Reached"),
          .data ⟨E.nodePrefix ++ args, E.text.str (bytes "Invalid request - Max Retry Reached")⟩]
  | installed {d : TextData α} {cert : Certificate} {key : Key}
      (hd : e.deviceCertAnswer E = some d) (hcert : E.ofContent d.content = some cert)
      (hinst : s.Installs E cert key) :
      Reaction E s e { s with fetching := s.fetching - 1 } [.deviceCert key cert, .onSuccess]

variable {E : Env α}

theorem reaction_answerOwner {s : Run α} {e : Event α} {d : TextData α}
    (hd : s.ownerAnswer E e = some d) :
    Reaction E s e (s.answerOwner E d).1 (s.answerOwner E d).2 := by
  rw [answerOwner]
  split
  · rename_i hawaiting
    rw [receiveOwnerCert]
    dsimp only
    split
    · exact .quiet rfl rfl rfl (fun _ => hawaiting) le_rfl
    · rename_i hinvalid
      exact .ownerRefused hd hawaiting hinvalid
    · rename_i hvalid
      split
      · exact .quiet rfl rfl rfl (fun _ => hawaiting) le_rfl
      · rename_i hextract
        split
        · exact .quiet rfl rfl rfl (fun _ => hawaiting) le_rfl
        · rename_i hid
          exact .ownerAccepted hd hawaiting hvalid hextract hid
  · exact .quiet rfl rfl rfl id le_rfl

theorem reaction_serveDeviceUnsignedCert {s : Run α} {serving : Serving} {args : TextName α}
    (hserving : s.serving = some serving) :
    Reaction E s (.request args) (s.serveDeviceUnsignedCert E serving args).1
      (s.serveDeviceUnsignedCert E serving args).2 := by
  rw [serveDeviceUnsignedCert]
  dsimp only
  split
  · exact .quiet rfl rfl rfl id le_rfl
  · rename_i hvalid
    exact .served rfl hserving hvalid
  · rename_i hinvalid
    split
    · exact .quiet rfl rfl rfl id le_rfl
    · rename_i hmax
      split
      · rename_i hretry
        exact .refusedForGood rfl hserving hinvalid hretry (by omega)
      · rename_i hretry
        exact .refused rfl hserving hinvalid (by omega)

theorem reaction_answerDeviceCert {s : Run α} {e : Event α} {d : TextData α}
    (hrunning : s.halted = false) (hd : e.deviceCertAnswer E = some d) :
    Reaction E s e (s.answerDeviceCert E d).1 (s.answerDeviceCert E d).2 := by
  rw [answerDeviceCert]
  split
  · rename_i hfetching
    rw [receiveDeviceCert]
    split
    · rename_i hcert
      rw [onDeviceCertSigned]
      split
      · rename_i hkey
        exact .installed hd hcert ⟨hrunning, hfetching, hkey⟩
      · exact .quiet rfl rfl rfl id (Nat.sub_le _ _)
    · exact .quiet rfl rfl rfl id (Nat.sub_le _ _)
  · exact .quiet rfl rfl rfl id le_rfl

/-- **What an event can do.** -/
theorem reaction (s : Run α) (e : Event α) : Reaction E s e (s.step E e) (s.out E e) := by
  unfold step out react
  split
  · exact .quiet rfl rfl rfl id le_rfl
  · rename_i hrunning
    rw [Bool.not_eq_true] at hrunning
    cases e with
    | ownerReply d => exact reaction_answerOwner rfl
    | ownerTimeout => exact reaction_answerOwner rfl
    | ownerNack => exact .quiet rfl rfl rfl nofun le_rfl
    | request args =>
      dsimp only
      split
      · rename_i hserving
        exact reaction_serveDeviceUnsignedCert hserving
      · exact .quiet rfl rfl rfl id le_rfl
    | deviceCertReply d => exact reaction_answerDeviceCert hrunning rfl
    | deviceCertTimeout => exact reaction_answerDeviceCert hrunning rfl
    | deviceCertNack => exact .quiet rfl rfl rfl id (Nat.sub_le _ _)

/-! ## Reacting to an answer -/

/-- An answer to the first Interest goes to its receiver. -/
theorem react_of_ownerAnswer {s : Run α} {e : Event α} {d : TextData α}
    (hrunning : s.halted = false) (hd : s.ownerAnswer E e = some d) :
    s.react E e = s.answerOwner E d := by
  unfold react
  rw [if_neg (by rw [hrunning]; decide)]
  cases e with
  | ownerReply d' => rw [← Option.some.inj hd]
  | ownerTimeout => rw [← Option.some.inj hd]
  | _ => cases hd

/-- So does an answer to an Interest for the signed certificate. -/
theorem react_of_deviceCertAnswer {s : Run α} {e : Event α} {d : TextData α}
    (hrunning : s.halted = false) (hd : e.deviceCertAnswer E = some d) :
    s.react E e = s.answerDeviceCert E d := by
  unfold react
  rw [if_neg (by rw [hrunning]; decide)]
  cases e with
  | deviceCertReply d' => rw [← Option.some.inj hd]
  | deviceCertTimeout => rw [← Option.some.inj hd]
  | _ => cases hd

/-! ## Over a run -/

/-- The nonce is the same throughout a run. -/
theorem randomNo_run (s : Run α) (events : List (Event α)) :
    (s.run E events).randomNo = s.randomNo := by
  refine Transitions.invariant (I := fun s' : Run α => s'.randomNo = s.randomNo)
    (fun e _ s' hs' => ?_) rfl
  have hreaction := reaction (E := E) s' e
  generalize s'.step E e = s'', s'.out E e = outs at hreaction
  cases hreaction with
  | quiet _ _ hnonce _ _ => exact hnonce.trans hs'
  | ownerAccepted => exact (onOwnerCert_randomNo _ _).trans hs'
  | _ => exact hs'

/-- **An owner's certificate was accepted**: `validateOwnerCertResp` returned true, for the nonce
of the run, for the response it was taken from. -/
theorem accepted_of_mem_outputs {s : Run α} {events : List (Event α)} {owner : Certificate}
    (h : .ownerCert owner ∈ s.outputs E events) :
    ∃ pre e post d dname, events = pre ++ e :: post ∧ (s.run E pre).ownerAnswer E e = some d ∧
      E.text.validateOwnerCertResp d s.randomNo E.pairCode = some true ∧
      E.text.extractOwnerCert E.toCertificateCodec d = some (dname, owner) := by
  obtain ⟨pre, e, post, heq, hout⟩ := Transitions.exists_step_of_mem_emitted _ _ h
  have hout : .ownerCert owner ∈ (s.run E pre).out E e := hout
  have hreaction := reaction (E := E) (s.run E pre) e
  generalize (s.run E pre).step E e = s', (s.run E pre).out E e = outs at hout hreaction
  cases hreaction with
  | ownerAccepted hd _ hvalid hextract _ =>
    obtain rfl := Output.ownerCert.inj (List.mem_singleton.mp hout)
    rw [randomNo_run] at hvalid
    exact ⟨pre, e, post, _, _, heq, hd, hvalid, hextract⟩
  | _ => simp at hout

/-! ## Installing a certificate -/

/-- An awaited certificate that fits is installed, and the run succeeds. -/
theorem react_of_setDeviceCert {s : Run α} {e : Event α} {d : TextData α} {cert : Certificate}
    {key : Key} (hrunning : s.halted = false) (hd : e.deviceCertAnswer E = some d)
    (hfetching : 0 < s.fetching) (hcert : E.ofContent d.content = some cert)
    (hkey : s.setDeviceCert E cert = some key) :
    s.react E e = ({ s with fetching := s.fetching - 1 }, [.deviceCert key cert, .onSuccess]) := by
  have hkey' : setDeviceCert E { s with fetching := s.fetching - 1 } cert = some key := hkey
  rw [react_of_deviceCertAnswer hrunning hd, answerDeviceCert, if_pos hfetching, receiveDeviceCert,
    hcert]
  dsimp only
  rw [onDeviceCertSigned, hkey']

theorem out_of_installs {s : Run α} {e : Event α} {d : TextData α} {cert : Certificate} {key : Key}
    (hd : e.deviceCertAnswer E = some d) (hcert : E.ofContent d.content = some cert)
    (h : s.Installs E cert key) : s.out E e = [.deviceCert key cert, .onSuccess] := by
  obtain ⟨hrunning, hfetching, hkey⟩ := h
  rw [out, react_of_setDeviceCert hrunning hd hfetching hcert hkey]

end Run

end Nacapp.Bootstrap
