import Nacapp.Bootstrap.Reactions
import Nacapp.Bootstrap.Reflection

/-!
# Which certificate a successful bootstrap installs

A run calls `onSuccess` when it has installed a certificate for the key of the device.  The
certificate is the content of a Data that answered one of the Interests of `fetchDeviceCert`,
and nothing else about that Data is looked at.

`success_authentic_iff`: the certificates of the successes of a run come from its owner exactly
when every certificate that arrives in such an answer, and fits the key, does.

* `OwnerKnown`: while an Interest for the signed certificate is outstanding, the session holds
  the owner's certificate that was accepted in this run, and no other was.
-/

namespace Nacapp.Bootstrap

open SymbolicMac HmacText

variable {α : Type} [DecidableEq α] {E : Env α}

namespace Run

/-! ## Success -/

/-- **A run succeeds** only when a certificate arrives and fits. -/
theorem installs_of_onSuccess {s : Run α} {e : Event α} (h : .onSuccess ∈ s.out E e) :
    ∃ d cert key, e.deviceCertAnswer E = some d ∧ E.ofContent d.content = some cert ∧
      s.Installs E cert key := by
  have hreaction := reaction (E := E) s e
  generalize s.step E e = s', s.out E e = outs at h hreaction
  cases hreaction with
  | installed hd hcert hinst => exact ⟨_, _, _, hd, hcert, hinst⟩
  | _ => simp at h

/-! ## The owner of a run -/

/-- After some outputs: the owner's certificate is the one of the session as soon as it was
accepted, which it was when the handler is installed or an Interest for the signed certificate
is outstanding, and was not while the first Interest is. -/
structure OwnerKnown (s : Run α) (outs : List (Output α)) : Prop where
  awaited : s.awaitingOwner = true → ∀ owner, .ownerCert owner ∉ outs
  session : ∀ owner, .ownerCert owner ∈ outs → s.session.ownerCert = some owner
  serving : s.serving.isSome = true → ∃ owner, .ownerCert owner ∈ outs
  fetching : 0 < s.fetching → s.serving.isSome = true

omit [DecidableEq α] in
/-- What keeps the session and the handler, accepts no owner's certificate and does not wait for
one anew, keeps what is known. -/
theorem OwnerKnown.keep {s s' : Run α} {outs new : List (Output α)} (h : OwnerKnown s outs)
    (hnew : ∀ owner, .ownerCert owner ∉ new) (hsession : s'.session = s.session)
    (hserving : s'.serving.isSome = s.serving.isSome)
    (hawaiting : s'.awaitingOwner = true → s.awaitingOwner = true)
    (hfetching : s'.fetching ≤ s.fetching ∨ s.serving.isSome = true) :
    OwnerKnown s' (outs ++ new) := by
  have hmem : ∀ owner, .ownerCert owner ∈ outs ++ new ↔ .ownerCert owner ∈ outs := by
    intro owner
    rw [List.mem_append]
    exact or_iff_left (hnew owner)
  constructor
  · intro hs' owner howner
    exact h.awaited (hawaiting hs') owner ((hmem owner).mp howner)
  · intro owner howner
    rw [hsession]
    exact h.session owner ((hmem owner).mp howner)
  · intro hs'
    rw [hserving] at hs'
    obtain ⟨owner, howner⟩ := h.serving hs'
    exact ⟨owner, (hmem owner).mpr howner⟩
  · intro hpos
    rw [hserving]
    rcases hfetching with hle | hsome
    · exact h.fetching (by omega)
    · exact hsome

theorem OwnerKnown.react {s s' : Run α} {e : Event α} {outs new : List (Output α)}
    (h : OwnerKnown s outs) (hreaction : Reaction E s e s' new) : OwnerKnown s' (outs ++ new) := by
  cases hreaction with
  | quiet hsession hserving _ hawaiting hfetching =>
    exact h.keep (by simp) hsession (by rw [hserving]) hawaiting (Or.inl hfetching)
  | ownerRefused => exact h.keep (by simp) rfl rfl nofun (Or.inl le_rfl)
  | served _ hserving _ =>
    exact h.keep (by simp) rfl rfl id (Or.inr (by rw [hserving, Option.isSome_some]))
  | refused _ hserving _ _ =>
    exact h.keep (by simp) rfl (by rw [hserving]; rfl) id (Or.inl le_rfl)
  | refusedForGood _ hserving _ _ =>
    exact h.keep (by simp) rfl (by rw [hserving]; rfl) id (Or.inl le_rfl)
  | installed => exact h.keep (by simp) rfl rfl id (Or.inl (Nat.sub_le _ _))
  | @ownerAccepted _ _ owner _ _ hawaiting _ _ _ =>
    constructor
    · intro hs'
      have hawaited := onOwnerCert_awaitingOwner { s with awaitingOwner := false } owner
      exact absurd (hawaited.symm.trans hs') Bool.false_ne_true
    · intro owner' howner
      -- no certificate was accepted before, while the Interest was outstanding
      rcases List.mem_append.mp howner with hold | hnew
      · exact absurd hold (h.awaited hawaiting owner')
      · rw [Output.ownerCert.inj (List.mem_singleton.mp hnew)]
        exact onOwnerCert_ownerCert _ _
    · intro _
      exact ⟨owner, List.mem_append_right _ List.mem_cons_self⟩
    · intro _
      rfl

theorem ownerKnown_outputs {s : Run α} (hs : OwnerKnown s []) (events : List (Event α)) :
    OwnerKnown (s.run E events) (s.outputs E events) := by
  have h : OwnerKnown (s.run E events) ([] ++ s.outputs E events) :=
    Transitions.invariant_emitted (fun s outs e h => h.react (reaction s e)) hs events
  rwa [List.nil_append] at h

omit [DecidableEq α] in
theorem ownerKnown_start (session : Session) (randomNo : List α) :
    OwnerKnown (start E session randomNo).1 [] := by
  have hfresh : ∀ s : Run α, s.serving = none → s.fetching = 0 → OwnerKnown s [] := by
    intro s hserving hfetching
    constructor
    · exact fun _ _ => List.not_mem_nil
    · exact fun _ h => absurd h List.not_mem_nil
    · intro h
      rw [hserving] at h
      cases h
    · intro h
      omega
  unfold start
  split
  · exact hfresh _ rfl rfl
  · split <;> exact hfresh _ rfl rfl

omit [DecidableEq α] in
/-- While an Interest for the signed certificate is outstanding, the owner whose certificate was
accepted is the owner of the session. -/
theorem OwnerKnown.ownerCert_mem_iff {s : Run α} {outs : List (Output α)} (h : OwnerKnown s outs)
    (hfetching : 0 < s.fetching) {owner : Certificate} :
    .ownerCert owner ∈ outs ↔ s.session.ownerCert = some owner := by
  constructor
  · exact h.session owner
  · intro howner
    obtain ⟨owner', hmem⟩ := h.serving (h.fetching hfetching)
    have heq := h.session owner' hmem
    rw [howner] at heq
    rwa [Option.some.inj heq]

end Run

/-! ## Authentic certificates -/

/-- The certificate carries a signature made with the owner's key over the fields it has. -/
def SignedUnder (owner cert : Certificate) : Prop :=
  ∃ sig, cert.data.signature = some sig ∧ sig.signer = owner.publicKey ∧
    sig.covers = cert.data.signedFields

/-- The Data carries an HMAC under the pair code over a string the certificate is part of. -/
def CoveredByHmac (E : Env α) (d : TextData α) (cert : Certificate) : Prop :=
  ∃ text, E.text.hmacHex E.pairCode text <:+: d.content ∧
    E.text.str (PercentCoding.toHex (E.wireEncode cert)) <:+: text

/-- A Data of the events covers the certificate by an HMAC under the pair code. -/
def CoveredIn (E : Env α) (events : List (Event α)) (cert : Certificate) : Prop :=
  ∃ d, (.ownerReply d ∈ events ∨ .deviceCertReply d ∈ events) ∧ CoveredByHmac E d cert

/-- **Every success is authentic**: right before `onSuccess` a certificate is installed that an
HMAC under the pair code covers, in a Data of the run, or that is signed with the key of the
owner's certificate that was accepted before. -/
def SuccessAuthentic (E : Env α) (s : Run α) (events : List (Event α)) : Prop :=
  ∀ pre e post, events = pre ++ e :: post → .onSuccess ∈ (s.run E pre).out E e →
    ∃ key cert, (s.run E pre).out E e = [.deviceCert key cert, .onSuccess] ∧
      (CoveredIn E (pre ++ [e]) cert ∨
        ∃ owner, .ownerCert owner ∈ s.outputs E pre ∧ SignedUnder owner cert)

/-- Every certificate that arrives in answer to an Interest for the signed certificate, and
fits the key of the device, comes from the owner of the session. -/
def AnsweredByOwner (E : Env α) (s : Run α) (events : List (Event α)) : Prop :=
  ∀ pre e post, events = pre ++ e :: post → ∀ d, e.deviceCertAnswer E = some d →
    ∀ cert key, E.ofContent d.content = some cert → (s.run E pre).Installs E cert key →
      CoveredIn E (pre ++ [e]) cert ∨
        ∃ owner, (s.run E pre).session.ownerCert = some owner ∧ SignedUnder owner cert

/-- In a run whose successes are authentic, so is every certificate that arrives and fits. -/
theorem SuccessAuthentic.authentic_of_installs {s : Run α} {events : List (Event α)}
    (h : SuccessAuthentic E s events) {pre post : List (Event α)} {e : Event α}
    (heq : events = pre ++ e :: post) {d : TextData α} (hd : e.deviceCertAnswer E = some d)
    {cert : Certificate} (hcert : E.ofContent d.content = some cert) {key : Key}
    (hinst : (s.run E pre).Installs E cert key) :
    CoveredIn E (pre ++ [e]) cert ∨
      ∃ owner, .ownerCert owner ∈ s.outputs E pre ∧ SignedUnder owner cert := by
  have hout := Run.out_of_installs hd hcert hinst
  have hsuccess : .onSuccess ∈ (s.run E pre).out E e := by
    rw [hout]
    exact List.mem_cons_of_mem _ List.mem_cons_self
  obtain ⟨key', cert', hout', hauthentic⟩ := h pre e post heq hsuccess
  rw [hout] at hout'
  obtain ⟨-, rfl⟩ := Output.deviceCert.inj (List.cons.inj hout').1
  exact hauthentic

/-- **Bootstrap success implies an authentic certificate** exactly when every certificate that
arrives for the device, and fits its key, comes from the owner.  In every run of `start`, over
any strings and any HMAC. -/
theorem success_authentic_iff (E : Env α) (session : Session) (randomNo : List α)
    (events : List (Event α)) :
    SuccessAuthentic E (Run.start E session randomNo).1 events ↔
      AnsweredByOwner E (Run.start E session randomNo).1 events := by
  have hknown := fun pre => Run.ownerKnown_outputs (Run.ownerKnown_start (E := E) session randomNo)
    pre (E := E)
  constructor
  · intro h pre e post heq d hd cert key hcert hinst
    exact (h.authentic_of_installs heq hd hcert hinst).imp_right fun ⟨owner, hmem, hsigned⟩ =>
      ⟨owner, ((hknown pre).ownerCert_mem_iff hinst.2.1).mp hmem, hsigned⟩
  · intro h pre e post heq hsuccess
    obtain ⟨d, cert, key, hd, hcert, hinst⟩ := Run.installs_of_onSuccess hsuccess
    refine ⟨key, cert, Run.out_of_installs hd hcert hinst, ?_⟩
    exact (h pre e post heq d hd cert key hcert hinst).imp_right fun ⟨owner, hmem, hsigned⟩ =>
      ⟨owner, ((hknown pre).ownerCert_mem_iff hinst.2.1).mpr hmem, hsigned⟩

/-! ## A rogue certificate -/

/-- A certificate for a key of an identity, signed with some key. -/
def keyCertificate (identity : Name) (issuer publicKey signer : Bytes) : Data :=
  (KeyChain.mk signer).sign
    ⟨identity ++ [Component.of "KEY", Component.of "1", ⟨issuer⟩, Component.of "1"],
      ContentType_Key, 3600000, publicKey, none⟩

/-- The certificates of an owner and of a device, as they sign them themselves, and a
certificate for the key of the device that somebody else signed. -/
def ownCert : Certificate :=
  ⟨keyCertificate [Component.of "owner"] (bytes "self") (bytes "owner-key") (bytes "owner-key"),
    by decide⟩

def deviceOwnCert : Certificate :=
  ⟨keyCertificate [Component.of "device"] (bytes "self") (bytes "device-key") (bytes "device-key"),
    by decide⟩

def rogueCert : Certificate :=
  ⟨keyCertificate [Component.of "device"] (bytes "rogue") (bytes "device-key") (bytes "rogue-key"),
    by decide⟩

def pairedDevice : Identity :=
  ⟨[Component.of "device"], ⟨rogueCert.name.dropSuffix 2, bytes "device-key"⟩, deviceOwnCert⟩

/-- A certificate in writing: its name, its key and its signer. -/
def written (cert : Certificate) : Bytes :=
  cert.name.toUri ++ cert.publicKey ++ cert.data.signature.elim [] Signature.signer

/-- A device with symbolic HMACs, for which the certificates above can be read. -/
def pairedEnv : Env (Symbol UInt8) where
  wireEncode := written
  ofHex t := if t = plain (PercentCoding.toHex (written ownCert)) then some ownCert else none
  ofContent t := if t = plain (written rogueCert) then some rogueCert else none
  text := symbolic
  createIdentity _ := some pairedDevice
  acceptsCertificate key cert :=
    cert.name.dropSuffix 2 == key.name && cert.publicKey == key.publicKey
  nodePrefix := [plain (bytes "device")]
  cfg := ⟨bytes "Make1-Model2-Version345", bytes "uns4fe",
    [Component.of "local-home", Component.of "bootstrap"]⟩

/-- What the owner computes the HMAC of, for the nonce of the run. -/
def ownerText : Bytes :=
  bytes "/device^" ++ PercentCoding.toHex (written ownCert) ++ bytes "|1923856"

/-- The owner answers, and asks for the unsigned certificate with a valid HMAC. -/
def ownerEvents : List (Event (Symbol UInt8)) :=
  [.ownerReply (responseOf (bytes "uns4fe") ownerText),
    .request [plain (bytes "r2"), [.mac (plain (bytes "uns4fe")) (plain (bytes "/device/r2"))]]]

def pairedSession : Session := ⟨some ⟨bytes "device-key"⟩, some pairedDevice, none, none⟩

/-- The run of the device, before anything arrives. -/
def pairedRun : Run (Symbol UInt8) :=
  (Run.start pairedEnv pairedSession (plain (bytes "1923856"))).1

/-- A certificate for the key of the device, from anybody. -/
def rogueReply : TextData (Symbol UInt8) := ⟨[], plain (written rogueCert)⟩

theorem installs_rogueCert : (pairedRun.run pairedEnv ownerEvents).Installs pairedEnv rogueCert
    pairedDevice.defaultKey := by
  refine ⟨?_, ?_, ?_⟩ <;> decide +kernel

theorem not_coveredIn_rogueCert :
    ¬ CoveredIn pairedEnv (ownerEvents ++ [.deviceCertReply rogueReply]) rogueCert := by
  rintro ⟨d, hd, text, hmac, hcovers⟩
  have hmem : Symbol.mac (plain (bytes "uns4fe")) text ∈ d.content :=
    hmac.subset (List.mem_singleton.mpr rfl)
  have hd' : d = responseOf (bytes "uns4fe") ownerText ∨ d = rogueReply := by
    simpa [ownerEvents] using hd
  rcases hd' with rfl | rfl
  · rcases List.mem_append.mp hmem with hmem | hmem
    · exact absurd hmem mac_notMem_plain
    · rcases List.mem_cons.mp hmem with hmem | hmem
      · cases hmem
      · -- the only HMAC is over what the owner wrote
        rw [(Symbol.mac.inj (List.mem_singleton.mp hmem)).2] at hcovers
        exact absurd hcovers (by decide +kernel)
  · exact absurd hmem mac_notMem_plain

/-- After the owner's part of the protocol, a certificate that somebody else signed is installed,
and the run succeeds. -/
theorem success_with_rogue_certificate :
    ¬ SuccessAuthentic pairedEnv pairedRun (ownerEvents ++ [.deviceCertReply rogueReply]) := by
  intro h
  have hread : pairedEnv.ofContent rogueReply.content = some rogueCert := by decide +kernel
  rcases h.authentic_of_installs (e := .deviceCertReply rogueReply) rfl rfl hread
    installs_rogueCert with hcovered | ⟨owner, howner, sig, hsig, hsigner, -⟩
  · exact not_coveredIn_rogueCert hcovered
  · have hstart : pairedRun.OwnerKnown [] :=
      Run.ownerKnown_start (E := pairedEnv) pairedSession (plain (bytes "1923856"))
    have hsession :=
      (Run.ownerKnown_outputs (E := pairedEnv) hstart ownerEvents).session owner howner
    have hown : (pairedRun.run pairedEnv ownerEvents).session.ownerCert = some ownCert := by
      decide +kernel
    rw [hown] at hsession
    rw [← Option.some.inj hsession, ← Option.some.inj hsig] at hsigner
    exact absurd hsigner (by decide)

end Nacapp.Bootstrap
