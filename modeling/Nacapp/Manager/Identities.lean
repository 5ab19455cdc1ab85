import Nacapp.Manager.ServiceRuns

/-!
# Adding and removing identities

The four operations of the service on an identity take its name from different places: a
request to add names an entity, the callback files the certificate under the name of the
Data that came, and the other requests look up the name in their arguments.
`identityOperations_agree_iff` says when they agree.
-/

namespace Nacapp
namespace Service

variable {L : GroupLib} {E : ServiceEnv} {s : Service L}

/-! ## The certificate that arrives -/

/-- What is no certificate changes nothing, and nothing is put. -/
theorem onAddIdentityKey_of_none {keyData : Data} (h : Certificate.ofData keyData = none)
    (interest : Interest) (data : Data) :
    s.onAddIdentityKey E interest data keyData =
      (s, ⟨[], data, .error (E.certificateError keyData)⟩) := by
  rw [onAddIdentityKey, h]

/-- A certificate is put by its name, and filed under it. -/
theorem onAddIdentityKey_of_some {keyData : Data} {cert : Certificate}
    (h : Certificate.ofData keyData = some cert) (interest : Interest) (data : Data) :
    s.onAddIdentityKey E interest data keyData =
      ({ s with manager := { s.manager with
          identities := s.manager.identities.insert cert.name.toUri cert } },
        ⟨[(data.setName interest.name).setContent cert.name.toUri],
          (data.setName interest.name).setContent cert.name.toUri, .ok true⟩) := by
  have hdata : cert.data = keyData := Certificate.ofData_eq_some_iff.mp h
  have hadd : s.manager.addIdentity keyData.name cert.data =
      some { s.manager with
        identities := s.manager.identities.insert cert.name.toUri cert } := by
    rw [Manager.addIdentity, Certificate.name, hdata, h, Option.map_some]
  rw [onAddIdentityKey, h]
  simp only [hadd]

/-- The certificate that arrives is filed under its name. -/
theorem getIdentity_keyArrives {index : ℕ} {a : PendingAdd} {keyData : Data} {cert : Certificate}
    (ha : s.pending[index]? = some a) (hcert : Certificate.ofData keyData = some cert) (e : Name) :
    (s.keyArrives E index keyData).1.manager.getIdentity e =
      if keyData.name = e then some cert else s.manager.getIdentity e := by
  have hname : cert.name = keyData.name := by
    rw [Certificate.name, Certificate.ofData_eq_some_iff.mp hcert]
  rw [keyArrives, ha]
  dsimp only
  rw [onAddIdentityKey_of_some hcert, hname]
  exact Manager.getIdentity_insert s.manager keyData.name e cert

/-! ## The handlers, by what the map has -/

theorem onGetIdentityKey_of_some {entity : Name} {cert : Certificate}
    (h : s.manager.getIdentity entity = some cert) (interest : Interest) (data : Data) :
    s.onGetIdentityKey interest entity data =
      ⟨[cert.data.setName interest.name], data, .ok false⟩ := by
  unfold onGetIdentityKey
  rw [h]

theorem onGetIdentityKey_of_none {entity : Name} (h : s.manager.getIdentity entity = none)
    (interest : Interest) (data : Data) :
    s.onGetIdentityKey interest entity data = nacked data := by
  unfold onGetIdentityKey
  rw [h]

/-! ## Agreement -/

/-- The requests about the entity find this certificate: the map has it, an `IDENTITY/for`
request is answered with it, and every grant adds it. -/
structure FindsCertificate (entity : Name) (cert : Certificate) (s : Service L) : Prop where
  stored : s.manager.getIdentity entity = some cert
  served : ∀ interest data, s.onGetIdentityKey interest entity data =
    ⟨[cert.data.setName interest.name], data, .ok false⟩
  granted : ∀ t ni, s.manager.grantAccess entity t ni =
    (s.manager.storeGroup t (s.manager.scheduledGroup t ni)).addCertificate t entity cert
      ni.name.toUri

/-- The requests about the entity find no certificate: an `IDENTITY/for` request is answered
with a Nack, and a grant adds no member. -/
structure FindsNone (entity : Name) (s : Service L) : Prop where
  stored : s.manager.getIdentity entity = none
  served : ∀ interest data, s.onGetIdentityKey interest entity data = nacked data
  granted : ∀ t ni, s.manager.grantAccess entity t ni =
    s.manager.storeGroup t (s.manager.scheduledGroup t ni)

/-- The identity operations agree on the entity, from the service `s` before its certificate
arrives and the service `s'` after: the requests find the certificate in `s'` and none after
its removal, and neither operation changes what is found for another entity. -/
structure OperationsAgree (entity : Name) (cert : Certificate) (s s' : Service L) : Prop where
  added : FindsCertificate entity cert s'
  removed : ∀ data, FindsNone entity (s'.onRemoveIdentity entity data).1
  addKeeps : ∀ e, e ≠ entity → s'.manager.getIdentity e = s.manager.getIdentity e
  removeKeeps : ∀ e, e ≠ entity → ∀ data,
    (s'.onRemoveIdentity entity data).1.manager.getIdentity e = s'.manager.getIdentity e

theorem findsCertificate_of_getIdentity {entity : Name} {cert : Certificate}
    (h : s.manager.getIdentity entity = some cert) : FindsCertificate entity cert s where
  stored := h
  served := onGetIdentityKey_of_some h
  granted := Manager.grantAccess_of_getIdentity_eq_some s.manager h

theorem findsNone_of_getIdentity {entity : Name} (h : s.manager.getIdentity entity = none) :
    FindsNone entity s where
  stored := h
  served := onGetIdentityKey_of_none h
  granted := Manager.grantAccess_of_getIdentity_eq_none s.manager h

/-- **The identity operations agree on the name of the entity exactly when the certificate
that arrives has just that name.**  In every state a run of events reaches, for every request
to add an identity that is outstanding there and every certificate that answers it. -/
theorem identityOperations_agree_iff (E : ServiceEnv) (p : Name) (keysize : ℕ)
    (events : List ServiceEvent) (index : ℕ) {a : PendingAdd} {keyData : Data} {cert : Certificate}
    (ha : ((ofPrefix L p keysize).run E events).pending[index]? = some a)
    (hcert : Certificate.ofData keyData = some cert) :
    OperationsAgree a.entity cert ((ofPrefix L p keysize).run E events)
        (((ofPrefix L p keysize).run E events).keyArrives E index keyData).1 ↔
      keyData.name = a.entity := by
  have hfiled := filed_run (L := L) E p keysize events
  have hget := getIdentity_keyArrives (E := E) ha hcert
  constructor
  · intro h
    by_contra hne
    -- what the requests find under the entity was there before, under its own name
    have hold := hget a.entity
    rw [if_neg hne, h.added.stored] at hold
    have hname : cert.name = a.entity :=
      Name.toUri_injective (hfiled.identities _ cert hold.symm)
    apply hne
    rw [← hname, Certificate.name, Certificate.ofData_eq_some_iff.mp hcert]
  · intro hname
    refine ⟨findsCertificate_of_getIdentity ?_, fun data => findsNone_of_getIdentity ?_, ?_, ?_⟩
    · rw [hget, if_pos hname]
    · exact (Manager.getIdentity_removeIdentity _ _ _).trans (if_pos rfl)
    · intro e he
      rw [hget, hname, if_neg (Ne.symm he)]
    · intro e he data
      exact (Manager.getIdentity_removeIdentity _ _ _).trans (if_neg (Ne.symm he))

/-- An environment for concrete runs, in which every time string is that of one day. -/
def oneDay : ServiceEnv where
  fromIsoString _ := .ok ⟨⟨2017, 7, 3⟩, 0⟩
  nameError _ := .other
  certificateError _ := .other

/-- The certificate of an entity, as it is issued. -/
def aliceCertificate : Certificate := ⟨Certificate.issued [Component.of "alice"], by decide⟩

/-- An entity that is named by its certificate is added, served and removed. -/
theorem identityOperations_agree_on_certificate_name :
    let s := (ofPrefix memoryGroups [Component.of "manager"] 2048).run oneDay
      [.request .identityAdd ⟨[Component.of "add"], []⟩ aliceCertificate.name]
    OperationsAgree aliceCertificate.name aliceCertificate s
      (s.keyArrives oneDay 0 aliceCertificate.data).1 :=
  (identityOperations_agree_iff oneDay [Component.of "manager"] 2048
    [.request .identityAdd ⟨[Component.of "add"], []⟩ aliceCertificate.name] 0
    (a := ⟨aliceCertificate.name, ⟨[Component.of "add"], []⟩,
      Data.empty.setName [Component.of "add"]⟩)
    rfl (Certificate.ofData_eq_some_iff.mpr rfl)).mpr rfl

/-- An entity that is named by its identity is not found under its name afterwards. -/
theorem identityOperations_disagree_on_identity_name :
    ¬ ∀ (L : GroupLib) (E : ServiceEnv) (p : Name) (keysize : ℕ) (events : List ServiceEvent)
      (index : ℕ) (a : PendingAdd) (keyData : Data) (cert : Certificate),
      ((ofPrefix L p keysize).run E events).pending[index]? = some a →
      Certificate.ofData keyData = some cert → a.entity <+: keyData.name →
      OperationsAgree a.entity cert ((ofPrefix L p keysize).run E events)
        (((ofPrefix L p keysize).run E events).keyArrives E index keyData).1 := by
  intro h
  have hagree := h memoryGroups oneDay [Component.of "manager"] 2048
    [.request .identityAdd ⟨[Component.of "add"], []⟩ [Component.of "alice"]] 0
    ⟨[Component.of "alice"], ⟨[Component.of "add"], []⟩, Data.empty.setName [Component.of "add"]⟩
    aliceCertificate.data aliceCertificate rfl (Certificate.ofData_eq_some_iff.mpr rfl) (by decide)
  exact absurd hagree.added.stored (by decide +kernel)

end Service
end Nacapp
