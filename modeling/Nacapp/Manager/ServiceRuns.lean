import Nacapp.Manager.Service

/-!
# The service over its life

What an event does to the manager of a service (`manager_step`), and what every run of
events keeps.

* `Filed`: every identity is filed under the name of its certificate, and every cached
  D-KEY under the certificate in its name.
* `filed_run`: every run keeps it, since the callback for a key adds an identity under the
  name of the key it got.
-/

namespace Nacapp
namespace Service

variable {L : GroupLib} {E : ServiceEnv} {s : Service L}

/-! ## What an event does to the manager -/

/-- **The manager after an event**: the same; after a call, where an identity is added under
the name of its certificate only; or after a read of a D-KEY, with the freshness period of
the cached Data set. -/
inductive ManagerEffect (m : Manager L) : Manager L → Prop
  | same : ManagerEffect m m
  | call (op : ManagerOp) (h : ∀ entity cert, op = .addIdentity entity cert → cert.name = entity) :
      ManagerEffect m (m.step op)
  | served (t entity : Name) (ts : TimeStamp) (key : Bytes) (d : Data)
      (h : (m.getDKeyEntry t entity ts).1 = some (key, d)) :
      ManagerEffect m
        (writeDKey (m.step (.getDKey t entity ts)) key (d.setFreshnessPeriod 1000))

/-- A call that adds no identity. -/
theorem ManagerEffect.ofCall {m : Manager L} {op : ManagerOp} (h : op.setsIdentity = false) :
    ManagerEffect m (m.step op) := by
  refine .call op fun entity cert heq => ?_
  rw [heq] at h
  exact absurd h (by simp [ManagerOp.setsIdentity])

theorem onGetEKey_effect {interest : Interest} {t : Name} {data : Data} {r : Service L × HandlerRun}
    (h : s.onGetEKey E interest t data = some r) : ManagerEffect s.manager r.1.manager := by
  rw [onGetEKey] at h
  split at h
  · rw [← Option.some.inj h]
    exact .same
  · split at h
    · exact absurd h (by simp)
    · rename_i first _ _
      split at h
      · rw [← Option.some.inj h]
        exact .same
      · rename_i ts _
        have hcall : ManagerEffect s.manager (s.manager.getEKey t ts).2 :=
          @ManagerEffect.ofCall _ _ (.getEKey t ts) rfl
        split at h
        · rename_i heq
          rw [← Option.some.inj h]
          rwa [heq] at hcall
        · rename_i heq
          rw [← Option.some.inj h]
          rwa [heq] at hcall

theorem onGetDKey_effect {t args : Name} {data : Data} {r : Service L × HandlerRun}
    (h : s.onGetDKey E t args data = some r) : ManagerEffect s.manager r.1.manager := by
  rw [onGetDKey] at h
  split at h
  · rw [← Option.some.inj h]
    exact .same
  · dsimp only at h
    split at h
    · exact absurd h (by simp)
    · split at h
      · rw [← Option.some.inj h]
        exact .same
      · rename_i ts _
        have hcall : s.manager.step (.getDKey t (args.getSubNameFrom 3) ts) =
            (s.manager.getDKeyEntry t (args.getSubNameFrom 3) ts).2 := rfl
        split at h
        · rename_i m heq
          have hm : s.manager.step (.getDKey t (args.getSubNameFrom 3) ts) = m := by
            rw [hcall, heq]
          rw [← Option.some.inj h, ← hm]
          exact @ManagerEffect.ofCall _ _ (.getDKey t _ ts) rfl
        · rename_i key dkey m heq
          rw [← Option.some.inj h]
          have hserved : ManagerEffect s.manager (writeDKey
              (s.manager.step (.getDKey t (args.getSubNameFrom 3) ts)) key
              (dkey.setFreshnessPeriod 1000)) :=
            .served t (args.getSubNameFrom 3) ts key dkey (by rw [heq])
          rwa [hcall, heq] at hserved

theorem onRead_effect {interest : Interest} {args : Name} {data : Data} {r : Service L × HandlerRun}
    (h : s.onRead E interest args data = some r) : ManagerEffect s.manager r.1.manager := by
  rw [onRead] at h
  dsimp only at h
  split at h
  · exact onGetEKey_effect h
  · split at h
    · exact onGetDKey_effect h
    · rw [← Option.some.inj h]
      exact .same

theorem grant_effect {identity t : Name} {d₁ d₂ h₁ h₂ : Bytes} {s' : Service L}
    (h : s.grant E identity t d₁ d₂ h₁ h₂ = .ok s') : ManagerEffect s.manager s'.manager := by
  rw [grant] at h
  obtain ⟨startD, -, h⟩ := exists_of_bind_eq_ok h
  obtain ⟨endD, -, h⟩ := exists_of_bind_eq_ok h
  obtain ⟨startH, -, h⟩ := exists_of_bind_eq_ok h
  obtain ⟨endH, -, h⟩ := exists_of_bind_eq_ok h
  obtain ⟨scheduleName, -, h⟩ := exists_of_bind_eq_ok h
  rw [← Except.ok.inj h]
  exact @ManagerEffect.ofCall _ _ (.grantAccess identity t _) rfl

theorem onGrant_effect {args : Name} {data : Data} {r : Service L × HandlerRun}
    (h : s.onGrant E args data = some r) : ManagerEffect s.manager r.1.manager := by
  rw [onGrant] at h
  split at h
  · exact absurd h (by simp)
  · split at h
    · rw [← Option.some.inj h]
      exact .same
    · split at h
      · exact absurd h (by simp)
      · dsimp only at h
        split at h
        · rw [← Option.some.inj h]
          exact .same
        · rename_i hgranted
          rw [← Option.some.inj h]
          obtain ⟨dataType, -, hgranted⟩ := exists_of_bind_eq_ok hgranted
          obtain ⟨identity, -, hgranted⟩ := exists_of_bind_eq_ok hgranted
          obtain ⟨t, -, hgranted⟩ := exists_of_bind_eq_ok hgranted
          exact grant_effect hgranted

theorem onRevoke_effect (args : Name) (data : Data) :
    ManagerEffect s.manager (s.onRevoke E args data).1.manager := by
  unfold onRevoke
  split
  · dsimp only
    split
    · exact .same
    · rename_i hrevoked
      obtain ⟨_, -, hrevoked⟩ := exists_of_bind_eq_ok hrevoked
      obtain ⟨_, -, hrevoked⟩ := exists_of_bind_eq_ok hrevoked
      obtain ⟨identity, -, hrevoked⟩ := exists_of_bind_eq_ok hrevoked
      obtain ⟨t, -, hrevoked⟩ := exists_of_bind_eq_ok hrevoked
      rw [← Except.ok.inj hrevoked]
      exact @ManagerEffect.ofCall _ _ (.revokeAccess identity t) rfl
  · exact .same

theorem onAddIdentityKey_effect (interest : Interest) (data keyData : Data) :
    ManagerEffect s.manager (s.onAddIdentityKey E interest data keyData).1.manager := by
  rw [onAddIdentityKey]
  cases hcert : Certificate.ofData keyData with
  | none => exact .same
  | some cert =>
    have hdata : cert.data = keyData := Certificate.ofData_eq_some_iff.mp hcert
    have hadd : ∃ m, s.manager.addIdentity keyData.name cert.data = some m := by
      rw [Manager.addIdentity]
      rw [hdata, hcert]
      exact ⟨_, rfl⟩
    obtain ⟨m, hm⟩ := hadd
    have hstep : s.manager.step (.addIdentity keyData.name cert.data) = m := by
      show (s.manager.addIdentity keyData.name cert.data).getD s.manager = m
      rw [hm]
      rfl
    dsimp only
    rw [hm]
    dsimp only
    rw [← hstep]
    refine .call _ fun entity c heq => ?_
    rw [← (ManagerOp.addIdentity.inj heq).1, ← (ManagerOp.addIdentity.inj heq).2, hdata]

/-- **What an event does to the manager.** -/
theorem manager_step (E : ServiceEnv) (s : Service L) (event : ServiceEvent) :
    ManagerEffect s.manager (s.step E event).manager := by
  cases event with
  | request route interest args =>
    show ManagerEffect s.manager (((s.handle E route interest args _).map Prod.fst).getD s).manager
    cases hrun : s.handle E route interest args (Data.empty.setName interest.name) with
    | none => exact .same
    | some r =>
      show ManagerEffect s.manager r.1.manager
      cases route with
      | read => exact onRead_effect hrun
      | identityFor =>
        rw [← Option.some.inj hrun]
        exact .same
      | identityAdd =>
        rw [← Option.some.inj hrun]
        exact .same
      | identityRemove =>
        rw [← Option.some.inj hrun]
        exact .call (.removeIdentity args) fun _ _ heq => ManagerOp.noConfusion heq
      | accessGrant => exact onGrant_effect hrun
      | accessRevoke =>
        rw [← Option.some.inj hrun]
        exact onRevoke_effect args _
  | keyArrives index keyData =>
    show ManagerEffect s.manager (s.keyArrives E index keyData).1.manager
    rw [keyArrives]
    split
    · exact .same
    · rename_i p _
      exact onAddIdentityKey_effect (s := { s with pending := s.pending.eraseIdx index })
        p.interest p.data keyData

/-! ## What every run keeps -/

/-- Identities and D-KEYs are filed under the names of their own certificates. -/
structure Filed (m : Manager L) : Prop where
  sound : m.Sound
  identities : ∀ k (cert : Certificate), m.identities[k]? = some cert → cert.name.toUri = k

theorem filed_ofPrefix (p : Name) (keysize : ℕ) : Filed (Manager.ofPrefix L p keysize) where
  sound := Manager.sound_ofPrefix p keysize
  identities k cert h := by
    have hnone : (Manager.ofPrefix L p keysize).identities[k]? = none :=
      Std.ExtTreeMap.getElem?_empty
    rw [hnone] at h
    exact absurd h (by simp)

/-- A call keeps the identities filed, when it adds none but under its own name. -/
theorem identities_filed_step {m : Manager L} (hm : Filed m) {op : ManagerOp}
    (hop : ∀ entity cert, op = .addIdentity entity cert → cert.name = entity) (k : Bytes)
    (cert : Certificate) (h : (m.step op).identities[k]? = some cert) : cert.name.toUri = k := by
  cases op with
  | addIdentity entity d =>
    have hadd : (m.step (.addIdentity entity d)).identities =
        (Certificate.ofData d).elim m.identities fun c => m.identities.insert entity.toUri c := by
      show ((m.addIdentity entity d).getD m).identities = _
      rw [Manager.addIdentity]
      cases Certificate.ofData d <;> rfl
    rw [hadd] at h
    cases hcert : Certificate.ofData d with
    | none =>
      rw [hcert] at h
      exact hm.identities k cert h
    | some c =>
      rw [hcert] at h
      have hname : c.name = entity := by
        rw [Certificate.name]
        rw [Certificate.ofData_eq_some_iff.mp hcert]
        exact hop entity d rfl
      rw [Option.elim_some, Std.ExtTreeMap.getElem?_insert] at h
      split at h
      · rename_i heq
        rw [← Option.some.inj h, hname]
        exact Std.LawfulEqCmp.compare_eq_iff_eq.mp heq
      · exact hm.identities k cert h
  | removeIdentity identity =>
    have herase : (m.identities.erase identity.toUri)[k]? = some cert := h
    rw [Std.ExtTreeMap.getElem?_erase] at herase
    split at herase
    · exact absurd herase (by simp)
    · exact hm.identities k cert herase
  | grantAccess _ _ _ | revokeAccess _ _ | getGroupKeys _ _ | getEKey _ _ | getDKey _ _ _ =>
    rw [Manager.identities_step rfl] at h
    exact hm.identities k cert h

/-- The Data handed out is the cache entry of the key handed out with it. -/
theorem getElem?_of_getDKeyEntry {m : Manager L} {t entity : Name} {ts : TimeStamp}
    {key : Bytes} {d : Data} (h : (m.getDKeyEntry t entity ts).1 = some (key, d)) :
    (m.step (.getDKey t entity ts)).dkeyCache[key]? = some d :=
  (OrderedScan.firstHit_eq_some_iff.mp (Manager.scanCache_of_getDKeyEntry m h)).1

theorem filed_effect {m m' : Manager L} (hm : Filed m) (h : ManagerEffect m m') : Filed m' := by
  cases h with
  | same => exact hm
  | call op hop => exact ⟨Manager.sound_step hm.sound op, identities_filed_step hm hop⟩
  | served t entity ts key d hd =>
    have hstep := Manager.sound_step hm.sound (.getDKey t entity ts)
    have hkey := hstep.filed key d (getElem?_of_getDKeyEntry hd)
    refine ⟨⟨hstep.config, fun k d' hd' => ?_⟩, ?_⟩
    · have hinsert : (((m.step (.getDKey t entity ts)).dkeyCache.insert key
          (d.setFreshnessPeriod 1000))[k]? : Option Data) = some d' := hd'
      rw [Std.ExtTreeMap.getElem?_insert] at hinsert
      split at hinsert
      · rename_i heq
        rw [← Option.some.inj hinsert, ← Std.LawfulEqCmp.compare_eq_iff_eq.mp heq]
        exact hkey
      · exact hstep.filed k d' hinsert
    · have hop : ∀ e c, ManagerOp.getDKey t entity ts = .addIdentity e c → c.name = e :=
        fun _ _ heq => ManagerOp.noConfusion heq
      exact identities_filed_step hm hop

/-- **Every run of events keeps the manager filed.** -/
theorem filed_run (E : ServiceEnv) (p : Name) (keysize : ℕ) (events : List ServiceEvent) :
    Filed ((ofPrefix L p keysize).run E events).manager :=
  Transitions.invariant (I := fun s : Service L => Filed s.manager)
    (fun event _ s hs => filed_effect hs (manager_step E s event)) (filed_ofPrefix p keysize)

end Service
end Nacapp
