import Nacapp.Manager.AccessTable

/-!
# Who has access, told by the calls

A manager answers for its members, its identities and its keys out of maps that every call may
write.  The table of `AccessTable` says what the calls mean; here the table is told by the calls
alone, without the states between them.

* `getIdentity_run`: the certificate of an entity is that of the last call that wrote it.
* `isMember_iff`: an identity is a member of a data type exactly when the data type was granted
  to an entity that was known, at the time, by a certificate of this identity, and was not
  revoked from anybody since.
* `keys_iff_granted`: a data type has a group exactly when the last grant or revocation of the
  data type was a grant, and there is an E-KEY at a time exactly when this group makes one then.
* `eq_of_same_calls`: the members of a data type depend on the calls that write identities or
  grant or revoke this data type, and on no others.
-/

namespace Nacapp

open Transitions

namespace ManagerOp

/-- What a call writes into the certificate of an entity: one, none, or nothing. -/
def writesIdentity (e : Name) : ManagerOp → Option (Option Certificate)
  | .addIdentity entity certData =>
    if entity = e then (Certificate.ofData certData).map some else none
  | .removeIdentity entity => if entity = e then some none else none
  | _ => none

/-- The call revokes the data type, from whomever. -/
def revokes (t : Name) : ManagerOp → Bool
  | .revokeAccess _ t' => t' = t
  | _ => false

/-- The call writes identities, or grants or revokes the data type. -/
def concerns (t : Name) : ManagerOp → Bool
  | .addIdentity _ _ | .removeIdentity _ => true
  | .grantAccess _ t' _ | .revokeAccess _ t' => t' = t
  | _ => false

/-- A certificate is written for an entity by adding it. -/
theorem writesIdentity_eq_some_iff {e : Name} {op : ManagerOp} {cert : Certificate} :
    op.writesIdentity e = some (some cert) ↔ op = .addIdentity e cert.data := by
  cases op with
  | addIdentity entity certData =>
    rw [writesIdentity]
    constructor
    · intro h
      split at h
      · rename_i he
        obtain ⟨c, hc, hsome⟩ := Option.map_eq_some_iff.mp h
        rw [he, ← Option.some.inj hsome, Certificate.ofData_eq_some_iff.mp hc]
      · exact absurd h (by simp)
    · intro h
      obtain ⟨rfl, rfl⟩ := ManagerOp.addIdentity.inj h
      rw [if_pos rfl, Certificate.ofData_eq_some_iff.mpr rfl, Option.map_some]
  | removeIdentity entity =>
    rw [writesIdentity]
    refine iff_of_false (fun h => ?_) ManagerOp.noConfusion
    split at h
    · exact absurd (Option.some.inj h) (by simp)
    · exact absurd h (by simp)
  | _ => exact iff_of_false (by simp [writesIdentity]) ManagerOp.noConfusion

/-- A certificate is taken from an entity by removing it. -/
theorem writesIdentity_eq_some_none_iff {e : Name} {op : ManagerOp} :
    op.writesIdentity e = some none ↔ op = .removeIdentity e := by
  cases op with
  | addIdentity entity certData =>
    rw [writesIdentity]
    refine iff_of_false (fun h => ?_) ManagerOp.noConfusion
    split at h
    · obtain ⟨c, -, hsome⟩ := Option.map_eq_some_iff.mp h
      exact absurd hsome (by simp)
    · exact absurd h (by simp)
  | removeIdentity entity =>
    rw [writesIdentity]
    constructor
    · intro h
      split at h
      · rename_i he
        rw [he]
      · exact absurd h (by simp)
    · intro h
      rw [if_pos (ManagerOp.removeIdentity.inj h)]
  | _ => exact iff_of_false (by simp [writesIdentity]) ManagerOp.noConfusion

end ManagerOp

/-- A value that is written at one place, or kept. -/
theorem update_eq_getD {β : Type} (f : Name → β) (entity e : Name) (b : β) :
    Function.update f entity b e = (if entity = e then some b else none).getD (f e) := by
  rw [Function.update_apply]
  by_cases h : e = entity
  · rw [if_pos h, if_pos h.symm, Option.getD_some]
  · rw [if_neg h, if_neg (Ne.symm h), Option.getD_none]

namespace AccessTable

/-! ## The members -/

/-- The call grants the data type to an entity known by a certificate of the identity. -/
def Grants (t identity : Name) (T : AccessTable) (op : ManagerOp) : Prop :=
  ∃ entity ni cert, op = .grantAccess entity t ni ∧ T.certificate entity = some cert ∧
    cert.identity = identity

/-- Whom a grant of the data type is to. -/
theorem grants_grantAccess_iff {T : AccessTable} {entity t identity : Name} {ni : NamedInterval} :
    Grants t identity T (.grantAccess entity t ni) ↔
      ∃ cert, T.certificate entity = some cert ∧ cert.identity = identity := by
  constructor
  · rintro ⟨_, _, cert, heq, hcert, hid⟩
    obtain ⟨rfl, -, -⟩ := ManagerOp.grantAccess.inj heq
    exact ⟨cert, hcert, hid⟩
  · rintro ⟨cert, hcert, hid⟩
    exact ⟨entity, ni, cert, rfl, hcert, hid⟩

/-- A data type without a group counts as one without members. -/
theorem hasMember_iff_getD {T : AccessTable} {t identity : Name} :
    T.HasMember t identity ↔ ∃ x ∈ (T.members t).getD ∅, x.identity = identity := by
  rw [HasMember]
  cases T.members t with
  | none => simp
  | some xs => simp

/-- A grant makes members in its data type. -/
theorem hasMember_grantAccess (T : AccessTable) (entity t identity : Name) (ni : NamedInterval) :
    (T.step (.grantAccess entity t ni)).HasMember t identity ↔
      Grants t identity T (.grantAccess entity t ni) ∨ T.HasMember t identity := by
  have hmembers : (T.step (.grantAccess entity t ni)).members t = some
      (granted ((T.members t).getD ∅) entity ni.name.toUri (T.certificate entity)) :=
    Function.update_self _ _ _
  rw [hasMember_iff_getD, hmembers, Option.getD_some, exists_mem_granted_iff,
    grants_grantAccess_iff, hasMember_iff_getD]

/-- **One call makes a member** when it grants, and keeps one unless it revokes. -/
theorem hasMember_step (T : AccessTable) (op : ManagerOp) (t identity : Name) :
    (T.step op).HasMember t identity ↔
      Grants t identity T op ∨ T.HasMember t identity ∧ op.revokes t = false := by
  have hquiet {T' : AccessTable} (hmembers : T'.members t = T.members t)
      (hgrants : ¬ Grants t identity T op) (hrevokes : op.revokes t = false) :
      T'.HasMember t identity ↔
        Grants t identity T op ∨ T.HasMember t identity ∧ op.revokes t = false := by
    rw [or_iff_right hgrants, and_iff_left hrevokes, HasMember, HasMember, hmembers]
  have hother (h : ∀ entity ni, op ≠ .grantAccess entity t ni) : ¬ Grants t identity T op := by
    rintro ⟨entity, ni, -, heq, -⟩
    exact h entity ni heq
  cases op with
  | addIdentity entity certData =>
    refine hquiet ?_ (hother fun _ _ => ManagerOp.noConfusion) rfl
    rw [step]
    cases Certificate.ofData certData with
    | none => rfl
    | some cert => rfl
  | removeIdentity entity => exact hquiet rfl (hother fun _ _ => ManagerOp.noConfusion) rfl
  | grantAccess entity t' ni =>
    by_cases h : t' = t
    · subst h
      have hrevokes : (ManagerOp.grantAccess entity t' ni).revokes t' = false := rfl
      rw [and_iff_left hrevokes]
      exact hasMember_grantAccess T entity t' identity ni
    · refine hquiet (Function.update_of_ne (Ne.symm h) _ _) (hother fun _ _ heq => h ?_) rfl
      exact (ManagerOp.grantAccess.inj heq).2.1
  | revokeAccess entity t' =>
    by_cases h : t' = t
    · refine iff_of_false ?_ ?_
      · rintro ⟨xs, hxs, -⟩
        rw [h, members_revokeAccess] at hxs
        exact absurd hxs (by simp)
      · rintro (hgrants | ⟨-, hkept⟩)
        · exact hother (fun _ _ => ManagerOp.noConfusion) hgrants
        · rw [ManagerOp.revokes, decide_eq_true h] at hkept
          exact Bool.noConfusion hkept
    · refine hquiet (Function.update_of_ne (Ne.symm h) _ _)
        (hother fun _ _ => ManagerOp.noConfusion) ?_
      exact decide_eq_false h
  | getGroupKeys _ _ | getEKey _ _ | getDKey _ _ _ =>
    exact hquiet rfl (hother fun _ _ => ManagerOp.noConfusion) rfl

/-! ## One data type -/

/-- The part of the table that concerns a data type. -/
def concerning (t : Name) (T : AccessTable) : (Name → Option Certificate) × Option (Set Member) :=
  (T.certificate, T.members t)

/-- The part of the table after a call, from the part before. -/
noncomputable def stepConcerning (t : Name)
    (c : (Name → Option Certificate) × Option (Set Member)) (op : ManagerOp) :
    (Name → Option Certificate) × Option (Set Member) :=
  concerning t (step ⟨c.1, fun _ => c.2⟩ op)

theorem concerning_step {t : Name} {op : ManagerOp} (h : op.concerns t = true) (T : AccessTable) :
    concerning t (T.step op) = stepConcerning t (concerning t T) op := by
  cases op with
  | addIdentity entity certData =>
    rw [stepConcerning, step, step]
    cases Certificate.ofData certData with
    | none => rfl
    | some cert => rfl
  | removeIdentity entity => rfl
  | grantAccess entity t' ni =>
    obtain rfl : t' = t := of_decide_eq_true h
    refine Prod.ext rfl ?_
    show Function.update T.members t' _ t' = Function.update (fun _ => T.members t') t' _ t'
    rw [Function.update_self, Function.update_self]
    rfl
  | revokeAccess entity t' =>
    obtain rfl : t' = t := of_decide_eq_true h
    refine Prod.ext rfl ?_
    show Function.update T.members t' _ t' = Function.update (fun _ => T.members t') t' _ t'
    rw [Function.update_self, Function.update_self]
  | getGroupKeys _ _ | getEKey _ _ | getDKey _ _ _ => exact absurd h Bool.false_ne_true

theorem concerning_step_of_not {t : Name} {op : ManagerOp} (h : op.concerns t = false)
    (T : AccessTable) : concerning t (T.step op) = concerning t T := by
  cases op with
  | addIdentity _ _ | removeIdentity _ => exact absurd h (by simp [ManagerOp.concerns])
  | grantAccess entity t' ni =>
    exact Prod.ext rfl (Function.update_of_ne (Ne.symm (of_decide_eq_false h)) _ _)
  | revokeAccess entity t' =>
    exact Prod.ext rfl (Function.update_of_ne (Ne.symm (of_decide_eq_false h)) _ _)
  | getGroupKeys _ _ | getEKey _ _ | getDKey _ _ _ => rfl

/-- The calls that concern a data type leave what all calls leave. -/
theorem concerning_run_filter (T : AccessTable) (t : Name) (ops : List ManagerOp) :
    concerning t (T.run (ops.filter (ManagerOp.concerns t))) = concerning t (T.run ops) :=
  exec_filter_self (fun T _ h => concerning_step h T)
    (fun T _ h => concerning_step_of_not h T) T ops

end AccessTable

namespace Manager

variable {L : GroupLib}

/-! ## The identities -/

/-- One call writes the certificate of an entity, or leaves it. -/
theorem getIdentity_step (m : Manager L) (op : ManagerOp) (e : Name) :
    (m.step op).getIdentity e = (op.writesIdentity e).getD (m.getIdentity e) := by
  cases op with
  | addIdentity entity certData =>
    show ((m.addIdentity entity certData).getD m).getIdentity e = _
    rw [getIdentity_addIdentity, ManagerOp.writesIdentity]
    cases Certificate.ofData certData with
    | none =>
      rw [Option.map_none, ite_self]
      rfl
    | some cert => exact update_eq_getD m.getIdentity entity e (some cert)
  | removeIdentity entity =>
    show (m.removeIdentity entity).getIdentity e = _
    rw [getIdentity_removeIdentity_eq]
    exact update_eq_getD m.getIdentity entity e none
  | _ =>
    show (m.step _).identities[e.toUri]? = m.identities[e.toUri]?
    rw [identities_step rfl]

/-- **The certificate of an entity** after a run is that of the last call that wrote it. -/
theorem getIdentity_run (p : Name) (keysize : ℕ) (ops : List ManagerOp) (e : Name) :
    ((ofPrefix L p keysize).run ops).getIdentity e =
      lastWrite (ManagerOp.writesIdentity e) none ops := by
  have hnone : (ofPrefix L p keysize).getIdentity e = none := Std.ExtTreeMap.getElem?_empty
  rw [← hnone]
  exact exec_eq_lastWrite (f := fun m : Manager L => m.getIdentity e)
    (fun m op => getIdentity_step m op e) _ ops

/-- An entity has a certificate when it was added with it, and nothing was written since. -/
theorem getIdentity_eq_some_iff (p : Name) (keysize : ℕ) {ops : List ManagerOp} {e : Name}
    {cert : Certificate} :
    ((ofPrefix L p keysize).run ops).getIdentity e = some cert ↔
      ∃ before between, ops = before ++ .addIdentity e cert.data :: between ∧
        ∀ op ∈ between, op.writesIdentity e = none := by
  rw [getIdentity_run, lastWrite_eq_iff]
  constructor
  · rintro (⟨before, op, between, heq, hwrites, hnone⟩ | ⟨-, hempty⟩)
    · rw [ManagerOp.writesIdentity_eq_some_iff.mp hwrites] at heq
      exact ⟨before, between, heq, hnone⟩
    · exact absurd hempty (by simp)
  · rintro ⟨before, between, heq, hnone⟩
    exact Or.inl ⟨before, _, between, heq, ManagerOp.writesIdentity_eq_some_iff.mpr rfl, hnone⟩

/-! ## The members -/

/-- The members of the table are those of the groups. -/
theorem hasMember_accessTable {m : Manager L} {t identity : Name} :
    m.accessTable.HasMember t identity ↔ ∃ x ∈ m.membersOf t, x.identity = identity := by
  show (∃ xs, (m.getGroup t).map _ = some xs ∧ _) ↔ _
  cases hg : m.getGroup t with
  | none => simp [membersOf_of_getGroup_eq_none hg]
  | some g => simp [membersOf_of_getGroup hg]

/-- An identity is a member of a data type exactly when the data type was granted to an entity that
had a certificate of this identity then, and was not revoked since. -/
theorem exists_member_iff_granted (hK : L.KeepsMembers) (hN : L.NamesMembers) (p : Name)
    (keysize : ℕ) (ops : List ManagerOp) (t identity : Name) :
    (∃ x ∈ ((ofPrefix L p keysize).run ops).membersOf t, x.identity = identity) ↔
      ∃ before entity ni after, ops = before ++ .grantAccess entity t ni :: after ∧
        (∃ cert, ((ofPrefix L p keysize).run before).getIdentity entity = some cert ∧
          cert.identity = identity) ∧ ∀ op ∈ after, op.revokes t = false := by
  have hcerts (before : List ManagerOp) (entity : Name) :
      (AccessTable.empty.run before).certificate entity =
        ((ofPrefix L p keysize).run before).getIdentity entity := by
    rw [← accessTable_run hK hN p keysize before]
    rfl
  rw [← hasMember_accessTable, accessTable_run hK hN]
  have hempty : ¬ AccessTable.empty.HasMember t identity := by
    rintro ⟨xs, hxs, -⟩
    exact absurd hxs (by simp [AccessTable.empty])
  refine (exec_iff_since_of_not (J := fun _ => True)
    (I := fun T : AccessTable => T.HasMember t identity) (A := AccessTable.Grants t identity)
    (B := fun _ op => op.revokes t = false) (fun _ _ _ => trivial)
    (fun T op _ => AccessTable.hasMember_step T op t identity) trivial hempty ops).trans ?_
  constructor
  · rintro ⟨before, op, after, heq, ⟨entity, ni, cert, rfl, hcert, hid⟩, hkept⟩
    exact ⟨before, entity, ni, after, heq, ⟨cert, (hcerts before entity).symm.trans hcert, hid⟩,
      stepsMeet_inputs.mp hkept⟩
  · rintro ⟨before, entity, ni, after, heq, ⟨cert, hcert, hid⟩, hkept⟩
    exact ⟨before, _, after, heq,
      ⟨entity, ni, cert, rfl, (hcerts before entity).trans hcert, hid⟩,
      stepsMeet_inputs.mpr hkept⟩

/-- **Who has access**, in every state of a run: an identity is a member of a data type exactly
when an entity was added with a certificate of this identity, was granted the data type while
this certificate was the last one written for it, and the data type was not revoked since. -/
theorem isMember_iff (hK : L.KeepsMembers) (hN : L.NamesMembers) (p : Name) (keysize : ℕ)
    (ops : List ManagerOp) (t identity : Name) :
    (∃ x ∈ ((ofPrefix L p keysize).run ops).membersOf t, x.identity = identity) ↔
      ∃ before entity, ∃ cert : Certificate, ∃ between ni after,
        ops = before ++ .addIdentity entity cert.data :: between ++
            .grantAccess entity t ni :: after ∧
          cert.identity = identity ∧ (∀ op ∈ between, op.writesIdentity entity = none) ∧
            ∀ op ∈ after, op.revokes t = false := by
  rw [exists_member_iff_granted hK hN]
  constructor
  · rintro ⟨pre, entity, ni, after, heq, ⟨cert, hcert, hid⟩, hkept⟩
    obtain ⟨before, between, rfl, hnone⟩ := (getIdentity_eq_some_iff p keysize).mp hcert
    exact ⟨before, entity, cert, between, ni, after, heq, hid, hnone, hkept⟩
  · rintro ⟨before, entity, cert, between, ni, after, heq, hid, hnone, hkept⟩
    refine ⟨_, entity, ni, after, heq, ⟨cert, ?_, hid⟩, hkept⟩
    exact (getIdentity_eq_some_iff p keysize).mpr ⟨before, between, rfl, hnone⟩

/-- An entity added under its own name and granted is a member, whatever is read afterwards. -/
theorem isMember_after_grant :
    ∃ x ∈ ((ofPrefix memoryGroups [Component.of "manager"] 2048).run
        [.addIdentity [Component.of "alice"] (Certificate.issued [Component.of "alice"]),
          .grantAccess [Component.of "alice"] [Component.of "health"] (dailyFrom "everyday"),
          .getEKey [Component.of "health"] ⟨⟨2017, 7, 3⟩, 0⟩]).membersOf [Component.of "health"],
      x.identity = [Component.of "alice"] :=
  (isMember_iff memoryGroups_keepsMembers memoryGroups_namesMembers [Component.of "manager"] 2048
    _ _ _).mpr ⟨[], [Component.of "alice"],
      ⟨Certificate.issued [Component.of "alice"], by decide⟩, [], dailyFrom "everyday",
      [.getEKey [Component.of "health"] ⟨⟨2017, 7, 3⟩, 0⟩], rfl, by decide,
      fun _ hop => absurd hop List.not_mem_nil, by decide⟩

/-! ## The keys -/

/-- One call makes a group when it grants the data type, and keeps it unless it revokes it. -/
theorem getGroup_step_isSome_iff (m : Manager L) (op : ManagerOp) (t : Name) :
    ((m.step op).getGroup t).isSome ↔
      (∃ entity ni, op = .grantAccess entity t ni) ∨
        (m.getGroup t).isSome ∧ op.revokes t = false := by
  by_cases hgrant : ∃ entity ni, op = .grantAccess entity t ni
  · obtain ⟨entity, ni, rfl⟩ := hgrant
    refine iff_of_true ?_ (Or.inl ⟨entity, ni, rfl⟩)
    obtain ⟨db, heq, -⟩ := grantAccess_eq m entity t ni
    show ((m.grantAccess entity t ni).getGroup t).isSome
    rw [heq, getGroup_storeGroup_self]
    rfl
  · rw [or_iff_right hgrant]
    by_cases hrevokes : op.revokes t = true
    · obtain ⟨entity, rfl⟩ : ∃ entity, op = .revokeAccess entity t := by
        cases op with
        | revokeAccess entity t' => exact ⟨entity, by rw [of_decide_eq_true hrevokes]⟩
        | _ => exact absurd hrevokes Bool.false_ne_true
      have hstep : m.step (.revokeAccess entity t) = m.deleteGroup t := revokeAccess_eq m entity t
      rw [hstep, getGroup_deleteGroup_self, hrevokes]
      simp
    · rw [Bool.not_eq_true] at hrevokes
      rw [and_iff_left hrevokes]
      rcases getGroup_step (m := m) op t with heq | ⟨entity, rfl, -⟩ | hgrant' | ⟨g, ts, hg, heq⟩
      · rw [heq]
      · rw [ManagerOp.revokes, decide_eq_true rfl] at hrevokes
        exact Bool.noConfusion hrevokes
      · exact absurd hgrant' hgrant
      · rw [heq, hg]
        exact iff_of_true rfl rfl

/-- There is a group for a data type exactly when it was granted and not revoked since. -/
theorem getGroup_isSome_iff_granted (p : Name) (keysize : ℕ) (ops : List ManagerOp) (t : Name) :
    (((ofPrefix L p keysize).run ops).getGroup t).isSome ↔
      ∃ before entity ni after, ops = before ++ .grantAccess entity t ni :: after ∧
        ∀ op ∈ after, op.revokes t = false := by
  have hnone : ¬ ((ofPrefix L p keysize).getGroup t).isSome := by
    rw [show (ofPrefix L p keysize).getGroup t = none from Std.ExtTreeMap.getElem?_empty]
    exact Bool.false_ne_true
  refine (exec_iff_since_of_not (J := fun _ => True)
    (I := fun m : Manager L => (m.getGroup t).isSome)
    (A := fun _ op => ∃ entity ni, op = .grantAccess entity t ni)
    (B := fun _ op => op.revokes t = false) (fun _ _ _ => trivial)
    (fun m op _ => getGroup_step_isSome_iff m op t) trivial hnone ops).trans ?_
  constructor
  · rintro ⟨before, op, after, heq, ⟨entity, ni, rfl⟩, hkept⟩
    exact ⟨before, entity, ni, after, heq, stepsMeet_inputs.mp hkept⟩
  · rintro ⟨before, entity, ni, after, heq, hkept⟩
    exact ⟨before, _, after, heq, ⟨entity, ni, rfl⟩, stepsMeet_inputs.mpr hkept⟩

/-- There is an E-KEY exactly when the group of the data type makes keys for the time. -/
theorem getEKey_isSome_iff (m : Manager L) (t : Name) (ts : TimeStamp) :
    (m.getEKey t ts).1.isSome ↔
      ∃ g, m.getGroup t = some g ∧ (L.getGroupKey g.config g.db ts false).2 ≠ [] := by
  rw [getEKey_fst, List.isSome_head?]
  unfold getGroupKeys
  cases hg : m.getGroup t with
  | none => simp
  | some g => simp

/-- **There are keys for a data type** once it was granted, to whomever, and not revoked since.
In every state of a run this is exactly when it has a group; and there is an E-KEY at a time
exactly when besides this group makes keys for the time. -/
theorem keys_iff_granted (p : Name) (keysize : ℕ) (ops : List ManagerOp) (t : Name) :
    let m := (ofPrefix L p keysize).run ops
    ((m.getGroup t).isSome ↔
        ∃ before entity ni after, ops = before ++ .grantAccess entity t ni :: after ∧
          ∀ op ∈ after, op.revokes t = false) ∧
      ∀ ts, (m.getEKey t ts).1.isSome ↔
        (∃ before entity ni after, ops = before ++ .grantAccess entity t ni :: after ∧
          ∀ op ∈ after, op.revokes t = false) ∧
        ∀ g, m.getGroup t = some g → (L.getGroupKey g.config g.db ts false).2 ≠ [] := by
  intro m
  have hgroup := getGroup_isSome_iff_granted (L := L) p keysize ops t
  refine ⟨hgroup, fun ts => ?_⟩
  rw [getEKey_isSome_iff, ← hgroup]
  constructor
  · rintro ⟨g, hg, hkeys⟩
    refine ⟨Option.isSome_iff_exists.mpr ⟨g, hg⟩, fun g' hg' => ?_⟩
    rwa [← Option.some.inj (hg.symm.trans hg')]
  · rintro ⟨hsome, hkeys⟩
    obtain ⟨g, hg⟩ := Option.isSome_iff_exists.mp hsome
    exact ⟨g, hg, hkeys g hg⟩

/-! ## Data types apart -/

/-- **What is done to other data types is not seen**: after two runs with the same calls on
identities and on a data type, in the same order, the entities have the same certificates, and
the data type has the same members, or in both runs no group. -/
theorem eq_of_same_calls (hK : L.KeepsMembers) (hN : L.NamesMembers) (p : Name) (keysize : ℕ)
    {ops ops' : List ManagerOp} {t : Name}
    (h : ops.filter (ManagerOp.concerns t) = ops'.filter (ManagerOp.concerns t)) :
    let m := (ofPrefix L p keysize).run ops
    let m' := (ofPrefix L p keysize).run ops'
    (∀ e, m.getIdentity e = m'.getIdentity e) ∧ (∀ x, x ∈ m.membersOf t ↔ x ∈ m'.membersOf t) ∧
      ((m.getGroup t).isSome ↔ (m'.getGroup t).isSome) := by
  intro m m'
  have hsame : AccessTable.concerning t m.accessTable =
      AccessTable.concerning t m'.accessTable := by
    rw [accessTable_run hK hN, accessTable_run hK hN, ← AccessTable.concerning_run_filter _ t ops,
      h, AccessTable.concerning_run_filter]
  have hcerts : m.getIdentity = m'.getIdentity := congrArg Prod.fst hsame
  have hmembers : m.accessTable.members t = m'.accessTable.members t := congrArg Prod.snd hsame
  refine ⟨fun e => congrFun hcerts e, fun x => ?_, ?_⟩
  · have hsets := congrArg (fun xs => xs.getD ∅) hmembers
    rw [members_accessTable, members_accessTable] at hsets
    exact Set.ext_iff.mp hsets x
  · have hsome := congrArg Option.isSome hmembers
    have hmap (m : Manager L) : (m.accessTable.members t).isSome = (m.getGroup t).isSome :=
      Option.isSome_map
    rw [hmap, hmap] at hsome
    rw [hsome]

/-- A grant and a revocation of one data type are not seen by another. -/
theorem health_apart_from_location :
    let m := (ofPrefix memoryGroups [Component.of "manager"] 2048).run
      [.addIdentity [Component.of "alice"] (Certificate.issued [Component.of "alice"]),
        .grantAccess [Component.of "alice"] [Component.of "location"] (dailyFrom "everyday"),
        .addIdentity [Component.of "bob"] (Certificate.issued [Component.of "bob"]),
        .grantAccess [Component.of "alice"] [Component.of "health"] (dailyFrom "everyday"),
        .getDKey [Component.of "health"] [Component.of "alice"] ⟨⟨2017, 7, 3⟩, 0⟩,
        .revokeAccess [Component.of "alice"] [Component.of "location"]]
    let m' := (ofPrefix memoryGroups [Component.of "manager"] 2048).run
      [.addIdentity [Component.of "alice"] (Certificate.issued [Component.of "alice"]),
        .addIdentity [Component.of "bob"] (Certificate.issued [Component.of "bob"]),
        .grantAccess [Component.of "alice"] [Component.of "health"] (dailyFrom "everyday")]
    (∀ e, m.getIdentity e = m'.getIdentity e) ∧
      (∀ x, x ∈ m.membersOf [Component.of "health"] ↔ x ∈ m'.membersOf [Component.of "health"]) ∧
      ((m.getGroup [Component.of "health"]).isSome ↔
        (m'.getGroup [Component.of "health"]).isSome) :=
  eq_of_same_calls memoryGroups_keepsMembers memoryGroups_namesMembers [Component.of "manager"]
    2048 (by rfl)

end Manager
end Nacapp
