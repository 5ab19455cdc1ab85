import Nacapp.Manager.Runs

/-!
# Members and entities

A grant looks a certificate up under the name of the entity, and the group names the member
it adds by the identity inside that certificate.  Nothing makes the two names agree, since
the check in `validateCertificate` is commented out: the first grant adds one member, and a
repeated grant changes the schedule of another (`granted_iff`).

What the group library does with the names is `L.NamesMembers`.
-/

namespace Nacapp

/-- The member under this schedule, if it has this name. -/
def Member.reschedule (n : Name) (s : Bytes) (x : Member) : Member :=
  if x.identity = n then { x with scheduleName := s } else x

@[simp] theorem Member.identity_reschedule (n : Name) (s : Bytes) (x : Member) :
    (x.reschedule n s).identity = x.identity := by
  rw [reschedule]
  split
  · rfl
  · rfl

namespace GroupLib

/-- How the library names its members: `addMember` adds a member named by the identity
inside the certificate, and throws when there is one of this name; `updateMemberSchedule`
changes the member of the given name and does nothing when there is none. -/
structure NamesMembers (L : GroupLib) : Prop where
  addMember_eq_none : ∀ c db s cert,
    L.addMember c db s cert = none ↔ ∃ x ∈ L.members db, x.identity = cert.identity
  addMember : ∀ {c db s cert db'}, L.addMember c db s cert = some db' →
    (L.members db').Perm (⟨cert.name, s⟩ :: L.members db)
  updateMemberSchedule : ∀ c db n s,
    L.members (L.updateMemberSchedule c db n s) = (L.members db).map (Member.reschedule n s)

end GroupLib

theorem memoryGroups_namesMembers : memoryGroups.NamesMembers where
  addMember_eq_none c db s cert := by
    dsimp only [memoryGroups]
    split
    · rename_i h
      exact iff_of_true rfl h
    · rename_i h
      exact iff_of_false (by simp) h
  addMember {c db s cert db'} h := by
    dsimp only [memoryGroups] at h
    split at h
    · exact absurd h (by simp)
    · rw [← Option.some.inj h]
      exact List.perm_append_singleton _ _
  updateMemberSchedule _ _ _ _ := rfl

namespace Manager

variable {L : GroupLib} {m : Manager L}

/-! ## The members a call leaves -/

theorem membersOf_storeGroup (t : Name) (g : Group L) :
    (m.storeGroup t g).membersOf t = L.members g.db :=
  membersOf_of_getGroup (getGroup_storeGroup_self m t g)

theorem membersOf_grantAccess_of_none (hK : L.KeepsMembers) {entity : Name}
    (h : m.getIdentity entity = none) (t : Name) (ni : NamedInterval) :
    (m.grantAccess entity t ni).membersOf t = m.membersOf t := by
  rw [grantAccess_of_getIdentity_eq_none m h, membersOf_storeGroup, members_scheduledGroup hK]

/-- A grant with a certificate whose identity is a member already. -/
theorem membersOf_grantAccess_of_mem (hK : L.KeepsMembers) (hN : L.NamesMembers)
    {entity t : Name} {cert : Certificate} (hcert : m.getIdentity entity = some cert)
    (h : ∃ x ∈ m.membersOf t, x.identity = cert.identity) (ni : NamedInterval) :
    (m.grantAccess entity t ni).membersOf t =
      (m.membersOf t).map (Member.reschedule entity ni.name.toUri) := by
  obtain ⟨db, hgrant, hdb⟩ := grantAccess_eq m entity t ni
  rw [hgrant, membersOf_storeGroup]
  rcases hdb with ⟨hnone, -⟩ | ⟨cert', hcert', hadd | ⟨-, rfl⟩⟩
  · rw [hcert] at hnone
    exact absurd hnone (by simp)
  · obtain rfl : cert' = cert := Option.some.inj (hcert'.symm.trans hcert)
    have hthrows := (hN.addMember_eq_none (m.createGroup t).1.config (m.scheduledGroup t ni).db
      ni.name.toUri cert').mpr (by rwa [members_scheduledGroup hK])
    rw [hadd] at hthrows
    exact absurd hthrows (by simp)
  · rw [hN.updateMemberSchedule, members_scheduledGroup hK]

/-- A grant with a certificate whose identity is no member. -/
theorem membersOf_grantAccess_of_new (hK : L.KeepsMembers) (hN : L.NamesMembers)
    {entity t : Name} {cert : Certificate} (hcert : m.getIdentity entity = some cert)
    (h : ¬ ∃ x ∈ m.membersOf t, x.identity = cert.identity) (ni : NamedInterval) :
    ((m.grantAccess entity t ni).membersOf t).Perm
      (⟨cert.name, ni.name.toUri⟩ :: m.membersOf t) := by
  obtain ⟨db, hgrant, hdb⟩ := grantAccess_eq m entity t ni
  rw [hgrant, membersOf_storeGroup, ← members_scheduledGroup hK t ni]
  rcases hdb with ⟨hnone, -⟩ | ⟨cert', hcert', hadd | ⟨hthrows, -⟩⟩
  · rw [hcert] at hnone
    exact absurd hnone (by simp)
  · obtain rfl : cert' = cert := Option.some.inj (hcert'.symm.trans hcert)
    exact hN.addMember hadd
  · obtain rfl : cert' = cert := Option.some.inj (hcert'.symm.trans hcert)
    rw [hN.addMember_eq_none, members_scheduledGroup hK] at hthrows
    exact absurd hthrows h

/-- The members of a data type after a call: the same, or none, unless the call is a grant of
the data type. -/
theorem membersOf_step (hK : L.KeepsMembers) (op : ManagerOp) (t : Name) :
    (m.step op).membersOf t = m.membersOf t ∨ (m.step op).membersOf t = [] ∨
      ∃ entity ni, op = .grantAccess entity t ni := by
  rcases getGroup_step (m := m) op t with heq | ⟨_, -, heq⟩ | hgrant | ⟨g, ts, hg, heq⟩
  · refine Or.inl ?_
    unfold membersOf
    rw [heq]
  · exact Or.inr (Or.inl (membersOf_of_getGroup_eq_none heq))
  · exact Or.inr (Or.inr hgrant)
  · rw [membersOf_of_getGroup heq, membersOf_of_getGroup hg]
    exact Or.inl (hK.getGroupKey _ _ _ _)

/-! ## One member of a name -/

variable (m) in
/-- No group has two members of one name. -/
def Distinct : Prop := ∀ t, ((m.membersOf t).map Member.identity).Nodup

theorem membersOf_ofPrefix (p : Name) (k : ℕ) (t : Name) : (ofPrefix L p k).membersOf t = [] :=
  membersOf_of_getGroup_eq_none Std.ExtTreeMap.getElem?_empty

theorem distinct_grantAccess (hK : L.KeepsMembers) (hN : L.NamesMembers) {t : Name}
    (h : ((m.membersOf t).map Member.identity).Nodup) (entity : Name) (ni : NamedInterval) :
    (((m.grantAccess entity t ni).membersOf t).map Member.identity).Nodup := by
  cases hcert : m.getIdentity entity with
  | none => rwa [membersOf_grantAccess_of_none hK hcert]
  | some cert =>
    by_cases hmem : ∃ x ∈ m.membersOf t, x.identity = cert.identity
    · rw [membersOf_grantAccess_of_mem hK hN hcert hmem, List.map_map]
      have hid : Member.identity ∘ Member.reschedule entity ni.name.toUri = Member.identity :=
        funext fun x => x.identity_reschedule _ _
      rwa [hid]
    · have hperm := (membersOf_grantAccess_of_new hK hN hcert hmem ni).map Member.identity
      rw [hperm.nodup_iff, List.map_cons, List.nodup_cons]
      refine ⟨fun hin => hmem ?_, h⟩
      obtain ⟨x, hx, hid⟩ := List.mem_map.mp hin
      exact ⟨x, hx, hid⟩

theorem distinct_step (hK : L.KeepsMembers) (hN : L.NamesMembers) (h : m.Distinct)
    (op : ManagerOp) : (m.step op).Distinct := by
  intro t
  rcases membersOf_step (m := m) hK op t with heq | heq | ⟨entity, ni, rfl⟩
  · rw [heq]
    exact h t
  · rw [heq]
    exact List.nodup_nil
  · exact distinct_grantAccess hK hN (h t) entity ni

/-- **No run brings a group two members of one name.** -/
theorem distinct_run (hK : L.KeepsMembers) (hN : L.NamesMembers) (p : Name) (k : ℕ)
    (ops : List ManagerOp) : ((ofPrefix L p k).run ops).Distinct := by
  refine Transitions.invariant (fun op _ _ h => distinct_step hK hN h op) fun t => ?_
  rw [membersOf_ofPrefix]
  exact List.nodup_nil

/-! ## Repeated grants -/

variable (m) in
/-- The memberships of a name in the group of the data type. -/
def membershipsOf (t identity : Name) : List Member :=
  (m.membersOf t).filter fun x => x.identity = identity

theorem identity_of_mem_membershipsOf {t identity : Name} {x : Member}
    (h : x ∈ m.membershipsOf t identity) : x ∈ m.membersOf t ∧ x.identity = identity := by
  rw [membershipsOf, List.mem_filter, decide_eq_true_eq] at h
  exact h

/-- There is one membership of a name, or none. -/
theorem Distinct.membershipsOf_cases (h : m.Distinct) (t identity : Name) :
    m.membershipsOf t identity = [] ∨ ∃ x, m.membershipsOf t identity = [x] := by
  have hnodup : ((m.membershipsOf t identity).map Member.identity).Nodup :=
    (h t).sublist (List.filter_sublist.map _)
  rcases hlist : m.membershipsOf t identity with _ | ⟨x, _ | ⟨y, xs⟩⟩
  · exact Or.inl rfl
  · exact Or.inr ⟨x, rfl⟩
  · have hx := (identity_of_mem_membershipsOf (hlist ▸ List.mem_cons_self)).2
    have hy := (identity_of_mem_membershipsOf
      (hlist ▸ List.mem_cons_of_mem x List.mem_cons_self)).2
    rw [hlist, List.map_cons, List.map_cons, hx, hy] at hnodup
    exact absurd List.mem_cons_self (List.nodup_cons.mp hnodup).1

/-- The first grant adds the membership. -/
theorem membershipsOf_grantAccess_of_nil (hK : L.KeepsMembers) (hN : L.NamesMembers)
    {entity t : Name} {cert : Certificate} (hcert : m.getIdentity entity = some cert)
    (h : m.membershipsOf t cert.identity = []) (ni : NamedInterval) :
    (m.grantAccess entity t ni).membershipsOf t cert.identity = [⟨cert.name, ni.name.toUri⟩] := by
  have hnew : ¬ ∃ x ∈ m.membersOf t, x.identity = cert.identity := by
    rintro ⟨x, hx, hid⟩
    exact absurd (decide_eq_true hid) (List.filter_eq_nil_iff.mp h x hx)
  have hperm := (membersOf_grantAccess_of_new hK hN hcert hnew ni).filter
    fun x => x.identity = cert.identity
  have hself : Member.identity ⟨cert.name, ni.name.toUri⟩ = cert.identity := rfl
  rw [List.filter_cons_of_pos (by rw [decide_eq_true_eq]; exact hself),
    show (m.membersOf t).filter (fun x => x.identity = cert.identity) = [] from h] at hperm
  exact List.perm_singleton.mp hperm

/-- A grant with a certificate whose identity is a member reschedules the memberships. -/
theorem membershipsOf_grantAccess_of_mem (hK : L.KeepsMembers) (hN : L.NamesMembers)
    {entity t : Name} {cert : Certificate} (hcert : m.getIdentity entity = some cert)
    (h : ∃ x ∈ m.membersOf t, x.identity = cert.identity) (ni : NamedInterval)
    (identity : Name) :
    (m.grantAccess entity t ni).membershipsOf t identity =
      (m.membershipsOf t identity).map (Member.reschedule entity ni.name.toUri) := by
  rw [membershipsOf, membersOf_grantAccess_of_mem hK hN hcert h, List.filter_map]
  have hsame : (fun y : Member => decide (y.identity = identity)) ∘
      Member.reschedule entity ni.name.toUri = fun y => decide (y.identity = identity) :=
    funext fun y => by rw [Function.comp_apply, y.identity_reschedule]
  rw [hsame, ← membershipsOf]

/-- A repeated grant changes the schedule of the member named like the entity. -/
theorem membershipsOf_grantAccess_of_singleton (hK : L.KeepsMembers) (hN : L.NamesMembers)
    {entity t : Name} {cert : Certificate} (hcert : m.getIdentity entity = some cert) {x : Member}
    (h : m.membershipsOf t cert.identity = [x]) (ni : NamedInterval) :
    (m.grantAccess entity t ni).membershipsOf t cert.identity =
      [x.reschedule entity ni.name.toUri] := by
  have hx := identity_of_mem_membershipsOf (h ▸ List.mem_cons_self : x ∈ m.membershipsOf t _)
  rw [membershipsOf_grantAccess_of_mem hK hN hcert ⟨x, hx⟩, h, List.map_singleton]

variable (m) in
/-- The grants of a data type to an entity, one after the other. -/
def grants (entity t : Name) (nis : List NamedInterval) : Manager L :=
  nis.foldl (fun m ni => m.grantAccess entity t ni) m

theorem getIdentity_grantAccess (entity t e : Name) (ni : NamedInterval) :
    (m.grantAccess entity t ni).getIdentity e = m.getIdentity e := by
  obtain ⟨db, hgrant, -⟩ := grantAccess_eq m entity t ni
  rw [hgrant]
  rfl

/-- After further grants a membership has the schedule of the last, if its name is that of
the entity, and otherwise the schedule it had. -/
theorem membershipsOf_grants (hK : L.KeepsMembers) (hN : L.NamesMembers) {entity t : Name}
    {cert : Certificate} (hcert : m.getIdentity entity = some cert) {x : Member}
    (h : m.membershipsOf t cert.identity = [x]) (nis : List NamedInterval) :
    ∃ y, (m.grants entity t nis).membershipsOf t cert.identity = [y] ∧
      y.scheduleName = if cert.identity = entity then
        (nis.getLast?.map fun ni => ni.name.toUri).getD x.scheduleName else x.scheduleName := by
  induction nis generalizing m x with
  | nil =>
    refine ⟨x, h, ?_⟩
    split
    · rfl
    · rfl
  | cons ni nis ih =>
    have hid := (identity_of_mem_membershipsOf (h ▸ List.mem_cons_self)).2
    obtain ⟨y, hy, hname⟩ := ih ((getIdentity_grantAccess entity t entity ni).trans hcert)
      (membershipsOf_grantAccess_of_singleton hK hN hcert h ni)
    refine ⟨y, hy, hname.trans ?_⟩
    rw [Member.reschedule]
    rw [hid]
    split
    · cases nis with
      | nil => rfl
      | cons ni' nis => rw [List.getLast?_cons_cons, List.getLast?_cons]; rfl
    · rfl

variable (m) in
/-- The schedule an entity has with its first grant: that of the membership which is there
already, else that of the grant. -/
def firstSchedule (t identity : Name) (ni : NamedInterval) : Bytes :=
  ((m.membershipsOf t identity).head?.map Member.scheduleName).getD ni.name.toUri

/-- **A grant takes effect and a repeated grant replaces the schedule**, exactly when the
entity is granted under the identity inside its certificate, or the schedule it already has,
or has from the first grant, is named like that of the last. -/
theorem granted_iff (hK : L.KeepsMembers) (hN : L.NamesMembers) (p : Name) (keysize : ℕ)
    (ops : List ManagerOp) (t : Name) (ni : NamedInterval) (nis : List NamedInterval)
    {entity : Name} {cert : Certificate}
    (hcert : ((ofPrefix L p keysize).run ops).getIdentity entity = some cert) :
    let m := (ofPrefix L p keysize).run ops
    let last := (ni :: nis).getLast (List.cons_ne_nil ni nis)
    (∃ x, (m.grants entity t (ni :: nis)).membershipsOf t cert.identity = [x] ∧
        x.scheduleName = last.name.toUri) ↔
      cert.identity = entity ∨ m.firstSchedule t cert.identity ni = last.name.toUri := by
  intro m last
  have hlast : (ni :: nis).getLast? = some last := List.getLast?_eq_some_getLast _
  obtain ⟨y, hy, hname⟩ : ∃ y, (m.grants entity t (ni :: nis)).membershipsOf t cert.identity =
      [y] ∧ y.scheduleName = if cert.identity = entity then last.name.toUri
        else m.firstSchedule t cert.identity ni := by
    rw [firstSchedule]
    rcases (distinct_run hK hN p keysize ops).membershipsOf_cases t cert.identity with
      hnil | ⟨x, hx⟩
    · rw [show m.membershipsOf t cert.identity = [] from hnil]
      obtain ⟨y, hy, hname⟩ := membershipsOf_grants hK hN
        ((getIdentity_grantAccess entity t entity ni).trans hcert)
        (membershipsOf_grantAccess_of_nil hK hN hcert hnil ni) nis
      refine ⟨y, hy, hname.trans (if_congr Iff.rfl ?_ rfl)⟩
      cases nis with
      | nil => rw [← Option.some.inj hlast]; rfl
      | cons ni' nis =>
        rw [List.getLast?_cons_cons] at hlast
        rw [hlast]
        rfl
    · rw [show m.membershipsOf t cert.identity = [x] from hx]
      obtain ⟨y, hy, hname⟩ := membershipsOf_grants hK hN hcert hx (ni :: nis)
      rw [hlast] at hname
      exact ⟨y, hy, hname⟩
  by_cases hid : cert.identity = entity
  · rw [if_pos hid] at hname
    exact iff_of_true ⟨y, hy, hname⟩ (Or.inl hid)
  · rw [if_neg hid] at hname
    constructor
    · rintro ⟨x, hx, hsched⟩
      obtain rfl : y = x := List.singleton_inj.mp (hy.symm.trans hx)
      exact Or.inr (hname.symm.trans hsched)
    · rintro (heq | hsched)
      · exact absurd heq hid
      · exact ⟨y, hy, hname.trans hsched⟩

/-- A named interval, as the default grant makes it on one day. -/
def dailyFrom (name : String) : NamedInterval :=
  ⟨[Component.of name], (defaultSchedule ⟨⟨2017, 7, 3⟩, 0⟩).interval⟩

/-- An entity that is filed under the identity inside its certificate has the last schedule. -/
theorem granted_under_identity :
    let m := (ofPrefix memoryGroups [Component.of "manager"] 2048).run
      [.addIdentity [Component.of "alice"] (Certificate.issued [Component.of "alice"])]
    ∃ x, (m.grants [Component.of "alice"] [Component.of "health"]
        [dailyFrom "weekdays", dailyFrom "weekends"]).membershipsOf [Component.of "health"]
          [Component.of "alice"] = [x] ∧
      x.scheduleName = bytes "/weekends" := by
  have hcert : ((ofPrefix memoryGroups [Component.of "manager"] 2048).run
      [.addIdentity [Component.of "alice"] (Certificate.issued [Component.of "alice"])]).getIdentity
        [Component.of "alice"] = some ⟨Certificate.issued [Component.of "alice"], by decide⟩ := by
    decide +kernel
  exact (granted_iff memoryGroups_keepsMembers memoryGroups_namesMembers [Component.of "manager"]
    2048 _ [Component.of "health"] (dailyFrom "weekdays") [dailyFrom "weekends"] hcert).mpr
      (Or.inl (by decide))

/-- An entity that is filed under the name of its certificate keeps the first. -/
theorem not_granted_under_certificate_name :
    let m := (ofPrefix memoryGroups [Component.of "manager"] 2048).run
      [.addIdentity (Certificate.issued [Component.of "alice"]).name
        (Certificate.issued [Component.of "alice"])]
    ¬ ∃ x, (m.grants (Certificate.issued [Component.of "alice"]).name [Component.of "health"]
        [dailyFrom "weekdays", dailyFrom "weekends"]).membershipsOf [Component.of "health"]
          [Component.of "alice"] = [x] ∧
      x.scheduleName = bytes "/weekends" := by
  intro m
  have hmember : (m.grants (Certificate.issued [Component.of "alice"]).name
      [Component.of "health"] [dailyFrom "weekdays", dailyFrom "weekends"]).membershipsOf
        [Component.of "health"] [Component.of "alice"] =
      [⟨(Certificate.issued [Component.of "alice"]).name, bytes "/weekdays"⟩] := by
    decide +kernel
  rintro ⟨x, hx, hname⟩
  rw [hmember] at hx
  rw [← List.singleton_inj.mp hx] at hname
  exact absurd hname (by decide)

end Manager
end Nacapp
