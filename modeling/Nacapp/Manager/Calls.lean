import Nacapp.Manager.Manager

/-!
# What the calls of the manager do

The effect of each call on the groups, the members and the keys.

* A grant stores the group of its data type (`grantAccess_eq`), and the members it leaves
  there are old ones or have the certificate of the entity
  (`certName_of_mem_membersOf_grantAccess`).
* A revocation deletes the group of its data type (`revokeAccess_eq`).
* A key read leaves the groups as they are, up to the database of the group it reads
  (`getGroup_getGroupKeys`).  `getEKey` files the D-KEYs, and so does `getDKey` for an
  entity that is no key of the cache.
-/

namespace Nacapp

namespace Manager

variable {L : GroupLib} (m : Manager L)

/-! ## The identity map -/

theorem getIdentity_insert (k e : Name) (cert : Certificate) :
    getIdentity { m with identities := m.identities.insert k.toUri cert } e =
      if k = e then some cert else m.getIdentity e := by
  show (m.identities.insert k.toUri cert)[e.toUri]? = _
  rw [Std.ExtTreeMap.getElem?_insert]
  simp only [Std.LawfulEqCmp.compare_eq_iff_eq, Name.toUri_inj]
  rfl

theorem getIdentity_removeIdentity (k e : Name) :
    (m.removeIdentity k).getIdentity e = if k = e then none else m.getIdentity e := by
  show (m.identities.erase k.toUri)[e.toUri]? = _
  rw [Std.ExtTreeMap.getElem?_erase]
  simp only [Std.LawfulEqCmp.compare_eq_iff_eq, Name.toUri_inj]
  rfl

/-! ## The group of a data type -/

theorem getGroupFullName_inj {p t t' : Name} :
    getGroupFullName p t = getGroupFullName p t' ↔ t = t' := by
  unfold getGroupFullName
  rw [Name.toUri_inj, List.append_cancel_left_eq, List.cons_inj_right]

theorem compare_getGroupFullName {p t t' : Name} :
    compare (getGroupFullName p t) (getGroupFullName p t') = Ordering.eq ↔ t = t' :=
  Std.LawfulEqCmp.compare_eq_iff_eq.trans getGroupFullName_inj

theorem getGroup_storeGroup (t t' : Name) (g : Group L) :
    (m.storeGroup t g).getGroup t' = if t = t' then some g else m.getGroup t' := by
  show (m.groups.insert (getGroupFullName m.managerPrefix t) g)[
    getGroupFullName m.managerPrefix t']? = _
  rw [Std.ExtTreeMap.getElem?_insert]
  simp only [compare_getGroupFullName]
  rfl

@[simp] theorem getGroup_storeGroup_self (t : Name) (g : Group L) :
    (m.storeGroup t g).getGroup t = some g := by
  rw [getGroup_storeGroup, if_pos rfl]

theorem getGroup_storeGroup_of_ne {t t' : Name} (h : t ≠ t') (g : Group L) :
    (m.storeGroup t g).getGroup t' = m.getGroup t' := by
  rw [getGroup_storeGroup, if_neg h]

theorem getGroup_deleteGroup (t t' : Name) :
    (m.deleteGroup t).getGroup t' = if t = t' then none else m.getGroup t' := by
  show (m.groups.erase (getGroupFullName m.managerPrefix t))[
    getGroupFullName m.managerPrefix t']? = _
  rw [Std.ExtTreeMap.getElem?_erase]
  simp only [compare_getGroupFullName]
  rfl

@[simp] theorem getGroup_deleteGroup_self (t : Name) : (m.deleteGroup t).getGroup t = none := by
  rw [getGroup_deleteGroup, if_pos rfl]

theorem getGroup_deleteGroup_of_ne {t t' : Name} (h : t ≠ t') :
    (m.deleteGroup t).getGroup t' = m.getGroup t' := by
  rw [getGroup_deleteGroup, if_neg h]

/-- Storing a group twice leaves the second. -/
theorem storeGroup_storeGroup (t : Name) (g g' : Group L) :
    (m.storeGroup t g).storeGroup t g' = m.storeGroup t g' := by
  unfold storeGroup
  congr 1
  refine Std.ExtTreeMap.ext_getElem? fun k => ?_
  rw [Std.ExtTreeMap.getElem?_insert, Std.ExtTreeMap.getElem?_insert,
    Std.ExtTreeMap.getElem?_insert]
  split <;> rfl

/-- Deleting forgets what was stored. -/
theorem deleteGroup_storeGroup (t : Name) (g : Group L) :
    (m.storeGroup t g).deleteGroup t = m.deleteGroup t := by
  unfold storeGroup deleteGroup
  congr 1
  refine Std.ExtTreeMap.ext_getElem? fun k => ?_
  rw [Std.ExtTreeMap.getElem?_erase, Std.ExtTreeMap.getElem?_erase]
  split
  · rfl
  · rename_i h
    rw [Std.ExtTreeMap.getElem?_insert, if_neg h]

/-! ## What the calls do to the groups -/

/-- A group that was just created is created again as itself. -/
theorem createGroup_of_getGroup {t : Name} {g : Group L} (h : m.getGroup t = some g) :
    m.createGroup t = (g, m) := by
  unfold createGroup
  rw [h]

theorem storeGroup_createGroup (t : Name) (g : Group L) :
    (m.createGroup t).2.storeGroup t g = m.storeGroup t g := by
  unfold createGroup
  cases m.getGroup t with
  | none => exact storeGroup_storeGroup m t _ g
  | some _ => rfl

/-- **A revocation deletes the group.**  The member is removed from the group object, and
the object is dropped from the map in the same call. -/
theorem revokeAccess_eq (entity t : Name) : m.revokeAccess entity t = m.deleteGroup t := by
  show ((m.createGroup t).2.storeGroup t _).deleteGroup t = _
  rw [storeGroup_createGroup, deleteGroup_storeGroup]

theorem addCertificate_eq (t identity : Name) (cert : Certificate) (s : Bytes) :
    ∃ db, m.addCertificate t identity cert s = m.storeGroup t ⟨(m.createGroup t).1.config, db⟩ ∧
      (L.addMember (m.createGroup t).1.config (m.createGroup t).1.db s cert = some db ∨
        L.addMember (m.createGroup t).1.config (m.createGroup t).1.db s cert = none ∧
          db = L.updateMemberSchedule (m.createGroup t).1.config (m.createGroup t).1.db
            identity s) := by
  unfold addCertificate
  dsimp only
  cases h : L.addMember (m.createGroup t).1.config (m.createGroup t).1.db s cert with
  | some db => exact ⟨db, storeGroup_createGroup m t _, Or.inl rfl⟩
  | none => exact ⟨_, storeGroup_createGroup m t _, Or.inr ⟨rfl, rfl⟩⟩

theorem createSchedule_fst (g : Group L) (ni : NamedInterval) :
    (m.createSchedule g ni).1 = ni.name.toUri := by
  unfold createSchedule
  dsimp only
  split <;> rfl

/-- The group of the data type after the first two steps of a grant: created when there was
none, with the schedule stored. -/
def scheduledGroup (t : Name) (ni : NamedInterval) : Group L :=
  ((m.createGroup t).2.createSchedule (m.createGroup t).1 ni).2

theorem scheduledGroup_eq (t : Name) (ni : NamedInterval) :
    ∃ db, m.scheduledGroup t ni = ⟨(m.createGroup t).1.config, db⟩ ∧
      (db = (m.createGroup t).1.db ∨
        ∃ s, db = L.updateSchedule (m.createGroup t).1.config (m.createGroup t).1.db
          ni.name.toUri s) := by
  unfold scheduledGroup createSchedule
  dsimp only
  split
  · exact ⟨_, rfl, Or.inr ⟨_, rfl⟩⟩
  · exact ⟨_, rfl, Or.inl rfl⟩

/-- Where no schedule is noted, a grant stores its own. -/
theorem scheduledGroup_of_groupSchedules (h : m.groupSchedules = ∅) (t : Name)
    (ni : NamedInterval) :
    m.scheduledGroup t ni = ⟨(m.createGroup t).1.config,
      L.updateSchedule (m.createGroup t).1.config (m.createGroup t).1.db ni.name.toUri
        ni.schedule⟩ := by
  have hcreate : (m.createGroup t).2.groupSchedules = m.groupSchedules := by
    rw [createGroup]
    cases m.getGroup t <;> rfl
  have hnone : (m.createGroup t).2.groupSchedules[ni.name.toUri]? = none := by
    rw [hcreate, h]
    exact Std.ExtTreeMap.getElem?_empty
  rw [scheduledGroup, createSchedule]
  dsimp only
  rw [if_pos hnone]
  rfl

/-- The part of a grant after the schedule: the member is added to the stored group. -/
theorem grantAccess_eq_addGroupMember (entity t : Name) (ni : NamedInterval) :
    m.grantAccess entity t ni =
      (m.storeGroup t (m.scheduledGroup t ni)).addGroupMember t entity ni.name.toUri := by
  show ((m.createGroup t).2.storeGroup t (m.scheduledGroup t ni)).addGroupMember t entity
    ((m.createGroup t).2.createSchedule (m.createGroup t).1 ni).1 = _
  rw [storeGroup_createGroup, createSchedule_fst]

/-- Without a certificate a grant leaves the group with the schedule, and no new member. -/
theorem grantAccess_of_getIdentity_eq_none {entity : Name} (h : m.getIdentity entity = none)
    (t : Name) (ni : NamedInterval) :
    m.grantAccess entity t ni = m.storeGroup t (m.scheduledGroup t ni) := by
  have hcreate := createGroup_of_getGroup _
    (getGroup_storeGroup_self m t (m.scheduledGroup t ni))
  have hident : (m.storeGroup t (m.scheduledGroup t ni)).getIdentity entity = none := h
  rw [grantAccess_eq_addGroupMember]
  unfold addGroupMember
  rw [hcreate]
  dsimp only
  rw [hident]

/-- With a certificate, the grant adds this certificate. -/
theorem grantAccess_of_getIdentity_eq_some {entity : Name} {cert : Certificate}
    (h : m.getIdentity entity = some cert) (t : Name) (ni : NamedInterval) :
    m.grantAccess entity t ni =
      (m.storeGroup t (m.scheduledGroup t ni)).addCertificate t entity cert ni.name.toUri := by
  have hcreate := createGroup_of_getGroup _
    (getGroup_storeGroup_self m t (m.scheduledGroup t ni))
  have hident : (m.storeGroup t (m.scheduledGroup t ni)).getIdentity entity = some cert := h
  rw [grantAccess_eq_addGroupMember]
  unfold addGroupMember
  rw [hcreate]
  dsimp only
  rw [hident]

/-- **A grant stores the group.**  The group has the schedule, and when the entity has a
certificate the call has added it as a member or changed the schedule of the member. -/
theorem grantAccess_eq (entity t : Name) (ni : NamedInterval) :
    ∃ db, m.grantAccess entity t ni = m.storeGroup t ⟨(m.createGroup t).1.config, db⟩ ∧
      ((m.getIdentity entity = none ∧ db = (m.scheduledGroup t ni).db) ∨
        ∃ cert, m.getIdentity entity = some cert ∧
          (L.addMember (m.createGroup t).1.config (m.scheduledGroup t ni).db ni.name.toUri cert =
              some db ∨
            L.addMember (m.createGroup t).1.config (m.scheduledGroup t ni).db ni.name.toUri cert =
                none ∧
              db = L.updateMemberSchedule (m.createGroup t).1.config (m.scheduledGroup t ni).db
                entity ni.name.toUri)) := by
  obtain ⟨db₀, hg, -⟩ := scheduledGroup_eq m t ni
  cases hcert : m.getIdentity entity with
  | none =>
    refine ⟨db₀, ?_, Or.inl ⟨rfl, by rw [hg]⟩⟩
    rw [grantAccess_of_getIdentity_eq_none m hcert, hg]
  | some cert =>
    have hcreate := createGroup_of_getGroup _
      (getGroup_storeGroup_self m t (m.scheduledGroup t ni))
    obtain ⟨db, hadd, hdb⟩ := addCertificate_eq (m.storeGroup t (m.scheduledGroup t ni)) t entity
      cert ni.name.toUri
    rw [hcreate, hg] at hadd hdb
    rw [storeGroup_storeGroup] at hadd
    rw [grantAccess_of_getIdentity_eq_some m hcert, hg]
    exact ⟨db, hadd, Or.inr ⟨cert, rfl, hdb⟩⟩

/-! ## Members -/

/-- The members of the group of the data type; there are none without a group. -/
def membersOf (t : Name) : List Member :=
  match m.getGroup t with
  | none => []
  | some g => L.members g.db

variable {m}

theorem membersOf_of_getGroup {t : Name} {g : Group L} (h : m.getGroup t = some g) :
    m.membersOf t = L.members g.db := by
  unfold membersOf
  rw [h]

theorem membersOf_of_getGroup_eq_none {t : Name} (h : m.getGroup t = none) :
    m.membersOf t = [] := by
  unfold membersOf
  rw [h]

theorem members_createGroup (hL : L.KeepsMembers) (t : Name) :
    L.members (m.createGroup t).1.db = m.membersOf t := by
  unfold createGroup membersOf
  cases m.getGroup t with
  | none => exact hL.openDb _
  | some g => rfl

theorem members_scheduledGroup (hL : L.KeepsMembers) (t : Name) (ni : NamedInterval) :
    L.members (m.scheduledGroup t ni).db = m.membersOf t := by
  obtain ⟨db, hg, rfl | ⟨s, rfl⟩⟩ := scheduledGroup_eq m t ni
  · rw [hg, members_createGroup hL]
  · rw [hg]
    dsimp only
    rw [hL.updateSchedule, members_createGroup hL]

/-- After a grant the certificate of a member is that of an old member or the one the
entity is known by. -/
theorem certName_of_mem_membersOf_grantAccess (hL : L.KeepsMembers) {entity t : Name}
    {ni : NamedInterval} {x : Member} (hx : x ∈ (m.grantAccess entity t ni).membersOf t) :
    (∃ y ∈ m.membersOf t, y.certName = x.certName) ∨
      ∃ cert, m.getIdentity entity = some cert ∧ x.certName = cert.name := by
  obtain ⟨db, hgrant, hdb⟩ := grantAccess_eq m entity t ni
  rw [hgrant, membersOf_of_getGroup (getGroup_storeGroup_self m t _)] at hx
  rcases hdb with ⟨-, rfl⟩ | ⟨cert, hcert, hadd | ⟨-, rfl⟩⟩
  · rw [members_scheduledGroup hL] at hx
    exact Or.inl ⟨x, hx, rfl⟩
  · rcases (hL.addMember hadd x).mp hx with rfl | hx
    · exact Or.inr ⟨cert, hcert, rfl⟩
    · rw [members_scheduledGroup hL] at hx
      exact Or.inl ⟨x, hx, rfl⟩
  · have hmem := List.mem_map_of_mem (f := Member.certName) hx
    rw [hL.updateMemberSchedule, members_scheduledGroup hL] at hmem
    exact Or.inl (List.mem_map.mp hmem)

theorem membersOf_revokeAccess_self (entity t : Name) :
    (m.revokeAccess entity t).membersOf t = [] := by
  rw [revokeAccess_eq]
  exact membersOf_of_getGroup_eq_none (getGroup_deleteGroup_self m t)

/-! ## Key reads -/

variable (m)

/-- The D-KEYs among the keys of the data type: all but the first. -/
def dkeys (t : Name) (ts : TimeStamp) : List Data := (m.getGroupKeys t ts).1.tail

theorem getGroup_getGroupKeys (t t' : Name) (ts : TimeStamp) :
    (m.getGroupKeys t ts).2.getGroup t' =
      if t = t' then
        (m.getGroup t).map fun g => ⟨g.config, (L.getGroupKey g.config g.db ts false).1⟩
      else m.getGroup t' := by
  unfold getGroupKeys
  cases hg : m.getGroup t with
  | none =>
    by_cases h : t = t'
    · rw [if_pos h, ← h]
      exact hg
    · rw [if_neg h]
  | some g => exact getGroup_storeGroup m t t' _

theorem getEKey_fst (t : Name) (ts : TimeStamp) :
    (m.getEKey t ts).1 = (m.getGroupKeys t ts).1.head? := by
  unfold getEKey
  split <;> rename_i heq <;> rw [heq] <;> rfl

theorem getEKey_snd (t : Name) (ts : TimeStamp) :
    (m.getEKey t ts).2 =
      { (m.getGroupKeys t ts).2 with dkeyCache := fileDKeys m.dkeyCache (m.dkeys t ts) } := by
  have hcache : (m.getGroupKeys t ts).2.dkeyCache = m.dkeyCache := by
    unfold getGroupKeys
    cases m.getGroup t <;> rfl
  unfold getEKey dkeys
  split <;> rename_i heq <;> rw [heq] at hcache ⊢ <;> rw [← hcache] <;> rfl

theorem getGroup_getEKey (t t' : Name) (ts : TimeStamp) :
    (m.getEKey t ts).2.getGroup t' = (m.getGroupKeys t ts).2.getGroup t' := by
  rw [getEKey_snd]
  rfl

theorem getDKey_snd (t e : Name) (ts : TimeStamp) :
    (m.getDKey t e ts).2 = if m.dkeyCache[e.toUri]? = none then (m.getEKey t ts).2 else m := by
  unfold getDKey getDKeyEntry
  dsimp only
  split
  · split <;> rename_i heq <;> rw [heq]
  · rfl

/-- The entry `getDKey` hands out is one that the scan finds in the cache it leaves. -/
theorem scanCache_of_getDKeyEntry {t e : Name} {ts : TimeStamp} {entry : Bytes × Data}
    (h : (m.getDKeyEntry t e ts).1 = some entry) :
    (m.getDKeyEntry t e ts).2.scanCache e = some entry := by
  unfold getDKeyEntry at h ⊢
  split at h
  · rename_i hnone
    rw [if_pos hnone]
    split at h
    · exact absurd h (by simp)
    · exact h
  · rename_i hcached
    rw [if_neg hcached]
    exact h

/-- `getDKey` looks the entity up: at once when it is a key of the cache, else after the
keys of the data type were read, unless there are none. -/
theorem getDKey_fst (t e : Name) (ts : TimeStamp) :
    (m.getDKey t e ts).1 =
      if m.dkeyCache[e.toUri]? = none then
        if (m.getGroupKeys t ts).1 = [] then none
        else ((m.getEKey t ts).2.scanCache e).map Prod.snd
      else (m.scanCache e).map Prod.snd := by
  have hfst := getEKey_fst m t ts
  unfold getDKey getDKeyEntry
  dsimp only
  split
  · split
    · rename_i heq
      rw [heq] at hfst
      rw [if_pos (List.head?_eq_none_iff.mp hfst.symm)]
      rfl
    · rename_i heq
      rw [heq] at hfst
      rw [if_neg, heq]
      intro hnil
      rw [hnil] at hfst
      exact absurd hfst (by simp)
  · rfl

end Manager

end Nacapp
