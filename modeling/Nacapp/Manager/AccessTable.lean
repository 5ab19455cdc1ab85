import Mathlib.Data.Set.Image
import Nacapp.Lib.Histories
import Nacapp.Manager.Memberships

/-!
# What the manager is for

Under its groups, databases, schedules and cached keys the manager keeps a table: which
certificate an entity has, and who are the members of a data type.  `AccessTable` is this table
and nothing else, over functions and sets, and `AccessTable.step` says what a call means for it.
A data type without a group is told from one whose group has no members, since only the former
has no keys.

`Manager.accessTable` reads the table off a manager, and `accessTable_run` says that every run
of calls is a run of the table: reading keys means nothing to it, and no call on one data type
means anything to another.  `observations_run` says the same of what a caller sees.
-/

namespace Nacapp

open Transitions

/-! ## The table -/

/-- The certificates of the entities, and the members of the data types that have a group. -/
@[ext] structure AccessTable where
  certificate : Name → Option Certificate
  members : Name → Option (Set Member)

namespace AccessTable

/-- Nobody is known, and nothing is granted. -/
def empty : AccessTable := ⟨fun _ => none, fun _ => none⟩

open Classical in
/-- The members of a data type after a grant.  Without a certificate there is no new member; a
certificate whose identity is a member already only changes the schedule of the member that is
named like the entity. -/
noncomputable def granted (old : Set Member) (entity : Name) (scheduleName : Bytes) :
    Option Certificate → Set Member
  | none => old
  | some cert =>
    if ∃ x ∈ old, x.identity = cert.identity then
      Set.image (Member.reschedule entity scheduleName) old
    else insert ⟨cert.name, scheduleName⟩ old

/-- What a call means for the table. -/
noncomputable def step (T : AccessTable) : ManagerOp → AccessTable
  | .addIdentity entity certData =>
    (Certificate.ofData certData).elim T fun cert =>
      { T with certificate := Function.update T.certificate entity (some cert) }
  | .removeIdentity entity =>
    { T with certificate := Function.update T.certificate entity none }
  | .grantAccess entity t ni =>
    let xs := granted ((T.members t).getD ∅) entity ni.name.toUri (T.certificate entity)
    { T with members := Function.update T.members t (some xs) }
  | .revokeAccess _ t => { T with members := Function.update T.members t none }
  | .getGroupKeys _ _ | .getEKey _ _ | .getDKey _ _ _ => T

/-- The table after a run of calls. -/
noncomputable def run (T : AccessTable) (ops : List ManagerOp) : AccessTable := exec step T ops

/-- A revocation takes the data type out of the table. -/
theorem members_revokeAccess (T : AccessTable) (entity t : Name) :
    (T.step (.revokeAccess entity t)).members t = none := by
  show Function.update T.members t none t = none
  exact Function.update_self t none T.members

/-- An identity is a member of the data type. -/
def HasMember (T : AccessTable) (t identity : Name) : Prop :=
  ∃ xs, T.members t = some xs ∧ ∃ x ∈ xs, x.identity = identity

/-- A grant makes a member of the identity in the certificate, and keeps those there are. -/
theorem exists_mem_granted_iff {old : Set Member} (entity : Name) (scheduleName : Bytes)
    {certificate : Option Certificate} {identity : Name} :
    (∃ x ∈ granted old entity scheduleName certificate, x.identity = identity) ↔
      (∃ cert, certificate = some cert ∧ cert.identity = identity) ∨
        ∃ x ∈ old, x.identity = identity := by
  cases certificate with
  | none => simp [granted]
  | some cert =>
    have hcert : (∃ c, some cert = some c ∧ c.identity = identity) ↔ cert.identity = identity :=
      ⟨fun ⟨c, hc, hid⟩ => Option.some.inj hc ▸ hid, fun hid => ⟨cert, rfl, hid⟩⟩
    rw [granted, hcert]
    split
    · rename_i hmember
      simp only [Set.mem_image, exists_exists_and_eq_and, Member.identity_reschedule]
      refine ⟨Or.inr, fun h => h.elim (fun hid => ?_) id⟩
      exact hid ▸ hmember
    · simp only [Set.mem_insert_iff, or_and_right, exists_or, exists_eq_left]
      rfl

end AccessTable

/-! ## The table of a manager -/

namespace Manager

variable {L : GroupLib} {m : Manager L}

variable (m) in
/-- The table a manager keeps. -/
def accessTable : AccessTable where
  certificate := m.getIdentity
  members t := (m.getGroup t).map fun g => {x | x ∈ L.members g.db}

/-- A data type with a group has its members in the table. -/
theorem members_accessTable (t : Name) :
    (m.accessTable.members t).getD ∅ = {x | x ∈ m.membersOf t} := by
  show (((m.getGroup t).map fun g => {x | x ∈ L.members g.db}).getD ∅ : Set Member) = _
  cases hg : m.getGroup t with
  | none =>
    rw [membersOf_of_getGroup_eq_none hg]
    exact (Set.eq_empty_of_forall_notMem fun x hx => List.not_mem_nil hx).symm
  | some g =>
    rw [membersOf_of_getGroup hg]
    rfl

theorem accessTable_ofPrefix (p : Name) (keysize : ℕ) :
    (ofPrefix L p keysize).accessTable = AccessTable.empty := by
  refine AccessTable.ext (funext fun e => ?_) (funext fun t => ?_)
  · exact Std.ExtTreeMap.getElem?_empty
  · have hnone : (ofPrefix L p keysize).getGroup t = none := Std.ExtTreeMap.getElem?_empty
    show ((ofPrefix L p keysize).getGroup t).map (fun g => {x | x ∈ L.members g.db}) = none
    rw [hnone, Option.map_none]

/-- Adding or removing an identity changes one certificate. -/
theorem getIdentity_addIdentity (entity : Name) (certData : Data) :
    ((m.addIdentity entity certData).getD m).getIdentity =
      (Certificate.ofData certData).elim m.getIdentity fun cert =>
        Function.update m.getIdentity entity (some cert) := by
  rw [addIdentity]
  cases Certificate.ofData certData with
  | none => rfl
  | some cert =>
    funext e
    show Manager.getIdentity { m with identities := _ } e =
      Function.update m.getIdentity entity (some cert) e
    rw [getIdentity_insert, Function.update_apply]
    exact if_congr eq_comm rfl rfl

theorem getIdentity_removeIdentity_eq (entity : Name) :
    (m.removeIdentity entity).getIdentity = Function.update m.getIdentity entity none := by
  funext e
  rw [getIdentity_removeIdentity, Function.update_apply]
  exact if_congr eq_comm rfl rfl

/-- The members after a grant are those of the table. -/
theorem mem_membersOf_grantAccess (hK : L.KeepsMembers) (hN : L.NamesMembers) (entity t : Name)
    (ni : NamedInterval) :
    {x | x ∈ (m.grantAccess entity t ni).membersOf t} =
      AccessTable.granted {x | x ∈ m.membersOf t} entity ni.name.toUri
        (m.getIdentity entity) := by
  cases hcert : m.getIdentity entity with
  | none =>
    rw [membersOf_grantAccess_of_none hK hcert]
    rfl
  | some cert =>
    rw [AccessTable.granted]
    by_cases hmem : ∃ x ∈ m.membersOf t, x.identity = cert.identity
    · refine Eq.trans ?_ (if_pos hmem).symm
      rw [membersOf_grantAccess_of_mem hK hN hcert hmem]
      exact Set.ext fun x => List.mem_map
    · refine Eq.trans ?_ (if_neg hmem).symm
      refine Set.ext fun x => ?_
      exact (membersOf_grantAccess_of_new hK hN hcert hmem ni).mem_iff.trans List.mem_cons

/-- A grant stores a group for its data type, and for no other. -/
theorem members_accessTable_grantAccess (hK : L.KeepsMembers) (hN : L.NamesMembers)
    (entity t : Name) (ni : NamedInterval) :
    (m.grantAccess entity t ni).accessTable.members =
      (m.accessTable.step (.grantAccess entity t ni)).members := by
  obtain ⟨db, hgrant, -⟩ := grantAccess_eq m entity t ni
  funext t'
  show ((m.grantAccess entity t ni).getGroup t').map _ =
    Function.update m.accessTable.members t _ t'
  by_cases h : t' = t
  · subst h
    have hmembers := mem_membersOf_grantAccess hK hN (m := m) entity t' ni
    rw [Function.update_self, members_accessTable]
    show _ = some (AccessTable.granted _ entity ni.name.toUri (m.getIdentity entity))
    rw [← hmembers, hgrant, getGroup_storeGroup_self, membersOf_storeGroup]
    rfl
  · rw [Function.update_of_ne h, hgrant, getGroup_storeGroup_of_ne m (Ne.symm h)]
    rfl

/-- Reading keys leaves the members of every group. -/
theorem members_accessTable_getGroupKeys (hK : L.KeepsMembers) (t : Name) (ts : TimeStamp)
    {m' : Manager L} (h : ∀ t', m'.getGroup t' = (m.getGroupKeys t ts).2.getGroup t') :
    m'.accessTable.members = m.accessTable.members := by
  funext t'
  show (m'.getGroup t').map _ = (m.getGroup t').map _
  rw [h]
  rcases getGroup_getGroupKeys_cases (m := m) t' t ts with heq | ⟨g, hg, heq⟩
  · rw [heq]
  · rw [heq, hg, Option.map_some, Option.map_some, hK.getGroupKey]

/-- A revocation deletes the group of its data type, and no other. -/
theorem accessTable_deleteGroup (entity t : Name) :
    (m.deleteGroup t).accessTable = m.accessTable.step (.revokeAccess entity t) := by
  refine AccessTable.ext rfl (funext fun t' => ?_)
  show ((m.deleteGroup t).getGroup t').map _ = Function.update m.accessTable.members t none t'
  by_cases h : t' = t
  · rw [h, getGroup_deleteGroup_self, Function.update_self]
    rfl
  · rw [getGroup_deleteGroup_of_ne m (Ne.symm h), Function.update_of_ne h]
    rfl

/-- A call that sets no identity and leaves the members alone leaves the table. -/
theorem accessTable_of_members {op : ManagerOp} (h : op.setsIdentity = false)
    (hmembers : (m.step op).accessTable.members = m.accessTable.members) :
    (m.step op).accessTable = m.accessTable := by
  refine AccessTable.ext (funext fun e => ?_) hmembers
  show (m.step op).identities[e.toUri]? = m.identities[e.toUri]?
  rw [identities_step h]

/-- **A call does to the table what it means for it.** -/
theorem accessTable_step (hK : L.KeepsMembers) (hN : L.NamesMembers) (m : Manager L)
    (op : ManagerOp) : (m.step op).accessTable = m.accessTable.step op := by
  cases op with
  | addIdentity entity certData =>
    have hcerts := getIdentity_addIdentity (m := m) entity certData
    have hmembers : ((m.addIdentity entity certData).getD m).accessTable.members =
        m.accessTable.members := by
      rcases addIdentity_getD (m := m) entity certData with h | ⟨c, h⟩
      · rw [h]
      · rw [h]
        rfl
    rw [AccessTable.step]
    cases hcert : Certificate.ofData certData with
    | none =>
      rw [hcert] at hcerts
      exact AccessTable.ext hcerts hmembers
    | some cert =>
      rw [hcert] at hcerts
      exact AccessTable.ext hcerts hmembers
  | removeIdentity entity => exact AccessTable.ext (getIdentity_removeIdentity_eq entity) rfl
  | grantAccess entity t ni =>
    refine AccessTable.ext (funext fun e => ?_) (members_accessTable_grantAccess hK hN entity t ni)
    exact getIdentity_grantAccess entity t e ni
  | revokeAccess entity t =>
    have hstep : m.step (.revokeAccess entity t) = m.deleteGroup t := revokeAccess_eq m entity t
    rw [hstep]
    exact accessTable_deleteGroup entity t
  | getGroupKeys t ts =>
    exact accessTable_of_members rfl (members_accessTable_getGroupKeys hK t ts fun _ => rfl)
  | getEKey t ts =>
    refine accessTable_of_members rfl ?_
    exact members_accessTable_getGroupKeys hK t ts fun t' => getGroup_getEKey m t t' ts
  | getDKey t entity ts =>
    refine accessTable_of_members rfl ?_
    show (m.getDKey t entity ts).2.accessTable.members = m.accessTable.members
    rw [getDKey_snd]
    split
    · exact members_accessTable_getGroupKeys hK t ts fun t' => getGroup_getEKey m t t' ts
    · rfl

/-- **The manager refines the table**: what it keeps after a run of calls is what the calls mean. -/
theorem accessTable_run (hK : L.KeepsMembers) (hN : L.NamesMembers) (p : Name) (keysize : ℕ)
    (ops : List ManagerOp) :
    ((ofPrefix L p keysize).run ops).accessTable = AccessTable.empty.run ops := by
  have hsim : Simulation step (fun _ _ => ([] : List Unit)) AccessTable.step (fun _ _ => [])
      (accessTable (L := L)) (fun _ op => op) (fun _ => True) (fun _ _ => True) :=
    ⟨fun _ _ _ _ => trivial, fun m op _ _ => accessTable_step hK hN m op, fun _ _ _ _ => rfl⟩
  have hrun := (hsim.run (s := ofPrefix L p keysize) trivial (stepsMeet_true _ ops)).1
  rwa [translated_eq_map, List.map_id', accessTable_ofPrefix] at hrun

/-- An E-KEY is handed out by the group of the data type. -/
theorem isSome_getGroup_of_getEKey {t : Name} {ts : TimeStamp} {ekey : Data}
    (h : (m.getEKey t ts).1 = some ekey) : (m.getGroup t).isSome := by
  unfold getEKey getGroupKeys at h
  cases hg : m.getGroup t with
  | none =>
    rw [hg] at h
    exact absurd h (by simp)
  | some g => rfl

/-- **What is seen of a manager is its table**: after every run of calls the certificates are those
of the table, the members of a data type are those of the table, and the data types that have a
group are those in the table; for the others there is no E-KEY. -/
theorem observations_run (hK : L.KeepsMembers) (hN : L.NamesMembers) (p : Name) (keysize : ℕ)
    (ops : List ManagerOp) :
    let m := (ofPrefix L p keysize).run ops
    let T := AccessTable.empty.run ops
    (∀ e, m.getIdentity e = T.certificate e) ∧
      (∀ t x, x ∈ m.membersOf t ↔ ∃ xs, T.members t = some xs ∧ x ∈ xs) ∧
      (∀ t, (m.getGroup t).isSome ↔ (T.members t).isSome) ∧
      ∀ t ts, (m.getEKey t ts).1.isSome → (T.members t).isSome := by
  intro m T
  have hT : m.accessTable = T := accessTable_run hK hN p keysize ops
  have hgroup (t : Name) : (m.getGroup t).isSome ↔ (T.members t).isSome := by
    rw [← hT]
    show _ ↔ ((m.getGroup t).map _).isSome = true
    rw [Option.isSome_map]
  refine ⟨fun e => ?_, fun t x => ?_, hgroup, fun t ts hekey => ?_⟩
  · rw [← hT]
    rfl
  · rw [← hT]
    show _ ↔ ∃ xs, (m.getGroup t).map _ = some xs ∧ x ∈ xs
    cases hg : m.getGroup t with
    | none => simp [membersOf_of_getGroup_eq_none hg]
    | some g => simp [membersOf_of_getGroup hg]
  · obtain ⟨ekey, hekey⟩ := Option.isSome_iff_exists.mp hekey
    exact (hgroup t).mp (isSome_getGroup_of_getEKey hekey)

/-- Granted, read and revoked, a data type has no members and no E-KEY. -/
theorem observations_after_revocation :
    let m := (ofPrefix memoryGroups [Component.of "manager"] 2048).run
      [.grantAccess [Component.of "alice"] [Component.of "health"] (dailyFrom "everyday"),
        .getEKey [Component.of "health"] ⟨⟨2017, 7, 3⟩, 0⟩,
        .revokeAccess [Component.of "alice"] [Component.of "health"]]
    m.membersOf [Component.of "health"] = [] ∧
      (m.getEKey [Component.of "health"] ⟨⟨2017, 7, 3⟩, 0⟩).1.isSome = false := by
  intro m
  obtain ⟨-, hmembers, -, hekey⟩ := observations_run memoryGroups_keepsMembers
    memoryGroups_namesMembers [Component.of "manager"] 2048
    [.grantAccess [Component.of "alice"] [Component.of "health"] (dailyFrom "everyday"),
      .getEKey [Component.of "health"] ⟨⟨2017, 7, 3⟩, 0⟩,
      .revokeAccess [Component.of "alice"] [Component.of "health"]]
  have hnone := AccessTable.members_revokeAccess (AccessTable.empty.run
    [.grantAccess [Component.of "alice"] [Component.of "health"] (dailyFrom "everyday"),
      .getEKey [Component.of "health"] ⟨⟨2017, 7, 3⟩, 0⟩]) [Component.of "alice"]
    [Component.of "health"]
  refine ⟨List.eq_nil_iff_forall_not_mem.mpr fun x hx => ?_, Bool.eq_false_iff.mpr fun h => ?_⟩
  · obtain ⟨xs, hxs, -⟩ := (hmembers _ x).mp hx
    exact absurd (hnone.symm.trans hxs) (by simp)
  · exact absurd ((congrArg Option.isSome hnone).symm.trans (hekey _ _ h)) (by simp)

end Manager
end Nacapp
