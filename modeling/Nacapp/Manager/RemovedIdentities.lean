import Nacapp.Manager.Provenance

/-!
# Removed identities

`Manager::removeIdentity` erases the certificate of an entity and leaves the groups alone; that
the accesses of the entity should be revoked is left to its comment.  A member of a group does
not say whom it was added for: it has the identity inside a certificate, which may have been
filed under any name.  So whom a member stands for is told by the run.

* `GrantedTo`: the entity was granted the data type while it was known by a certificate of this
  identity, and the data type was not revoked since.
* `MembersCertified`: whoever a member of a group stands for has a certificate.
* `RemovedLoseAccess`: so it is in every state of the run, and after the removal of an entity no
  group makes a key for it until it is added and granted again.
* `removedLoseAccess_iff`: this holds exactly when no entity is removed that still has access.
-/

namespace Nacapp

open Transitions

namespace Manager

variable {L : GroupLib} {m : Manager L}

/-! ## The groups are those of the data types -/

variable (m) in
/-- Every group is filed under the full name of a data type. -/
def GroupsNamed : Prop :=
  ∀ k, k ∈ m.groups → ∃ t, k = getGroupFullName m.managerPrefix t

theorem groupsNamed_storeGroup (h : m.GroupsNamed) (t : Name) (g : Group L) :
    (m.storeGroup t g).GroupsNamed := by
  intro k hk
  rcases Std.ExtTreeMap.mem_insert.mp hk with heq | hk
  · exact ⟨t, (Std.LawfulEqCmp.compare_eq_iff_eq.mp heq).symm⟩
  · exact h k hk

theorem groupsNamed_getGroupKeys (h : m.GroupsNamed) (t : Name) (ts : TimeStamp) :
    (m.getGroupKeys t ts).2.GroupsNamed := by
  rw [getGroupKeys]
  cases m.getGroup t with
  | none => exact h
  | some g => exact groupsNamed_storeGroup h t _

theorem groupsNamed_getEKey (h : m.GroupsNamed) (t : Name) (ts : TimeStamp) :
    (m.getEKey t ts).2.GroupsNamed := by
  rw [getEKey_snd]
  exact groupsNamed_getGroupKeys h t ts

theorem groupsNamed_step (h : m.GroupsNamed) (op : ManagerOp) : (m.step op).GroupsNamed := by
  cases op with
  | addIdentity entity cert =>
    show ((m.addIdentity entity cert).getD m).GroupsNamed
    rcases addIdentity_getD (m := m) entity cert with heq | ⟨c, heq⟩
    · rwa [heq]
    · rw [heq]
      exact h
  | removeIdentity identity => exact h
  | grantAccess entity t ni =>
    obtain ⟨db, hgrant, -⟩ := grantAccess_eq m entity t ni
    show (m.grantAccess entity t ni).GroupsNamed
    rw [hgrant]
    exact groupsNamed_storeGroup h t _
  | revokeAccess entity t =>
    show (m.revokeAccess entity t).GroupsNamed
    rw [revokeAccess_eq]
    exact fun k hk => h k (Std.ExtTreeMap.mem_of_mem_erase hk)
  | getGroupKeys t ts => exact groupsNamed_getGroupKeys h t ts
  | getEKey t ts => exact groupsNamed_getEKey h t ts
  | getDKey t entity ts =>
    show (m.getDKey t entity ts).2.GroupsNamed
    rw [getDKey_snd]
    split
    · exact groupsNamed_getEKey h t ts
    · exact h

theorem groupsNamed_run (p : Name) (keysize : ℕ) (ops : List ManagerOp) :
    ((ofPrefix L p keysize).run ops).GroupsNamed :=
  invariant (I := GroupsNamed) (fun op _ _ h => groupsNamed_step h op)
    fun _ hk => absurd hk Std.ExtTreeMap.not_mem_empty

theorem managerPrefix_run (m : Manager L) (ops : List ManagerOp) :
    (m.run ops).managerPrefix = m.managerPrefix :=
  invariant (I := fun m' : Manager L => m'.managerPrefix = m.managerPrefix)
    (fun op _ _ h => (congrArg GroupConfig.managerPrefix (groupConfig_step op [])).trans h) rfl

/-! ## Whom a member stands for -/

/-- The call grants the data type to the entity, which has a certificate of the identity. -/
def GrantsTo (t e identity : Name) (m : Manager L) (op : ManagerOp) : Prop :=
  ∃ ni cert, op = .grantAccess e t ni ∧ m.getIdentity e = some cert ∧ cert.identity = identity

/-- **The member of this identity stands for the entity**: the entity was granted the data type
while it had a certificate of the identity, and the data type was not revoked since. -/
def GrantedTo (m : Manager L) (ops : List ManagerOp) (t e identity : Name) : Prop :=
  Since step (GrantsTo t e identity) (fun _ op => op.revokes t = false) m ops

/-- Every member stands for somebody, and whoever has access to a data type has a member there. -/
theorem exists_member_iff_grantedTo (hK : L.KeepsMembers) (hN : L.NamesMembers) (p : Name)
    (keysize : ℕ) (ops : List ManagerOp) (t identity : Name) :
    (∃ x ∈ ((ofPrefix L p keysize).run ops).membersOf t, x.identity = identity) ↔
      ∃ e, (ofPrefix L p keysize).GrantedTo ops t e identity := by
  rw [exists_member_iff_granted hK hN]
  constructor
  · rintro ⟨before, e, ni, after, heq, ⟨cert, hcert, hid⟩, hkept⟩
    exact ⟨e, before, _, after, heq, ⟨ni, cert, rfl, hcert, hid⟩, stepsMeet_inputs.mpr hkept⟩
  · rintro ⟨e, before, op, after, heq, ⟨ni, cert, rfl, hcert, hid⟩, hkept⟩
    exact ⟨before, e, ni, after, heq, ⟨cert, hcert, hid⟩, stepsMeet_inputs.mp hkept⟩

/-- A call brings it about by granting, and leaves it unless it revokes. -/
theorem grantedTo_append_singleton {ops : List ManagerOp} {op : ManagerOp} {t e identity : Name} :
    m.GrantedTo (ops ++ [op]) t e identity ↔
      GrantsTo t e identity (m.run ops) op ∨
        m.GrantedTo ops t e identity ∧ op.revokes t = false :=
  since_append_singleton

/-! ## Removals -/

variable (m) in
/-- In the state after the calls, every group is that of a data type, and whoever a member of it
stands for has a certificate. -/
def MembersCertified (ops : List ManagerOp) : Prop :=
  ∀ (k : Bytes) (g : Group L), (m.run ops).groups[k]? = some g →
    ∃ t, k = getGroupFullName m.managerPrefix t ∧
      ∀ x ∈ L.members g.db, (∃ e, m.GrantedTo ops t e x.identity) ∧
        ∀ e, m.GrantedTo ops t e x.identity → ((m.run ops).getIdentity e).isSome

/-- The entity is added, and granted some data type afterwards. -/
def AddedAndGranted (e : Name) (ops : List ManagerOp) : Prop :=
  ∃ before, ∃ cert : Certificate, ∃ between t ni after,
    ops = before ++ .addIdentity e cert.data :: between ++ .grantAccess e t ni :: after

variable (m) in
/-- **Removed identities keep no access.**  In every state of the run the members of the groups
stand for entities with a certificate; and after the removal of an entity, until it is added and
granted again, every D-KEY a group makes is for a member that does not stand for it. -/
structure RemovedLoseAccess (ops : List ManagerOp) : Prop where
  members : ∀ pre, pre <+: ops → m.MembersCertified pre
  keys : ∀ pre e post, pre ++ .removeIdentity e :: post <+: ops → ¬ AddedAndGranted e post →
    ∀ t ts, ∀ d ∈ (m.run (pre ++ .removeIdentity e :: post)).dkeys t ts,
      ∃ x, (m.run (pre ++ .removeIdentity e :: post)).Issued t ts x d ∧
        ¬ m.GrantedTo (pre ++ .removeIdentity e :: post) t e x.identity

variable (m) in
/-- An entity is removed only after every data type that was granted to it, while it had a
certificate, was revoked. -/
def RevokedBeforeRemoval (ops : List ManagerOp) : Prop :=
  ∀ pre e post, ops = pre ++ .removeIdentity e :: post → ∀ t identity,
    ¬ m.GrantedTo pre t e identity

theorem RevokedBeforeRemoval.of_prefix {pre ops : List ManagerOp}
    (h : m.RevokedBeforeRemoval ops) (hpre : pre <+: ops) : m.RevokedBeforeRemoval pre := by
  obtain ⟨rest, rfl⟩ := hpre
  rintro before e post rfl
  exact h before e (post ++ rest) (by simp)

/-- **Whoever has access keeps a certificate**, if nobody is removed who has access. -/
theorem RevokedBeforeRemoval.getIdentity_isSome {ops : List ManagerOp}
    (h : m.RevokedBeforeRemoval ops) {t e identity : Name} (hg : m.GrantedTo ops t e identity) :
    ((m.run ops).getIdentity e).isSome := by
  induction ops using List.reverseRecOn with
  | nil => exact absurd hg (not_since_nil m)
  | append_singleton ops op ih =>
    have hrun : m.run (ops ++ [op]) = (m.run ops).step op := exec_append step m ops [op]
    rw [hrun, getIdentity_step]
    rcases grantedTo_append_singleton.mp hg with ⟨ni, cert, rfl, hcert, -⟩ | ⟨hold, -⟩
    · show ((m.run ops).getIdentity e).isSome
      rw [hcert]
      rfl
    · cases hw : op.writesIdentity e with
      | none => exact ih (h.of_prefix (List.prefix_append ops [op])) hold
      | some written =>
        cases written with
        | some cert => rfl
        | none =>
          -- the call removes the entity, which has access still
          rw [ManagerOp.writesIdentity_eq_some_none_iff.mp hw] at h
          exact absurd hold (h ops e [] rfl t identity)

/-- An entity that is removed without access has none until it is added and granted again. -/
theorem not_grantedTo_of_removed {pre post : List ManagerOp} {t e identity : Name}
    (h : ¬ m.GrantedTo pre t e identity) (hagain : ¬ AddedAndGranted e post) :
    ¬ m.GrantedTo (pre ++ .removeIdentity e :: post) t e identity := by
  induction post using List.reverseRecOn with
  | nil =>
    rw [grantedTo_append_singleton]
    rintro (⟨ni, cert, heq, -⟩ | ⟨hold, -⟩)
    · exact ManagerOp.noConfusion heq
    · exact h hold
  | append_singleton post op ih =>
    rw [← List.cons_append, ← List.append_assoc, grantedTo_append_singleton]
    rintro (⟨ni, cert, rfl, hcert, -⟩ | ⟨hold, -⟩)
    · -- the last call that wrote a certificate for the entity came after the removal
      have hrun : m.run (pre ++ .removeIdentity e :: post) =
          ((m.run pre).removeIdentity e).run post := exec_append step m pre _
      have hnone : ((m.run pre).removeIdentity e).getIdentity e = none := by
        rw [getIdentity_removeIdentity, if_pos rfl]
      rw [hrun, run, exec_eq_lastWrite (f := fun m : Manager L => m.getIdentity e)
        (fun m op => getIdentity_step m op e), hnone] at hcert
      rcases lastWrite_eq_iff.mp hcert with
        ⟨before, op, between, rfl, hwrites, -⟩ | ⟨-, habsurd⟩
      · rw [ManagerOp.writesIdentity_eq_some_iff.mp hwrites] at hagain
        exact hagain ⟨before, cert, between, t, ni, [], by simp⟩
      · exact absurd habsurd (by simp)
    · refine ih (fun hpost => hagain ?_) hold
      obtain ⟨before, cert, between, t', ni, after, rfl⟩ := hpost
      exact ⟨before, cert, between, t', ni, after ++ [op], by simp⟩

/-- Where nobody is removed who has access, whoever a member stands for has a certificate. -/
theorem RevokedBeforeRemoval.membersCertified (hK : L.KeepsMembers) (hN : L.NamesMembers)
    {p : Name} {keysize : ℕ} {ops : List ManagerOp}
    (h : (ofPrefix L p keysize).RevokedBeforeRemoval ops) :
    (ofPrefix L p keysize).MembersCertified ops := by
  intro k g hg
  have hmem : k ∈ ((ofPrefix L p keysize).run ops).groups :=
    Std.ExtTreeMap.mem_iff_isSome_getElem?.mpr (by rw [hg]; rfl)
  obtain ⟨t, hk⟩ := groupsNamed_run p keysize ops k hmem
  rw [managerPrefix_run] at hk
  refine ⟨t, hk, fun x hx => ⟨?_, fun e he => h.getIdentity_isSome he⟩⟩
  have hgroup : ((ofPrefix L p keysize).run ops).getGroup t = some g := by
    rw [getGroup, managerPrefix_run, ← hk]
    exact hg
  exact (exists_member_iff_grantedTo hK hN p keysize ops t x.identity).mp
    ⟨x, by rwa [membersOf_of_getGroup hgroup], rfl⟩

/-- An entity that is removed with access leaves a member without a certificate. -/
theorem not_membersCertified_of_removed (hK : L.KeepsMembers) (hN : L.NamesMembers) {p : Name}
    {keysize : ℕ} {pre : List ManagerOp} {t e identity : Name}
    (h : (ofPrefix L p keysize).GrantedTo pre t e identity) :
    ¬ (ofPrefix L p keysize).MembersCertified (pre ++ [.removeIdentity e]) := by
  intro hcert
  have hstill : (ofPrefix L p keysize).GrantedTo (pre ++ [.removeIdentity e]) t e identity :=
    grantedTo_append_singleton.mpr (Or.inr ⟨h, rfl⟩)
  obtain ⟨x, hx, rfl⟩ :=
    (exists_member_iff_grantedTo hK hN p keysize (pre ++ [.removeIdentity e]) t identity).mpr
      ⟨e, hstill⟩
  have hnone : ((ofPrefix L p keysize).run (pre ++ [.removeIdentity e])).getIdentity e = none := by
    have hrun : (ofPrefix L p keysize).run (pre ++ [.removeIdentity e]) =
        ((ofPrefix L p keysize).run pre).removeIdentity e := exec_append step _ pre _
    rw [hrun, getIdentity_removeIdentity, if_pos rfl]
  cases hg : ((ofPrefix L p keysize).run (pre ++ [.removeIdentity e])).getGroup t with
  | none =>
    rw [membersOf_of_getGroup_eq_none hg] at hx
    exact absurd hx List.not_mem_nil
  | some g =>
    obtain ⟨t', ht', hmembers⟩ := hcert _ g hg
    rw [managerPrefix_run, getGroupFullName_inj] at ht'
    rw [membersOf_of_getGroup hg] at hx
    subst ht'
    have hsome := (hmembers x hx).2 e hstill
    rw [hnone] at hsome
    exact Bool.noConfusion hsome

/-- **Removed identities keep no access** exactly when an entity is removed only after every data
type that was granted to it, while it had a certificate, was revoked. -/
theorem removedLoseAccess_iff (hK : L.KeepsMembers) (hN : L.NamesMembers)
    (hF : L.KeysForMembers) (p : Name) (keysize : ℕ) (ops : List ManagerOp) :
    (ofPrefix L p keysize).RemovedLoseAccess ops ↔
      (ofPrefix L p keysize).RevokedBeforeRemoval ops := by
  constructor
  · rintro h pre e post rfl t identity hgranted
    have hprefix : pre ++ [.removeIdentity e] <+: pre ++ .removeIdentity e :: post :=
      ⟨post, by simp⟩
    exact not_membersCertified_of_removed hK hN hgranted (h.members _ hprefix)
  · intro h
    refine ⟨fun pre hpre => (h.of_prefix hpre).membersCertified hK hN, ?_⟩
    intro pre e post hprefix hagain t ts d hd
    obtain ⟨x, hissued⟩ :=
      exists_issued_of_mem_dkeys hF (sound_run (sound_ofPrefix p keysize) _) hd
    have hbefore := (h.of_prefix hprefix) pre e post rfl t x.identity
    exact ⟨x, hissued, not_grantedTo_of_removed hbefore hagain⟩

/-- The name of the certificate of `/alice`, which is an entity of its own here. -/
def aliceCertName : Name := (Certificate.issued [Component.of "alice"]).name

def aliceAndBobAdded : List ManagerOp :=
  [.addIdentity aliceCertName (Certificate.issued [Component.of "alice"]),
    .addIdentity [Component.of "bob"] (Certificate.issued [Component.of "bob"])]

/-- The calls before a removal: `health` is granted and revoked. -/
def grantedAndRevoked : List ManagerOp :=
  aliceAndBobAdded ++ .grantAccess aliceCertName [Component.of "health"] (dailyFrom "everyday") ::
    [.revokeAccess aliceCertName [Component.of "health"]]

/-- The calls after it: somebody else is granted the data type, and its keys are read. -/
def grantedToBob : List ManagerOp :=
  [.grantAccess [Component.of "bob"] [Component.of "health"] (dailyFrom "everyday"),
    .getEKey [Component.of "health"] ⟨⟨2017, 7, 3⟩, 0⟩]

/-- An entity that is removed after a revocation leaves no member, and no key is made for it. -/
theorem removed_after_revocation :
    (ofPrefix memoryGroups [Component.of "manager"] 2048).RemovedLoseAccess
      (grantedAndRevoked ++ .removeIdentity aliceCertName :: grantedToBob) := by
  refine (removedLoseAccess_iff memoryGroups_keepsMembers memoryGroups_namesMembers
    memoryGroups_keysForMembers [Component.of "manager"] 2048 _).mpr ?_
  rintro pre e post heq t identity hgranted
  obtain ⟨rfl, -, -⟩ := (List.append_cons_inj_of_notMem
    (by simp [grantedAndRevoked, aliceAndBobAdded]) (by simp [grantedToBob])).mp heq
  obtain ⟨before, op, after, hops, ⟨ni, cert, rfl, -⟩, hkept⟩ := hgranted
  rw [grantedAndRevoked] at hops
  obtain ⟨-, hgrant, rfl⟩ := (List.append_cons_inj_of_notMem (by simp [aliceAndBobAdded])
    (by simp)).mp hops
  obtain ⟨-, rfl, -⟩ := ManagerOp.grantAccess.inj hgrant
  exact absurd (stepsMeet_inputs.mp hkept _ List.mem_cons_self) (by decide)

/-- Removed without a revocation, `/alice` stays a member of `health`. -/
theorem not_removed_before_revocation :
    ¬ (ofPrefix memoryGroups [Component.of "manager"] 2048).RemovedLoseAccess
      [.addIdentity [Component.of "alice"] (Certificate.issued [Component.of "alice"]),
        .grantAccess [Component.of "alice"] [Component.of "health"] (dailyFrom "everyday"),
        .removeIdentity [Component.of "alice"]] := by
  intro h
  have hgranted : (ofPrefix memoryGroups [Component.of "manager"] 2048).GrantedTo
      [.addIdentity [Component.of "alice"] (Certificate.issued [Component.of "alice"]),
        .grantAccess [Component.of "alice"] [Component.of "health"] (dailyFrom "everyday")]
      [Component.of "health"] [Component.of "alice"] [Component.of "alice"] :=
    ⟨[_], _, [], rfl, ⟨dailyFrom "everyday",
      ⟨Certificate.issued [Component.of "alice"], by decide⟩, rfl, by decide +kernel,
        by decide⟩, trivial⟩
  exact not_membersCertified_of_removed memoryGroups_keepsMembers memoryGroups_namesMembers
    hgranted (h.members _ List.prefix_rfl)

end Manager
end Nacapp
