import Nacapp.Manager.AccessTimes

/-!
# Refused grants

A grant to an entity without a certificate is refused, in the last of its three steps: the
group of the data type is made and the schedule stored before `addGroupMember` looks for the
certificate.  Members, identities and cached keys stay as they are (`refusedGrant_keeps`), but
the group and its schedule are there afterwards.

`refusedGrant_unchanged_iff` says when a refused grant changes nothing at all: where the same
schedule is stored under its name already.  What the library stores is a `ScheduleView` of it.
-/

namespace Nacapp
namespace Manager

variable {L : GroupLib} {m : Manager L} {V : ScheduleView L}

/-! ## What the first two steps leave -/

/-- `m_group_schedules` stays empty, so no schedule is ever taken for one that exists. -/
theorem groupSchedules_run (p : Name) (keysize : ℕ) (ops : List ManagerOp) :
    ((ofPrefix L p keysize).run ops).groupSchedules = ∅ :=
  Transitions.invariant (I := fun m : Manager L => m.groupSchedules = ∅)
    (fun op _ m hm => (groupSchedules_step (m := m) op).trans hm) rfl

/-- Storing a group changes nothing exactly when it is the group that is stored. -/
theorem storeGroup_eq_self_iff {t : Name} {g : Group L} :
    m.storeGroup t g = m ↔ m.getGroup t = some g := by
  constructor
  · intro h
    have hget := getGroup_storeGroup_self m t g
    rwa [h] at hget
  · intro h
    have hgroups : m.groups.insert (getGroupFullName m.managerPrefix t) g = m.groups := by
      refine Std.ExtTreeMap.ext_getElem? fun k => ?_
      rw [Std.ExtTreeMap.getElem?_insert]
      split
      · rename_i hk
        rw [← Std.LawfulEqCmp.compare_eq_iff_eq.mp hk]
        exact h.symm
      · rfl
    rw [storeGroup, hgroups]

/-! ## Refused grants -/

/-- A refused grant leaves members, identities and cached keys as they were. -/
theorem refusedGrant_keeps (hL : L.KeepsMembers) {entity : Name}
    (h : m.getIdentity entity = none) (t t' : Name) (ni : NamedInterval) :
    (m.grantAccess entity t ni).membersOf t' = m.membersOf t' ∧
      (m.grantAccess entity t ni).identities = m.identities ∧
      (m.grantAccess entity t ni).dkeyCache = m.dkeyCache := by
  rw [grantAccess_of_getIdentity_eq_none m h]
  refine ⟨?_, rfl, rfl⟩
  by_cases ht : t = t'
  · rw [← ht, membersOf_of_getGroup (getGroup_storeGroup_self m t _), members_scheduledGroup hL]
  · rw [membersOf, getGroup_storeGroup_of_ne m ht, membersOf]

/-- The schedule of a data type under a name is the one stored in its group. -/
theorem scheduleNamed_eq_some_iff {t : Name} {n : Bytes} {s : Schedule} :
    V.scheduleNamed m t n = some s ↔ ∃ g, m.getGroup t = some g ∧ V.scheduleOf g.db n = some s :=
  Option.bind_eq_some_iff

/-- Storing a schedule changes nothing exactly when it is the one that the name has. -/
theorem ScheduleView.updateSchedule_eq_self_iff (hV : V.StoresByName) (hS : V.KeepsStored)
    {c : GroupConfig} {db : L.Db} {n : Bytes} {s : Schedule} :
    L.updateSchedule c db n s = db ↔ V.scheduleOf db n = some s := by
  constructor
  · intro h
    rw [← h, hV.updateSchedule, if_pos rfl]
  · exact hS c db n s

/-- **A refused grant changes nothing** exactly when the data type has a group with the schedule
of the grant under its name; and whether there is a group is the same before and after exactly
when there was one.  In every state a run reaches. -/
theorem refusedGrant_unchanged_iff (hV : V.StoresByName) (hS : V.KeepsStored) (p : Name)
    (keysize : ℕ) (ops : List ManagerOp) {entity : Name}
    (h : ((ofPrefix L p keysize).run ops).getIdentity entity = none) (t : Name)
    (ni : NamedInterval) :
    let m := (ofPrefix L p keysize).run ops
    (m.grantAccess entity t ni = m ↔
        V.scheduleNamed m t ni.name.toUri = some ni.schedule) ∧
      (((m.grantAccess entity t ni).getGroup t = none ↔ m.getGroup t = none) ↔
        m.getGroup t ≠ none) := by
  intro m
  have hschedule := scheduledGroup_of_groupSchedules m (groupSchedules_run p keysize ops) t ni
  rw [grantAccess_of_getIdentity_eq_none m h, storeGroup_eq_self_iff, getGroup_storeGroup_self,
    scheduleNamed_eq_some_iff]
  refine ⟨?_, by simp⟩
  cases hg : m.getGroup t with
  | none =>
    refine iff_of_false (by simp) ?_
    rintro ⟨g, hsome, -⟩
    exact absurd hsome (by simp)
  | some g =>
    rw [hschedule, createGroup_of_getGroup m hg, Option.some_inj]
    constructor
    · intro heq
      have hdb : g.db = L.updateSchedule g.config g.db ni.name.toUri ni.schedule :=
        congrArg Group.db heq
      exact ⟨g, rfl, (ScheduleView.updateSchedule_eq_self_iff hV hS).mp hdb.symm⟩
    · rintro ⟨g', hg', hstored⟩
      obtain rfl := Option.some.inj hg'
      rw [(ScheduleView.updateSchedule_eq_self_iff hV hS).mpr hstored]

/-- An interval for concrete grants. -/
def julyInterval : NamedInterval := defaultSchedule ⟨⟨2017, 7, 3⟩, 0⟩

/-- A grant that is refused a second time changes nothing, also behind another schedule. -/
theorem refusedGrant_repeated :
    let m := (ofPrefix memoryGroups [Component.of "manager"] 2048).run
      [.grantAccess [Component.of "bob"] [Component.of "health"] julyInterval,
        .grantAccess [Component.of "bob"] [Component.of "health"] (dailyFrom "weekdays")]
    m.grantAccess [Component.of "bob"] [Component.of "health"] julyInterval = m :=
  (refusedGrant_unchanged_iff memorySchedules_storesByName memorySchedules_keepsStored
    [Component.of "manager"] 2048
    [.grantAccess [Component.of "bob"] [Component.of "health"] julyInterval,
      .grantAccess [Component.of "bob"] [Component.of "health"] (dailyFrom "weekdays")]
    (by decide +kernel) [Component.of "health"] julyInterval).1.mpr (by decide +kernel)

/-- A refused grant of a data type that nobody was granted leaves a group. -/
theorem refusedGrant_makes_group :
    ¬ ∀ L : GroupLib, L.KeepsMembers → ∀ (p : Name) (keysize : ℕ) (ops : List ManagerOp)
      (entity t : Name) (ni : NamedInterval),
      let m := (ofPrefix L p keysize).run ops
      m.getIdentity entity = none →
        m.grantAccess entity t ni = m ∧
          ((m.grantAccess entity t ni).getGroup t = none ↔ m.getGroup t = none) := by
  intro h
  have hnone : (ofPrefix memoryGroups [Component.of "manager"] 2048).getIdentity
      [Component.of "bob"] = none := Std.ExtTreeMap.getElem?_empty
  have hgroup : (ofPrefix memoryGroups [Component.of "manager"] 2048).getGroup
      [Component.of "health"] = none := Std.ExtTreeMap.getElem?_empty
  have hsame := h memoryGroups memoryGroups_keepsMembers [Component.of "manager"] 2048 []
    [Component.of "bob"] [Component.of "health"] julyInterval hnone
  have hgone := hsame.2.mpr hgroup
  rw [show (ofPrefix memoryGroups [Component.of "manager"] 2048).run [] =
      ofPrefix memoryGroups [Component.of "manager"] 2048 from rfl,
    grantAccess_of_getIdentity_eq_none _ hnone, getGroup_storeGroup_self] at hgone
  exact absurd hgone (by simp)

end Manager
end Nacapp
