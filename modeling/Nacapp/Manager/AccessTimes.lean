import Mathlib.Data.Set.Basic
import Nacapp.Manager.Memberships

/-!
# When a member may read

A member of a group reads at the times of the schedule its membership names, and the
schedules of a group are stored by name.  `createSchedule` is documented as creating a
schedule only when there is none of that name, and asks `m_group_schedules`, which nothing
fills.  So every grant stores its schedule anew, under a name that other members of the
group may have too, and the default grants all use one name.

* `ScheduleView`: the schedules in the database of a group and the times they cover, which
  are not part of the repository.
* `accessTimes`: the times at which an entity may read a data type.
* `accessTimes_unchanged_iff`: which grants to somebody else leave them alone.
-/

namespace Nacapp

/-! ## Schedules in a group -/

/-- What is read off the database of a group about schedules: the one of a name, and the
times it covers. -/
structure ScheduleView (L : GroupLib) where
  scheduleOf : L.Db → Bytes → Option Schedule
  covers : Schedule → TimeStamp → Prop

namespace ScheduleView

variable {L : GroupLib} (V : ScheduleView L)

/-- What the calls of a grant do to the schedules: `updateSchedule` inserts or overwrites the
schedule of that name, and the others leave them alone. -/
structure StoresByName : Prop where
  openDb : ∀ c n, V.scheduleOf (L.openDb c) n = none
  updateSchedule : ∀ c db n s n',
    V.scheduleOf (L.updateSchedule c db n s) n' = if n = n' then some s else V.scheduleOf db n'
  addMember : ∀ {c db s cert db'}, L.addMember c db s cert = some db' → ∀ n,
    V.scheduleOf db' n = V.scheduleOf db n
  updateMemberSchedule : ∀ c db m s n,
    V.scheduleOf (L.updateMemberSchedule c db m s) n = V.scheduleOf db n

/-- Storing the schedule that a name has already leaves the database as it is. -/
def KeepsStored : Prop :=
  ∀ c db n s, V.scheduleOf db n = some s → L.updateSchedule c db n s = db

/-- The times a schedule covers; none without a schedule. -/
def times (schedule : Option Schedule) : Set TimeStamp := {ts | ∃ s ∈ schedule, V.covers s ts}

/-- The schedule of this name in the group of the data type. -/
def scheduleNamed (m : Manager L) (t : Name) (n : Bytes) : Option Schedule :=
  (m.getGroup t).bind fun g => V.scheduleOf g.db n

/-- **The times at which an entity may read a data type**: those of the schedules its
memberships name. -/
def accessTimes (m : Manager L) (entity t : Name) : Set TimeStamp :=
  {ts | ∃ x ∈ m.membershipsOf t entity, ts ∈ V.times (V.scheduleNamed m t x.scheduleName)}

end ScheduleView

namespace Manager

variable {L : GroupLib} {m : Manager L} {V : ScheduleView L}

/-! ## The schedules after a grant -/

/-- The group of a grant has the schedule of the grant under its name, whatever was there. -/
theorem scheduleOf_scheduledGroup (hV : V.StoresByName) (hempty : m.groupSchedules = ∅) (t : Name)
    (ni : NamedInterval) (n : Bytes) :
    V.scheduleOf (m.scheduledGroup t ni).db n =
      if ni.name.toUri = n then some ni.schedule else V.scheduleNamed m t n := by
  have hdb : V.scheduleOf (m.createGroup t).1.db n = V.scheduleNamed m t n := by
    unfold createGroup ScheduleView.scheduleNamed
    cases m.getGroup t with
    | none => exact hV.openDb _ _
    | some g => rfl
  rw [scheduledGroup_of_groupSchedules m hempty, hV.updateSchedule, hdb]

theorem scheduleNamed_grantAccess (hV : V.StoresByName) (hempty : m.groupSchedules = ∅)
    (entity t : Name) (ni : NamedInterval) (n : Bytes) :
    V.scheduleNamed (m.grantAccess entity t ni) t n =
      if ni.name.toUri = n then some ni.schedule else V.scheduleNamed m t n := by
  rw [← scheduleOf_scheduledGroup hV hempty]
  obtain ⟨db, hgrant, hdb⟩ := grantAccess_eq m entity t ni
  rw [ScheduleView.scheduleNamed, hgrant, getGroup_storeGroup_self]
  show V.scheduleOf db n = _
  rcases hdb with ⟨-, rfl⟩ | ⟨cert, -, hadd | ⟨-, rfl⟩⟩
  · rfl
  · exact hV.addMember hadd n
  · exact hV.updateMemberSchedule _ _ _ _ _

/-! ## The memberships of somebody else -/

/-- A grant to somebody else leaves a membership alone. -/
theorem membershipsOf_grantAccess_of_ne_singleton (hK : L.KeepsMembers) (hN : L.NamesMembers)
    {a b t : Name} (hab : a ≠ b) {x : Member} (h : m.membershipsOf t a = [x])
    (ni : NamedInterval) : (m.grantAccess b t ni).membershipsOf t a = [x] := by
  have hx : x ∈ m.membershipsOf t a := h ▸ List.mem_cons_self
  obtain ⟨hmem, hid⟩ := identity_of_mem_membershipsOf hx
  cases hcert : m.getIdentity b with
  | none => rwa [membershipsOf, membersOf_grantAccess_of_none hK hcert, ← membershipsOf]
  | some cert =>
    by_cases hin : ∃ y ∈ m.membersOf t, y.identity = cert.identity
    · rw [membershipsOf_grantAccess_of_mem hK hN hcert hin, h, List.map_singleton]
      rw [Member.reschedule]
      rw [if_neg (hid ▸ hab)]
    · have hperm := (membersOf_grantAccess_of_new hK hN hcert hin ni).filter
        fun y => decide (y.identity = a)
      have hne : ¬ Member.identity ⟨cert.name, ni.name.toUri⟩ = a :=
        fun heq => hin ⟨x, hmem, hid.trans heq.symm⟩
      have hfilter : (m.membersOf t).filter (fun y => decide (y.identity = a)) = [x] := h
      rw [List.filter_cons_of_neg (by rwa [decide_eq_true_eq]), hfilter] at hperm
      exact List.perm_singleton.mp hperm

/-- A grant with the certificate of another identity makes nobody a member who is none. -/
theorem membershipsOf_grantAccess_of_ne_nil (hK : L.KeepsMembers) {a b t : Name}
    (h : m.membershipsOf t a = [])
    (hcert : ∀ cert, m.getIdentity b = some cert → cert.identity ≠ a) (ni : NamedInterval) :
    (m.grantAccess b t ni).membershipsOf t a = [] := by
  refine List.filter_eq_nil_iff.mpr fun x hx hid => ?_
  rw [decide_eq_true_eq] at hid
  rcases certName_of_mem_membersOf_grantAccess hK hx with ⟨y, hy, hname⟩ | ⟨cert, hc, hname⟩
  · refine List.filter_eq_nil_iff.mp h y hy ?_
    rw [decide_eq_true_eq, ← hid]
    unfold Member.identity
    rw [hname]
  · refine hcert cert hc ?_
    rw [← hid]
    rw [Member.identity]
    rw [hname]
    rfl

/-! ## The access times of somebody else -/

theorem accessTimes_of_singleton {a t : Name} {x : Member} (h : m.membershipsOf t a = [x]) :
    V.accessTimes m a t = V.times (V.scheduleNamed m t x.scheduleName) := by
  ext ts
  simp [ScheduleView.accessTimes, h]

theorem accessTimes_of_nil {a t : Name} (h : m.membershipsOf t a = []) :
    V.accessTimes m a t = ∅ := by
  ext ts
  simp [ScheduleView.accessTimes, h]

/-- A grant says nothing about the other data types. -/
theorem accessTimes_grantAccess_of_ne {t t' : Name} (h : t ≠ t') (a b : Name)
    (ni : NamedInterval) :
    V.accessTimes (m.grantAccess b t ni) a t' = V.accessTimes m a t' := by
  obtain ⟨db, hgrant, -⟩ := grantAccess_eq m b t ni
  unfold ScheduleView.accessTimes ScheduleView.scheduleNamed membershipsOf membersOf
  rw [hgrant, getGroup_storeGroup_of_ne m h]

variable (m V) in
/-- The grant to `b` does not touch what `a` may read: if the membership of `a` in the group
names the schedule that is stored, that schedule covers the same times as before; and if `a`
is no member, the certificate of `b` makes it none, or one whose schedule covers nothing. -/
def LeavesAccess (a b t : Name) (ni : NamedInterval) : Prop :=
  (∀ x ∈ m.membershipsOf t a, x.scheduleName = ni.name.toUri →
    V.times (some ni.schedule) = V.times (V.scheduleNamed m t ni.name.toUri)) ∧
  (m.membershipsOf t a = [] → ∀ cert, m.getIdentity b = some cert → cert.identity = a →
    V.times (some ni.schedule) = ∅)

/-- **One grant leaves the access times of somebody else as they are**, for every data type,
exactly when it leaves those for its own alone. -/
theorem accessTimes_grantAccess_iff (hK : L.KeepsMembers) (hN : L.NamesMembers)
    (hV : V.StoresByName) (hempty : m.groupSchedules = ∅) (hm : m.Distinct) {a b : Name}
    (hab : a ≠ b) (t : Name) (ni : NamedInterval) :
    (∀ t', V.accessTimes (m.grantAccess b t ni) a t' = V.accessTimes m a t') ↔
      m.LeavesAccess V a b t ni := by
  have hown : (∀ t', V.accessTimes (m.grantAccess b t ni) a t' = V.accessTimes m a t') ↔
      V.accessTimes (m.grantAccess b t ni) a t = V.accessTimes m a t := by
    refine ⟨fun h => h t, fun h t' => ?_⟩
    by_cases ht : t = t'
    · rwa [← ht]
    · exact accessTimes_grantAccess_of_ne ht a b ni
  rw [hown, LeavesAccess]
  rcases hm.membershipsOf_cases t a with hnil | ⟨x, hx⟩
  · rw [accessTimes_of_nil hnil, hnil]
    simp only [List.not_mem_nil, false_imp_iff, implies_true, true_and, true_imp_iff]
    constructor
    · rintro hafter cert hcert rfl
      have hnew := membershipsOf_grantAccess_of_nil hK hN hcert hnil ni
      rw [accessTimes_of_singleton hnew, scheduleNamed_grantAccess hV hempty, if_pos rfl] at hafter
      exact hafter
    · intro hcovers
      by_cases hcert : ∃ cert, m.getIdentity b = some cert ∧ cert.identity = a
      · obtain ⟨cert, hcert, rfl⟩ := hcert
        have hnew := membershipsOf_grantAccess_of_nil hK hN hcert hnil ni
        rw [accessTimes_of_singleton hnew, scheduleNamed_grantAccess hV hempty, if_pos rfl]
        exact hcovers cert hcert rfl
      · exact accessTimes_of_nil (membershipsOf_grantAccess_of_ne_nil hK hnil
          (fun cert h hid => hcert ⟨cert, h, hid⟩) ni)
  · have hafter := membershipsOf_grantAccess_of_ne_singleton hK hN hab hx ni
    rw [accessTimes_of_singleton hx, accessTimes_of_singleton hafter,
      scheduleNamed_grantAccess hV hempty, hx]
    by_cases hname : ni.name.toUri = x.scheduleName
    · rw [if_pos hname]
      simp [hname]
    · rw [if_neg hname]
      simp [Ne.symm hname]

/-- It is enough that `b` is filed under the identity inside its certificate, and that no
membership of `a` names a schedule like that of the grant. -/
theorem leavesAccess_of_ne {a b t : Name} (hab : a ≠ b)
    (hcert : ∀ cert, m.getIdentity b = some cert → cert.identity = b) {ni : NamedInterval}
    (hname : ∀ x ∈ m.membersOf t, x.scheduleName ≠ ni.name.toUri) : m.LeavesAccess V a b t ni := by
  constructor
  · intro x hx heq
    exact absurd heq (hname x (identity_of_mem_membershipsOf hx).1)
  · intro _ cert hc hid
    exact absurd (hid.symm.trans (hcert cert hc)) hab

/-- The same for a call of a run, whose entity has such a certificate. -/
theorem leavesAccess_of_getIdentity {b t : Name} {ni : NamedInterval} {cert : Certificate}
    (hcert : m.getIdentity b = some cert) (hid : cert.identity = b)
    (hname : ∀ x ∈ m.membersOf t, x.scheduleName ≠ ni.name.toUri) (b' t' : Name)
    (ni' : NamedInterval) (heq : ManagerOp.grantAccess b t ni = .grantAccess b' t' ni') (a : Name)
    (hab : a ≠ b') : m.LeavesAccess V a b' t' ni' := by
  obtain ⟨rfl, rfl, rfl⟩ := ManagerOp.grantAccess.inj heq
  refine leavesAccess_of_ne hab (fun cert' h => ?_) hname
  rw [hcert] at h
  rw [← Option.some.inj h, hid]

/-! ## Every sequence of grants -/

variable (m) in
/-- What every run keeps: no schedule is noted, and no group has two members of one name. -/
def Granting : Prop := m.groupSchedules = ∅ ∧ m.Distinct

theorem granting_step (hK : L.KeepsMembers) (hN : L.NamesMembers) (h : m.Granting)
    (op : ManagerOp) : (m.step op).Granting :=
  ⟨(groupSchedules_step op).trans h.1, distinct_step hK hN h.2 op⟩

/-- **Granting one entity never changes another's access times**, in any run, exactly when
every grant of the run leaves the access of everybody else alone. -/
theorem accessTimes_unchanged_iff (hK : L.KeepsMembers) (hN : L.NamesMembers)
    (hV : V.StoresByName) (p : Name) (keysize : ℕ) (ops : List ManagerOp) :
    (∀ pre b t ni post, ops = pre ++ .grantAccess b t ni :: post → ∀ a, a ≠ b → ∀ t',
        V.accessTimes (((ofPrefix L p keysize).run pre).grantAccess b t ni) a t' =
          V.accessTimes ((ofPrefix L p keysize).run pre) a t') ↔
      Transitions.StepsMeet step (fun m op => ∀ b t ni, op = .grantAccess b t ni →
        ∀ a, a ≠ b → m.LeavesAccess V a b t ni) (ofPrefix L p keysize) ops := by
  have hstart : (ofPrefix L p keysize).Granting := ⟨rfl, distinct_run hK hN p keysize []⟩
  have hgrant (m : Manager L) (op : ManagerOp) (hm : m.Granting) :
      (∀ b t ni, op = .grantAccess b t ni → ∀ a, a ≠ b → ∀ t',
          V.accessTimes (m.grantAccess b t ni) a t' = V.accessTimes m a t') ↔
        ∀ b t ni, op = .grantAccess b t ni → ∀ a, a ≠ b → m.LeavesAccess V a b t ni := by
    refine forall_congr' fun b => forall_congr' fun t => forall_congr' fun ni => ?_
    refine forall_congr' fun _ => forall_congr' fun a => forall_congr' fun hab => ?_
    exact accessTimes_grantAccess_iff hK hN hV hm.1 hm.2 hab t ni
  rw [← Transitions.stepsMeet_congr (fun m op h _ => granting_step hK hN h op) hgrant hstart,
    Transitions.stepsMeet_iff]
  constructor
  · rintro h pre op post heq b t ni rfl
    exact h pre b t ni post heq
  · rintro h pre b t ni post heq
    exact h pre _ post heq b t ni rfl

end Manager

/-! ## Schedules in memory -/

/-- The interval has a repetition on the date. -/
def RepetitiveInterval.hasIntervalOnDate (i : RepetitiveInterval) (d : Date) : Bool :=
  decide (i.startDate.date.dayNumber ≤ d.dayNumber) &&
    decide (d.dayNumber ≤ i.endDate.date.dayNumber) &&
    match i.unit with
    | .none => true
    | .day => (d.dayNumber - i.startDate.date.dayNumber) % i.nRepeats == 0
    | .month => d.day == i.startDate.date.day &&
        (12 * d.year + d.month - (12 * i.startDate.date.year + i.startDate.date.month)) %
          i.nRepeats == 0
    | .year => d.day == i.startDate.date.day && d.month == i.startDate.date.month &&
        (d.year - i.startDate.date.year) % i.nRepeats == 0

/-- The time is in a repetition of the interval, between its hours. -/
def RepetitiveInterval.covers (i : RepetitiveInterval) (ts : TimeStamp) : Bool :=
  i.hasIntervalOnDate ts.date && decide (3600 * i.startHour ≤ ts.seconds) &&
    decide (ts.seconds ≤ 3600 * i.endHour)

/-- The schedules of `memoryGroups`, and the times of their white intervals. -/
def memorySchedules : ScheduleView memoryGroups where
  scheduleOf db n := (MemoryDb.schedules db).find? (·.1 = n) |>.map Prod.snd
  covers s ts := ∃ i ∈ s.whiteIntervals, i.covers ts = true

instance (s : Schedule) (ts : TimeStamp) : Decidable (memorySchedules.covers s ts) :=
  inferInstanceAs (Decidable (∃ i ∈ s.whiteIntervals, i.covers ts = true))

/-- The schedules of the other names stay in their places. -/
theorem find?_replaceSchedule (n : Bytes) (s : Schedule) (entries : List (Bytes × Schedule))
    (n' : Bytes) :
    (replaceSchedule n s entries).find? (·.1 = n') =
      if n = n' then some (n, s) else entries.find? (·.1 = n') := by
  induction entries with
  | nil =>
    rw [replaceSchedule]
    by_cases h : n = n'
    · simp [h]
    · simp [h]
  | cons entry entries ih =>
    rw [replaceSchedule]
    split
    · rename_i hentry
      by_cases h : n = n'
      · simp [h]
      · simp [h, hentry]
    · rename_i hentry
      by_cases hn : entry.1 = n'
      · have h : ¬ n = n' := fun heq => hentry (hn.trans heq.symm)
        simp [hn, h]
      · rw [List.find?_cons_of_neg (by simpa using hn), ih,
          List.find?_cons_of_neg (by simpa using hn)]

theorem memorySchedules_storesByName : memorySchedules.StoresByName where
  openDb _ _ := rfl
  updateSchedule c db n s n' := by
    dsimp only [memorySchedules, memoryGroups]
    rw [find?_replaceSchedule]
    split
    · rfl
    · rfl
  addMember {c db s cert db'} h n := by
    dsimp only [memoryGroups] at h
    split at h
    · exact absurd h (by simp)
    · rw [← Option.some.inj h]
      rfl
  updateMemberSchedule _ _ _ _ _ := rfl

theorem memorySchedules_keepsStored : memorySchedules.KeepsStored := by
  intro c db n s h
  have hentries (entries : List (Bytes × Schedule))
      (hstored : (entries.find? (·.1 = n)).map Prod.snd = some s) :
      replaceSchedule n s entries = entries := by
    induction entries with
    | nil => exact absurd hstored (by simp)
    | cons entry entries ih =>
      rw [replaceSchedule]
      by_cases hn : entry.1 = n
      · rw [List.find?_cons_of_pos (by simpa using hn)] at hstored
        rw [if_pos hn, ← hn, ← Option.some.inj hstored]
      · rw [List.find?_cons_of_neg (by simpa using hn)] at hstored
        rw [if_neg hn, ih hstored]
  show (⟨MemoryDb.members db, replaceSchedule n s (MemoryDb.schedules db)⟩ : MemoryDb) = db
  rw [hentries _ h]
  rfl

namespace Manager

/-- The entities of the runs below, added under the identities in their certificates. -/
def aliceAndBob : List ManagerOp :=
  [.addIdentity [Component.of "alice"] (Certificate.issued [Component.of "alice"]),
    .addIdentity [Component.of "bob"] (Certificate.issued [Component.of "bob"])]

/-- Under a schedule of another name, the second grant leaves the first alone. -/
theorem accessTimes_unchanged_two_names :
    let m := (ofPrefix memoryGroups [Component.of "manager"] 2048).run
      (aliceAndBob ++ [.grantAccess [Component.of "alice"] [Component.of "health"]
        (dailyFrom "weekdays")])
    memorySchedules.accessTimes
        (m.grantAccess [Component.of "bob"] [Component.of "health"] (dailyFrom "weekends"))
        [Component.of "alice"] [Component.of "health"] =
      memorySchedules.accessTimes m [Component.of "alice"] [Component.of "health"] := by
  refine (accessTimes_unchanged_iff memoryGroups_keepsMembers memoryGroups_namesMembers
    memorySchedules_storesByName [Component.of "manager"] 2048
    (aliceAndBob ++ [ManagerOp.grantAccess [Component.of "alice"] [Component.of "health"]
        (dailyFrom "weekdays"),
      ManagerOp.grantAccess [Component.of "bob"] [Component.of "health"]
        (dailyFrom "weekends")])).mpr
    ⟨fun _ _ _ h => ManagerOp.noConfusion h, fun _ _ _ h => ManagerOp.noConfusion h, ?_, ?_,
      trivial⟩ _ _ _ _ [] rfl _ (by decide) _
  · generalize hm : step (step (ofPrefix memoryGroups [Component.of "manager"] 2048) _) _ = m
    have hcert : m.getIdentity [Component.of "alice"] =
        some ⟨Certificate.issued [Component.of "alice"], by decide⟩ := by
      rw [← hm]
      decide +kernel
    have hmembers : m.membersOf [Component.of "health"] = [] := by
      rw [← hm]
      decide +kernel
    refine leavesAccess_of_getIdentity hcert (by decide) fun x hx => ?_
    rw [hmembers] at hx
    exact absurd hx List.not_mem_nil
  · generalize hm : step (step (step (ofPrefix memoryGroups [Component.of "manager"] 2048) _) _)
      _ = m
    have hcert : m.getIdentity [Component.of "bob"] =
        some ⟨Certificate.issued [Component.of "bob"], by decide⟩ := by
      rw [← hm]
      decide +kernel
    have hmembers : m.membersOf [Component.of "health"] =
        [⟨(Certificate.issued [Component.of "alice"]).name, bytes "/weekdays"⟩] := by
      rw [← hm]
      decide +kernel
    refine leavesAccess_of_getIdentity hcert (by decide) fun x hx => ?_
    rw [hmembers, List.mem_singleton] at hx
    rw [hx]
    decide

/-- A default grant to `bob` moves the access of `alice`, granted by default the day before. -/
theorem accessTimes_changed_by_default_grant :
    let today : TimeStamp := ⟨⟨2017, 7, 3⟩, 43200⟩
    let tomorrow : TimeStamp := ⟨⟨2017, 7, 4⟩, 43200⟩
    let m := (ofPrefix memoryGroups [Component.of "manager"] 2048).run
      (aliceAndBob ++ [.grantAccess [Component.of "alice"] [Component.of "health"]
        (defaultSchedule today)])
    ¬ memorySchedules.accessTimes
        (m.grantAccess [Component.of "bob"] [Component.of "health"] (defaultSchedule tomorrow))
        [Component.of "alice"] [Component.of "health"] =
      memorySchedules.accessTimes m [Component.of "alice"] [Component.of "health"] := by
  intro today tomorrow m h
  generalize hm' : m.grantAccess [Component.of "bob"] [Component.of "health"]
    (defaultSchedule tomorrow) = m' at h
  let x : Member := ⟨(Certificate.issued [Component.of "alice"]).name, bytes "/everyday"⟩
  have hx : m.membershipsOf [Component.of "health"] [Component.of "alice"] = [x] := by
    decide +kernel
  have hx' : m'.membershipsOf [Component.of "health"] [Component.of "alice"] = [x] := by
    rw [← hm']
    decide +kernel
  have hschedule : memorySchedules.scheduleNamed m [Component.of "health"] x.scheduleName =
      some (defaultSchedule today).schedule := by
    decide +kernel
  have hschedule' : memorySchedules.scheduleNamed m' [Component.of "health"] x.scheduleName =
      some (defaultSchedule tomorrow).schedule := by
    rw [← hm']
    decide +kernel
  rw [accessTimes_of_singleton hx, accessTimes_of_singleton hx', hschedule, hschedule'] at h
  have hbefore : today ∈ memorySchedules.times (some (defaultSchedule today).schedule) :=
    ⟨_, rfl, by decide +kernel⟩
  rw [← h] at hbefore
  obtain ⟨s, hs, hcovers⟩ := hbefore
  obtain rfl := Option.some.inj hs
  exact absurd hcovers (by decide +kernel)

end Manager
end Nacapp
