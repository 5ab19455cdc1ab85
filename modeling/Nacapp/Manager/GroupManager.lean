import Nacapp.Manager.Schedule
import Nacapp.Ndn.Packet

/-!
# Groups

`ndn::gep::GroupManager` keeps the members of one data type and makes their keys.  It is
not part of the repository, so it is a parameter `L : GroupLib` here: a database type and
the calls the manager makes on it.  A group object is its construction arguments with a
database, which for `":memory:"` nothing else refers to.

What the code relies on is stated apart, as properties of `L`:

* `L.KeysForMembers`: the D-KEYs `getGroupKey` returns are for current members, each named
  `<prefix>/READ/<type>/D-KEY/<start>/<end>/FOR/<member>`.
* `L.IssuesKeys`: it returns the E-KEY and then one D-KEY for every current member, whatever
  the time.  A library that looks at the schedules of the members does less.
* `L.KeepsMembers`: what each call does to the members; a fresh database has none.
* `L.SignsKeys`: the keys are signed when they are returned.

`memoryGroups` is a library of this kind, with all of them.
-/

namespace Nacapp

/-! ## Name components of the key names -/

def NAME_COMPONENT_FOR : Component := Component.of "FOR"
def NAME_COMPONENT_READ : Component := Component.of "READ"
def NAME_COMPONENT_E_KEY : Component := Component.of "E-KEY"
def NAME_COMPONENT_D_KEY : Component := Component.of "D-KEY"

/-- `names::extractSuffix`: what stands behind the first token, nothing if there is none. -/
def extractSuffix (name : Name) (token : Component) : Name :=
  (name.dropWhile (· ≠ token)).tail

/-- What stands behind the first token is what stands behind this one, if none comes before. -/
theorem extractSuffix_eq_iff {before after : Name} {token : Component} :
    extractSuffix (before ++ token :: after) token = after ↔ token ∉ before := by
  constructor
  · intro h hmem
    obtain ⟨a, b, hsplit, ha⟩ := List.eq_append_cons_of_mem hmem
    have hpass : ∀ c ∈ a, decide (c ≠ token) = true :=
      fun c hc => decide_eq_true fun heq => ha (heq ▸ hc)
    rw [hsplit, extractSuffix, List.append_assoc, List.cons_append,
      List.dropWhile_append_of_pos hpass, List.dropWhile_cons_of_neg (by simp), List.tail_cons] at h
    have hlen := congrArg List.length h
    rw [List.length_append, List.length_cons] at hlen
    omega
  · intro hnot
    have hpass : ∀ c ∈ before, decide (c ≠ token) = true :=
      fun c hc => decide_eq_true fun heq => hnot (heq ▸ hc)
    rw [extractSuffix, List.dropWhile_append_of_pos hpass, List.dropWhile_cons_of_neg (by simp),
      List.tail_cons]

/-! ## The library -/

/-- A member of a group, under the schedule it was added with. -/
structure Member where
  certName : Name
  scheduleName : Bytes
  deriving DecidableEq

/-- A member is named by the identity inside the name of its certificate. -/
def Member.identity (m : Member) : Name := m.certName.dropSuffix 4

/-- The arguments of the `GroupManager` constructor. -/
structure GroupConfig where
  managerPrefix : Name
  dataType : Name
  dbPath : Bytes
  keySize : ℕ
  freshPeriod : ℕ
  deriving DecidableEq

/-- The calls on `ndn::gep::GroupManager`, over its database. -/
structure GroupLib where
  Db : Type
  openDb : GroupConfig → Db
  /-- `none` where the call throws. -/
  addMember : GroupConfig → Db → Bytes → Certificate → Option Db
  updateMemberSchedule : GroupConfig → Db → Name → Bytes → Db
  removeMember : GroupConfig → Db → Name → Db
  updateSchedule : GroupConfig → Db → Bytes → Schedule → Db
  getGroupKey : GroupConfig → Db → TimeStamp → Bool → Db × List Data
  /-- The current members. -/
  members : Db → List Member
  /-- The start and the end of the interval around a time, as name components. -/
  interval : GroupConfig → Db → TimeStamp → Component × Component

/-- A group object. -/
structure Group (L : GroupLib) where
  config : GroupConfig
  db : L.Db

/-- The name of a D-KEY. -/
def dkeyName (managerPrefix dataType : Name) (interval : Component × Component)
    (member : Name) : Name :=
  managerPrefix ++ NAME_COMPONENT_READ :: dataType ++
    NAME_COMPONENT_D_KEY :: interval.1 :: interval.2 :: NAME_COMPONENT_FOR :: member

/-- Behind the first `FOR` of a D-KEY name stands the member, if none comes before. -/
theorem extractSuffix_dkeyName_iff {managerPrefix dataType member : Name}
    {interval : Component × Component} (hstart : NAME_COMPONENT_FOR ≠ interval.1)
    (hstop : NAME_COMPONENT_FOR ≠ interval.2) :
    extractSuffix (dkeyName managerPrefix dataType interval member) NAME_COMPONENT_FOR = member ↔
      NAME_COMPONENT_FOR ∉ managerPrefix ∧ NAME_COMPONENT_FOR ∉ dataType := by
  have hname : dkeyName managerPrefix dataType interval member =
      (managerPrefix ++ (NAME_COMPONENT_READ :: dataType ++
          [NAME_COMPONENT_D_KEY, interval.1, interval.2])) ++ NAME_COMPONENT_FOR :: member := by
    simp [dkeyName]
  have hread : NAME_COMPONENT_FOR ≠ NAME_COMPONENT_READ := by decide
  have hdkey : NAME_COMPONENT_FOR ≠ NAME_COMPONENT_D_KEY := by decide
  rw [hname, extractSuffix_eq_iff]
  simp [hread, hdkey, hstart, hstop]

namespace GroupLib

variable (L : GroupLib)

/-- The keys of a group: the E-KEY, and the D-KEYs of the current members in turn, at every
time. It is assumed where nothing is left to the schedules of the members. -/
def IssuesKeys : Prop :=
  ∀ c db ts regenerate, ∃ ekey dkeys,
    (L.getGroupKey c db ts regenerate).2 = ekey :: dkeys ∧
      dkeys.map Data.name = (L.members db).map fun m =>
        dkeyName c.managerPrefix c.dataType (L.interval c db ts) m.certName

/-- Behind the E-KEY come D-KEYs, each for a current member. -/
def KeysForMembers : Prop :=
  ∀ c db ts regenerate, ∀ d ∈ (L.getGroupKey c db ts regenerate).2.tail, ∃ x ∈ L.members db,
    d.name = dkeyName c.managerPrefix c.dataType (L.interval c db ts) x.certName

/-- What the calls do to the members. -/
structure KeepsMembers : Prop where
  openDb : ∀ c, L.members (L.openDb c) = []
  addMember : ∀ {c db s cert db'}, L.addMember c db s cert = some db' →
    ∀ x, x ∈ L.members db' ↔ x = ⟨cert.name, s⟩ ∨ x ∈ L.members db
  updateMemberSchedule : ∀ c db n s,
    (L.members (L.updateMemberSchedule c db n s)).map Member.certName =
      (L.members db).map Member.certName
  removeMember : ∀ c db n,
    L.members (L.removeMember c db n) = (L.members db).filter fun m => m.identity ≠ n
  updateSchedule : ∀ c db n s, L.members (L.updateSchedule c db n s) = L.members db
  getGroupKey : ∀ c db ts r, L.members (L.getGroupKey c db ts r).1 = L.members db

/-- Every key is returned signed over its own fields. -/
def SignsKeys : Prop :=
  ∀ c db ts regenerate, ∀ d ∈ (L.getGroupKey c db ts regenerate).2, d.Verifies

end GroupLib

/-! ## A library of this kind -/

/-- A database in memory. -/
structure MemoryDb where
  members : List Member := []
  schedules : List (Bytes × Schedule) := []

/-- The schedules with one more, in the place of that of the same name if there is one. -/
def replaceSchedule (n : Bytes) (s : Schedule) :
    List (Bytes × Schedule) → List (Bytes × Schedule)
  | [] => [(n, s)]
  | entry :: entries =>
    if entry.1 = n then (n, s) :: entries else entry :: replaceSchedule n s entries

/-- `n` in decimal, on at least `width` digits. -/
def decimal (width n : ℕ) : Bytes :=
  let digits := bytes (toString n)
  List.replicate (width - digits.length) '0'.toUInt8 ++ digits

/-- `to_iso_string`, to the full hour. -/
def isoHour (date : Date) (hour : ℕ) : Component :=
  ⟨decimal 4 date.year ++ decimal 2 date.month ++ decimal 2 date.day ++ bytes "T" ++
    decimal 2 hour ++ bytes "0000"⟩

def MemoryDb.interval (ts : TimeStamp) : Component × Component :=
  (isoHour ts.date (ts.seconds / 3600), isoHour ts.date (ts.seconds / 3600 + 1))

theorem NAME_COMPONENT_FOR_ne_isoHour (date : Date) (hour : ℕ) :
    NAME_COMPONENT_FOR ≠ isoHour date hour := by
  intro h
  have hlen := congrArg (fun c : Component => c.value.length) h
  have hfor : NAME_COMPONENT_FOR.value.length = 3 := by decide
  have hzeros : (bytes "0000").length = 4 := by decide
  simp only [isoHour, List.length_append, hfor, hzeros] at hlen
  omega

/-- A key of the group, signed by the key chain of the group manager. -/
def memoryKey (c : GroupConfig) (name : Name) : Data :=
  (KeyChain.mk (bytes "group")).sign
    ⟨name, ContentType_Blob, 3600000 * c.freshPeriod, bytes "key", none⟩

/-- Groups kept in memory, with keys valid for an hour. -/
def memoryGroups : GroupLib where
  Db := MemoryDb
  openDb _ := {}
  addMember _ db s cert :=
    if ∃ m ∈ db.members, m.identity = cert.identity then none
    else some { db with members := db.members ++ [⟨cert.name, s⟩] }
  updateMemberSchedule _ db n s :=
    { db with members := db.members.map fun m =>
        if m.identity = n then { m with scheduleName := s } else m }
  removeMember _ db n := { db with members := db.members.filter fun m => m.identity ≠ n }
  updateSchedule _ db n s := { db with schedules := replaceSchedule n s db.schedules }
  getGroupKey c db ts _ :=
    let interval := MemoryDb.interval ts
    (db, memoryKey c (c.managerPrefix ++ NAME_COMPONENT_READ :: c.dataType ++
        [NAME_COMPONENT_E_KEY, interval.1, interval.2]) ::
      db.members.map fun m =>
        memoryKey c (dkeyName c.managerPrefix c.dataType interval m.certName))
  members := MemoryDb.members
  interval _ _ ts := MemoryDb.interval ts

theorem memoryGroups_issuesKeys : memoryGroups.IssuesKeys := by
  intro c db ts regenerate
  refine ⟨_, _, rfl, ?_⟩
  rw [List.map_map]
  rfl

theorem memoryGroups_keysForMembers : memoryGroups.KeysForMembers := by
  intro c db ts regenerate d hd
  obtain ⟨x, hx, rfl⟩ := List.mem_map.mp hd
  exact ⟨x, hx, rfl⟩

/-- No interval of `memoryGroups` is in the way of the member. -/
theorem extractSuffix_dkeyName_memoryGroups {p t : Name} (hp : NAME_COMPONENT_FOR ∉ p)
    (ht : NAME_COMPONENT_FOR ∉ t) (c : GroupConfig) (db : memoryGroups.Db) (ts : TimeStamp)
    (n : Name) :
    extractSuffix (dkeyName p t (memoryGroups.interval c db ts) n) NAME_COMPONENT_FOR = n := by
  have hstart : NAME_COMPONENT_FOR ≠ (memoryGroups.interval c db ts).1 :=
    NAME_COMPONENT_FOR_ne_isoHour _ _
  have hstop : NAME_COMPONENT_FOR ≠ (memoryGroups.interval c db ts).2 :=
    NAME_COMPONENT_FOR_ne_isoHour _ _
  exact (extractSuffix_dkeyName_iff hstart hstop).mpr ⟨hp, ht⟩

theorem memoryGroups_signsKeys : memoryGroups.SignsKeys := by
  intro c db ts regenerate d hd
  rcases List.mem_cons.mp hd with rfl | hd
  · exact KeyChain.sign_verifies _ _
  · obtain ⟨m, -, rfl⟩ := List.mem_map.mp hd
    exact KeyChain.sign_verifies _ _

theorem memoryGroups_keepsMembers : memoryGroups.KeepsMembers where
  openDb _ := rfl
  addMember {c db s cert db'} h := by
    dsimp only [memoryGroups] at h
    split at h
    · exact absurd h (by simp)
    · rw [← Option.some.inj h]
      intro x
      show x ∈ MemoryDb.members db ++ [_] ↔ x = _ ∨ x ∈ MemoryDb.members db
      rw [List.mem_append, List.mem_singleton, or_comm]
  updateMemberSchedule c db n s := by
    dsimp only [memoryGroups]
    rw [List.map_map]
    refine List.map_congr_left fun m _ => ?_
    by_cases h : m.identity = n
    · simp [h]
    · simp [h]
  removeMember _ _ _ := rfl
  updateSchedule _ _ _ _ := rfl
  getGroupKey _ _ _ _ := rfl

end Nacapp
