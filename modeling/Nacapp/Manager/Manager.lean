import Nacapp.Manager.GroupManager

/-!
# The manager

`Manager` (`manager/src/manager.cpp`) controls access to the data under its prefix.  It
keeps the certificates of the identities it knows, one group for every data type that
was granted, and the D-KEYs it has seen, each filed under the name of the certificate it
was made for.  All four maps are keyed by URIs.

The group objects are shared pointers held by `m_groups` only, so a call on a group is a
change of the entry of its data type (`storeGroup`).  A D-KEY is handed out as the
pointer in the cache, so a caller may change the cached Data; `getDKeyEntry` tells which
entry that is.
-/

namespace Nacapp

/-- `DB_PATH`. -/
def DB_PATH : Bytes := bytes ":memory:"

/-- `DEFAULT_KEY_FRESH_PERIOD`, in hours. -/
def DEFAULT_KEY_FRESH_PERIOD : ℕ := 1

structure Manager (L : GroupLib) where
  managerPrefix : Name
  defaultKeySize : ℕ
  identities : StringMap Certificate := ∅
  dkeyCache : StringMap Data := ∅
  groups : StringMap (Group L) := ∅
  groupSchedules : StringMap (List Bytes) := ∅

namespace Manager

variable {L : GroupLib} (m : Manager L)

/-! ## Identities -/

/-- `addIdentity`; `none` where the Data is not a certificate and the call throws.  The
check of the certificate against the identity is commented out in the source. -/
def addIdentity (entity : Name) (certData : Data) : Option (Manager L) :=
  (Certificate.ofData certData).map fun certificate =>
    { m with identities := m.identities.insert entity.toUri certificate }

def getIdentity (entity : Name) : Option Certificate := m.identities[entity.toUri]?

def removeIdentity (identity : Name) : Manager L :=
  { m with identities := m.identities.erase identity.toUri }

/-! ## Groups -/

def getGroupFullName (group dataType : Name) : Bytes :=
  (group ++ NAME_COMPONENT_READ :: dataType).toUri

def getGroup (dataType : Name) : Option (Group L) :=
  m.groups[getGroupFullName m.managerPrefix dataType]?

/-- What a call on the group of the data type leaves in it. -/
def storeGroup (dataType : Name) (g : Group L) : Manager L :=
  { m with groups := m.groups.insert (getGroupFullName m.managerPrefix dataType) g }

/-- The arguments the group of a data type is made with. -/
def groupConfig (dataType : Name) : GroupConfig :=
  ⟨m.managerPrefix, dataType, DB_PATH, m.defaultKeySize, DEFAULT_KEY_FRESH_PERIOD⟩

/-- The group object made for a data type that has none. -/
def newGroup (dataType : Name) : Group L :=
  ⟨m.groupConfig dataType, L.openDb (m.groupConfig dataType)⟩

/-- `createGroup`: the group of the data type, made when there is none. -/
def createGroup (dataType : Name) : Group L × Manager L :=
  match m.getGroup dataType with
  | some g => (g, m)
  | none => (m.newGroup dataType, m.storeGroup dataType (m.newGroup dataType))

def deleteGroup (dataType : Name) : Manager L :=
  { m with groups := m.groups.erase (getGroupFullName m.managerPrefix dataType) }

/-! ## Granting and revoking -/

/-- The part of `addGroupMember` after the certificate is found.  When the member cannot
be added, the schedule of the member named by the caller is changed instead. -/
def addCertificate (dataType identity : Name) (cert : Certificate) (scheduleName : Bytes) :
    Manager L :=
  let (g, m) := m.createGroup dataType
  match L.addMember g.config g.db scheduleName cert with
  | some db => m.storeGroup dataType ⟨g.config, db⟩
  | none =>
    m.storeGroup dataType ⟨g.config, L.updateMemberSchedule g.config g.db identity scheduleName⟩

def addGroupMember (dataType identity : Name) (scheduleName : Bytes) : Manager L :=
  let (_, m) := m.createGroup dataType
  match m.getIdentity identity with
  | none => m
  | some cert => m.addCertificate dataType identity cert scheduleName

/-- `createSchedule`: the schedule's name, and the group with the schedule stored unless
`m_group_schedules` has the name. -/
def createSchedule (g : Group L) (namedInterval : NamedInterval) : Bytes × Group L :=
  let iname := namedInterval.name.toUri
  if m.groupSchedules[iname]? = none then
    let schedule := Schedule.addWhiteInterval {} namedInterval.interval
    (iname, ⟨g.config, L.updateSchedule g.config g.db iname schedule⟩)
  else (iname, g)

def grantAccess (entity dataType : Name) (namedInterval : NamedInterval) : Manager L :=
  let (g, m) := m.createGroup dataType
  let (schedule, g) := m.createSchedule g namedInterval
  (m.storeGroup dataType g).addGroupMember dataType entity schedule

/-- `grantAccess` without an interval, at the local time `now`. -/
def grantAccessByDefault (entity dataType : Name) (now : TimeStamp) : Manager L :=
  m.grantAccess entity dataType (defaultSchedule now)

/-- `removeGroupMember`: removes the member, and then the group from the map. -/
def removeGroupMember (dataType identity : Name) : Manager L :=
  let (g, m) := m.createGroup dataType
  (m.storeGroup dataType ⟨g.config, L.removeMember g.config g.db identity⟩).deleteGroup dataType

def revokeAccess (entity dataType : Name) : Manager L := m.removeGroupMember dataType entity

/-! ## Keys -/

/-- `extractCertName`: what stands behind the first `FOR`. -/
def extractCertName (dkey : Name) : Name := extractSuffix dkey NAME_COMPONENT_FOR

def getGroupKeys (dataType : Name) (timeslot : TimeStamp) : List Data × Manager L :=
  match m.getGroup dataType with
  | none => ([], m)
  | some g =>
    let (db, keys) := L.getGroupKey g.config g.db timeslot false
    (keys, m.storeGroup dataType ⟨g.config, db⟩)

/-- `m_dkey_cache[extractCertName(dkey).toUri()] = dkey`, for one D-KEY after the other. -/
def fileDKeys (cache : StringMap Data) (dkeys : List Data) : StringMap Data :=
  dkeys.foldl (fun cache dkey => cache.insert (extractCertName dkey.name).toUri dkey) cache

/-- `getEKey`: the first of the group keys; the others are filed in the cache. -/
def getEKey (dataType : Name) (timeslot : TimeStamp) : Option Data × Manager L :=
  match m.getGroupKeys dataType timeslot with
  | ([], m) => (none, m)
  | (ekey :: dkeys, m) => (some ekey, { m with dkeyCache := fileDKeys m.dkeyCache dkeys })

/-- The entries are scanned in the order of their keys, each key parsed as a name. -/
def extendsEntity (entity : Name) (key : Bytes) : Bool :=
  match Name.ofUri key with
  | some keyName => entity.isPrefixOf keyName
  | none => false

/-- The first entry whose key extends the name of the entity. -/
def scanCache (entity : Name) : Option (Bytes × Data) :=
  m.dkeyCache.toList.find? fun entry => extendsEntity entity entry.1

/-- `getDKey`, with the key of the cache entry that is handed out. -/
def getDKeyEntry (dataType entity : Name) (timeslot : TimeStamp) :
    Option (Bytes × Data) × Manager L :=
  if m.dkeyCache[entity.toUri]? = none then
    match m.getEKey dataType timeslot with
    | (none, m) => (none, m)
    | (some _, m) => (m.scanCache entity, m)
  else (m.scanCache entity, m)

def getDKey (dataType entity : Name) (timeslot : TimeStamp) : Option Data × Manager L :=
  let (entry, m) := m.getDKeyEntry dataType entity timeslot
  (entry.map Prod.snd, m)

end Manager

end Nacapp
