import Nacapp.Lib.OrderedScan
import Nacapp.Lib.Transitions
import Nacapp.Manager.Calls

/-!
# The manager over its life

The calls on a manager as operations `ManagerOp`, and the manager as a state machine over
them.  `Manager.step` is one call; a call that throws leaves the manager as it was.

* `getGroup_step`, `dkeyCache_step`: what one call does to a group and to the cache.
* `Sound`: every group was made for the data type it is filed under, and every cached
  D-KEY is filed under the certificate in its name.  Every run keeps it (`sound_run`).
* `mem_dkeyCache_run`: the cache has entries for exactly the names under which a key read
  of the run filed a D-KEY.
* `Sound.scanCache_eq_none_iff`: when the lookup of an entity fails.
-/

namespace Nacapp

/-! ## The state machine -/

/-- The calls on a manager.  Both overloads of `grantAccess` are the one with an interval,
the other at `defaultSchedule`. -/
inductive ManagerOp where
  | addIdentity (entity : Name) (cert : Data)
  | removeIdentity (identity : Name)
  | grantAccess (entity dataType : Name) (namedInterval : NamedInterval)
  | revokeAccess (entity dataType : Name)
  | getGroupKeys (dataType : Name) (timeslot : TimeStamp)
  | getEKey (dataType : Name) (timeslot : TimeStamp)
  | getDKey (dataType entity : Name) (timeslot : TimeStamp)

/-- The call takes something away: an access or an identity. -/
def ManagerOp.withdraws : ManagerOp → Bool
  | .revokeAccess _ _ | .removeIdentity _ => true
  | _ => false

/-- The call writes the map of identities. -/
def ManagerOp.setsIdentity : ManagerOp → Bool
  | .addIdentity _ _ | .removeIdentity _ => true
  | _ => false

namespace Manager

variable {L : GroupLib} (m : Manager L)

/-- The manager after a call. -/
def step (m : Manager L) : ManagerOp → Manager L
  | .addIdentity entity cert => (m.addIdentity entity cert).getD m
  | .removeIdentity identity => m.removeIdentity identity
  | .grantAccess entity t ni => m.grantAccess entity t ni
  | .revokeAccess entity t => m.revokeAccess entity t
  | .getGroupKeys t ts => (m.getGroupKeys t ts).2
  | .getEKey t ts => (m.getEKey t ts).2
  | .getDKey t entity ts => (m.getDKey t entity ts).2

/-- The manager after a run of calls. -/
def run (m : Manager L) (ops : List ManagerOp) : Manager L := Transitions.exec step m ops

/-- The D-KEYs a call files in the cache. -/
def dkeysRead : ManagerOp → List Data
  | .getEKey t ts => m.dkeys t ts
  | .getDKey t entity ts => if m.dkeyCache[entity.toUri]? = none then m.dkeys t ts else []
  | _ => []

variable {m}

theorem addIdentity_getD (entity : Name) (cert : Data) :
    (m.addIdentity entity cert).getD m = m ∨ ∃ c, (m.addIdentity entity cert).getD m =
      { m with identities := m.identities.insert entity.toUri c } := by
  unfold addIdentity
  cases Certificate.ofData cert with
  | none => exact Or.inl rfl
  | some c => exact Or.inr ⟨c, rfl⟩

/-- **The cache after a call**: as before, with the D-KEYs of the call filed. -/
theorem dkeyCache_step (op : ManagerOp) :
    (m.step op).dkeyCache = fileDKeys m.dkeyCache (m.dkeysRead op) := by
  cases op with
  | addIdentity entity cert =>
    show ((m.addIdentity entity cert).getD m).dkeyCache = _
    rcases addIdentity_getD (m := m) entity cert with h | ⟨c, h⟩
    · rw [h]
      rfl
    · rw [h]
      rfl
  | removeIdentity identity => rfl
  | grantAccess entity t ni =>
    obtain ⟨db, h, -⟩ := grantAccess_eq m entity t ni
    show (m.grantAccess entity t ni).dkeyCache = _
    rw [h]
    rfl
  | revokeAccess entity t =>
    show (m.revokeAccess entity t).dkeyCache = _
    rw [revokeAccess_eq]
    rfl
  | getGroupKeys t ts =>
    show (m.getGroupKeys t ts).2.dkeyCache = _
    unfold getGroupKeys
    cases m.getGroup t <;> rfl
  | getEKey t ts =>
    show (m.getEKey t ts).2.dkeyCache = _
    rw [getEKey_snd]
    rfl
  | getDKey t entity ts =>
    show (m.getDKey t entity ts).2.dkeyCache = fileDKeys _ (if _ then _ else _)
    rw [getDKey_snd]
    split
    · rw [getEKey_snd]
    · rfl

/-- Reading the keys of a data type writes the groups only. -/
theorem exists_getGroupKeys_eq (t : Name) (ts : TimeStamp) :
    ∃ groups, (m.getGroupKeys t ts).2 = { m with groups } := by
  unfold getGroupKeys
  cases m.getGroup t with
  | none => exact ⟨m.groups, rfl⟩
  | some g => exact ⟨_, rfl⟩

/-- Filing them writes the cache as well. -/
theorem exists_getEKey_eq (t : Name) (ts : TimeStamp) :
    ∃ dkeyCache groups, (m.getEKey t ts).2 = { m with dkeyCache, groups } := by
  obtain ⟨groups, h⟩ := exists_getGroupKeys_eq (m := m) t ts
  rw [getEKey_snd, h]
  exact ⟨_, groups, rfl⟩

/-- **What a call writes**: the identities, if it adds or removes one, the cache and the groups,
and nothing else. -/
theorem step_eq (op : ManagerOp) :
    ∃ identities dkeyCache groups, (op.setsIdentity = false → identities = m.identities) ∧
      m.step op = { m with identities, dkeyCache, groups } := by
  cases op with
  | addIdentity entity cert =>
    have hsets : ¬ (ManagerOp.addIdentity entity cert).setsIdentity = false := by
      simp [ManagerOp.setsIdentity]
    rcases addIdentity_getD (m := m) entity cert with h | ⟨c, h⟩
    · exact ⟨m.identities, m.dkeyCache, m.groups, fun h' => absurd h' hsets, h⟩
    · exact ⟨_, m.dkeyCache, m.groups, fun h' => absurd h' hsets, h⟩
  | removeIdentity identity =>
    refine ⟨_, m.dkeyCache, m.groups, fun h' => absurd h' ?_, rfl⟩
    simp [ManagerOp.setsIdentity]
  | grantAccess entity t ni =>
    obtain ⟨db, h, -⟩ := grantAccess_eq m entity t ni
    exact ⟨m.identities, m.dkeyCache, _, fun _ => rfl, h⟩
  | revokeAccess entity t =>
    exact ⟨m.identities, m.dkeyCache, _, fun _ => rfl, revokeAccess_eq m entity t⟩
  | getGroupKeys t ts =>
    obtain ⟨groups, h⟩ := exists_getGroupKeys_eq (m := m) t ts
    exact ⟨m.identities, m.dkeyCache, groups, fun _ => rfl, h⟩
  | getEKey t ts =>
    obtain ⟨dkeyCache, groups, h⟩ := exists_getEKey_eq (m := m) t ts
    exact ⟨m.identities, dkeyCache, groups, fun _ => rfl, h⟩
  | getDKey t entity ts =>
    show ∃ _ _ _, _ ∧ (m.getDKey t entity ts).2 = _
    rw [getDKey_snd]
    split
    · obtain ⟨dkeyCache, groups, h⟩ := exists_getEKey_eq (m := m) t ts
      exact ⟨m.identities, dkeyCache, groups, fun _ => rfl, h⟩
    · exact ⟨m.identities, m.dkeyCache, m.groups, fun _ => rfl, rfl⟩

theorem groupConfig_step (op : ManagerOp) (t : Name) :
    (m.step op).groupConfig t = m.groupConfig t := by
  obtain ⟨_, _, _, -, h⟩ := step_eq (m := m) op
  rw [h]
  rfl

/-- Nothing fills the map of schedules. -/
theorem groupSchedules_step (op : ManagerOp) : (m.step op).groupSchedules = m.groupSchedules := by
  obtain ⟨_, _, _, -, h⟩ := step_eq (m := m) op
  rw [h]

/-- The group of a data type after the keys of some data type are read. -/
theorem getGroup_getGroupKeys_cases (t t' : Name) (ts : TimeStamp) :
    (m.getGroupKeys t' ts).2.getGroup t = m.getGroup t ∨
      ∃ g, m.getGroup t = some g ∧ (m.getGroupKeys t' ts).2.getGroup t =
        some ⟨g.config, (L.getGroupKey g.config g.db ts false).1⟩ := by
  rw [getGroup_getGroupKeys]
  by_cases h : t' = t
  · rw [if_pos h, h]
    cases hg : m.getGroup t with
    | none => exact Or.inl rfl
    | some g => exact Or.inr ⟨g, rfl, rfl⟩
  · rw [if_neg h]
    exact Or.inl rfl

/-- What reads the keys of a data type leaves a group as it is, or with the database of the
read. -/
theorem getGroup_of_read {m' : Manager L} (t t' : Name) (ts : TimeStamp)
    (h : m'.getGroup t = (m.getGroupKeys t' ts).2.getGroup t) :
    m'.getGroup t = m.getGroup t ∨ ∃ g ts, m.getGroup t = some g ∧
      m'.getGroup t = some ⟨g.config, (L.getGroupKey g.config g.db ts false).1⟩ := by
  rw [h]
  exact (getGroup_getGroupKeys_cases t t' ts).imp_right fun ⟨g, hg⟩ => ⟨g, ts, hg⟩

/-- **The group of a data type after a call**: the same, gone when the access to the data
type was revoked, stored anew by a grant of the data type, or with the database a key read
leaves in it. -/
theorem getGroup_step (op : ManagerOp) (t : Name) :
    (m.step op).getGroup t = m.getGroup t ∨
      (∃ entity, op = .revokeAccess entity t ∧ (m.step op).getGroup t = none) ∨
      (∃ entity ni, op = .grantAccess entity t ni) ∨
      ∃ g ts, m.getGroup t = some g ∧
        (m.step op).getGroup t = some ⟨g.config, (L.getGroupKey g.config g.db ts false).1⟩ := by
  cases op with
  | addIdentity entity cert =>
    refine Or.inl ?_
    show ((m.addIdentity entity cert).getD m).getGroup t = _
    rcases addIdentity_getD (m := m) entity cert with h | ⟨c, h⟩
    · rw [h]
    · rw [h]
      rfl
  | removeIdentity identity => exact Or.inl rfl
  | grantAccess entity t' ni =>
    by_cases h : t' = t
    · exact Or.inr (Or.inr (Or.inl ⟨entity, ni, by rw [h]⟩))
    · obtain ⟨db, hgrant, -⟩ := grantAccess_eq m entity t' ni
      refine Or.inl ?_
      show (m.grantAccess entity t' ni).getGroup t = _
      rw [hgrant, getGroup_storeGroup_of_ne m h]
  | revokeAccess entity t' =>
    have hrevoke : m.step (.revokeAccess entity t') = m.deleteGroup t' :=
      revokeAccess_eq m entity t'
    rw [hrevoke]
    by_cases h : t' = t
    · exact Or.inr (Or.inl ⟨entity, by rw [h], by rw [h, getGroup_deleteGroup_self]⟩)
    · exact Or.inl (getGroup_deleteGroup_of_ne m h)
  | getGroupKeys t' ts =>
    exact (getGroup_of_read t t' ts rfl).imp_right fun h => Or.inr (Or.inr h)
  | getEKey t' ts =>
    have hread := getGroup_of_read t t' ts (getGroup_getEKey m t' t ts)
    exact hread.imp_right fun h => Or.inr (Or.inr h)
  | getDKey t' entity ts =>
    show (m.getDKey t' entity ts).2.getGroup t = _ ∨ _ ∨ _ ∨
      ∃ g _, _ ∧ (m.getDKey t' entity ts).2.getGroup t = _
    rw [getDKey_snd]
    split
    · have hread := getGroup_of_read t t' ts (getGroup_getEKey m t' t ts)
      exact hread.imp_right fun h => Or.inr (Or.inr h)
    · exact Or.inl rfl

/-- Only `addIdentity` and `removeIdentity` write the map of identities. -/
theorem identities_step {op : ManagerOp} (h : op.setsIdentity = false) :
    (m.step op).identities = m.identities := by
  obtain ⟨identities, _, _, hsame, hstep⟩ := step_eq (m := m) op
  rw [hstep]
  exact hsame h

/-! ## What every run keeps -/

variable (m) in
/-- Every group was made for the data type it is filed under, and every D-KEY is filed
under the certificate name in its own name. -/
structure Sound : Prop where
  config : ∀ t g, m.getGroup t = some g → g.config = m.groupConfig t
  filed : ∀ k d, m.dkeyCache[k]? = some d → (extractCertName d.name).toUri = k

/-- A manager as it is constructed. -/
def ofPrefix (L : GroupLib) (managerPrefix : Name) (keysize : ℕ) : Manager L :=
  { managerPrefix := managerPrefix, defaultKeySize := keysize }

theorem sound_ofPrefix (p : Name) (k : ℕ) : (ofPrefix L p k).Sound where
  config t g h := by
    have hnone : (ofPrefix L p k).getGroup t = none := Std.ExtTreeMap.getElem?_empty
    rw [hnone] at h
    exact absurd h (by simp)
  filed k' d h := by
    have hnone : (ofPrefix L p k).dkeyCache[k']? = none := Std.ExtTreeMap.getElem?_empty
    rw [hnone] at h
    exact absurd h (by simp)

theorem Sound.createGroup_config (h : m.Sound) (t : Name) :
    (m.createGroup t).1.config = m.groupConfig t := by
  unfold createGroup
  cases hg : m.getGroup t with
  | none => rfl
  | some g => exact h.config t g hg

theorem sound_step (h : m.Sound) (op : ManagerOp) : (m.step op).Sound where
  config t g hg := by
    rw [groupConfig_step]
    rcases getGroup_step (m := m) op t with
      heq | ⟨_, -, heq⟩ | ⟨entity, ni, rfl⟩ | ⟨g', ts, hg', heq⟩
    · exact h.config t g (heq ▸ hg)
    · rw [heq] at hg
      exact absurd hg (by simp)
    · obtain ⟨db, hgrant, -⟩ := grantAccess_eq m entity t ni
      have hstep : (m.step (.grantAccess entity t ni)).getGroup t =
          some ⟨(m.createGroup t).1.config, db⟩ := by
        show (m.grantAccess entity t ni).getGroup t = _
        rw [hgrant, getGroup_storeGroup_self]
      rw [hstep] at hg
      rw [← Option.some.inj hg]
      exact h.createGroup_config t
    · rw [heq] at hg
      rw [← Option.some.inj hg]
      exact h.config t g' hg'
  filed k d hd := by
    rw [dkeyCache_step] at hd
    rcases OrderedScan.getElem?_fileAll_eq_some hd with ⟨-, hkey⟩ | ⟨-, hold⟩
    · exact hkey
    · exact h.filed k d hold

/-- **Every run keeps a manager sound.** -/
theorem sound_run (h : m.Sound) (ops : List ManagerOp) : (m.run ops).Sound :=
  Transitions.invariant (fun op _ _ hm => sound_step hm op) h

/-- A call brings no member into the group of a data type, unless it grants the data type
to an entity with a certificate. -/
theorem certName_of_mem_membersOf_step (hL : L.KeepsMembers) {op : ManagerOp} {t : Name}
    {x : Member} (hx : x ∈ (m.step op).membersOf t) :
    (∃ y ∈ m.membersOf t, y.certName = x.certName) ∨
      ∃ entity ni cert, op = .grantAccess entity t ni ∧ m.getIdentity entity = some cert ∧
        x.certName = cert.name := by
  rcases getGroup_step (m := m) op t with heq | ⟨_, -, heq⟩ | ⟨entity, ni, rfl⟩ | ⟨g, ts, hg, heq⟩
  · unfold membersOf at hx ⊢
    rw [heq] at hx
    exact Or.inl ⟨x, hx, rfl⟩
  · rw [membersOf_of_getGroup_eq_none heq] at hx
    exact absurd hx List.not_mem_nil
  · rcases certName_of_mem_membersOf_grantAccess hL hx with hold | ⟨cert, hcert, hname⟩
    · exact Or.inl hold
    · exact Or.inr ⟨entity, ni, cert, rfl, hcert, hname⟩
  · rw [membersOf_of_getGroup heq, hL.getGroupKey, ← membersOf_of_getGroup hg] at hx
    exact Or.inl ⟨x, hx, rfl⟩

/-! ## The keys of the cache -/

variable (m)

/-- The names under which the D-KEYs of the data type are filed, one for every member. -/
def filedNames (t : Name) (ts : TimeStamp) : List Name :=
  match m.getGroup t with
  | none => []
  | some g => (L.members g.db).map fun x => extractCertName
      (dkeyName g.config.managerPrefix g.config.dataType (L.interval g.config g.db ts) x.certName)

/-- The names under which a call files D-KEYs: a key read does, and of the calls of
`getDKey` those for an entity that is no key of the cache. -/
def filedBy : ManagerOp → List Name
  | .getEKey t ts => m.filedNames t ts
  | .getDKey t entity ts => if m.dkeyCache[entity.toUri]? = none then m.filedNames t ts else []
  | _ => []

/-- The names under which the calls of a run file D-KEYs. -/
def filedIn (ops : List ManagerOp) : List Name := Transitions.emitted step filedBy m ops

variable {m}

theorem getGroupKeys_eq_nil_iff (hL : L.IssuesKeys) (t : Name) (ts : TimeStamp) :
    (m.getGroupKeys t ts).1 = [] ↔ m.getGroup t = none := by
  unfold getGroupKeys
  cases hg : m.getGroup t with
  | none => simp
  | some g =>
    obtain ⟨ekey, dkeys, hkeys, -⟩ := hL g.config g.db ts false
    simp [hkeys]

theorem map_dkeys (hL : L.IssuesKeys) (t : Name) (ts : TimeStamp) :
    (m.dkeys t ts).map (fun d => extractCertName d.name) = m.filedNames t ts := by
  unfold dkeys getGroupKeys filedNames
  cases hg : m.getGroup t with
  | none => rfl
  | some g =>
    obtain ⟨ekey, dkeys, hkeys, hnames⟩ := hL g.config g.db ts false
    show ((L.getGroupKey g.config g.db ts false).2.tail).map (extractCertName ∘ Data.name) = _
    rw [hkeys, List.tail_cons, ← List.map_map, hnames, List.map_map]
    rfl

theorem map_dkeysRead (hL : L.IssuesKeys) (op : ManagerOp) :
    (m.dkeysRead op).map (fun d => extractCertName d.name) = m.filedBy op := by
  cases op with
  | getEKey t ts => exact map_dkeys hL t ts
  | getDKey t entity ts =>
    show (if _ then _ else _ : List Data).map _ = if _ then _ else _
    split
    · exact map_dkeys hL t ts
    · rfl
  | _ => rfl

theorem mem_fileDKeys_iff {cache : StringMap Data} {ds : List Data} {n : Name} :
    n.toUri ∈ fileDKeys cache ds ↔
      n ∈ ds.map (fun d => extractCertName d.name) ∨ n.toUri ∈ cache := by
  refine OrderedScan.mem_fileAll.trans (or_congr_left ?_)
  rw [List.mem_map]
  simp only [Name.toUri_inj]

theorem mem_dkeyCache_step (hL : L.IssuesKeys) {op : ManagerOp} {n : Name} :
    n.toUri ∈ (m.step op).dkeyCache ↔ n ∈ m.filedBy op ∨ n.toUri ∈ m.dkeyCache := by
  rw [dkeyCache_step, mem_fileDKeys_iff, map_dkeysRead hL]

/-- **The keys of the cache after a run**: the old ones, and the names under which the
calls of the run filed D-KEYs. -/
theorem mem_dkeyCache_run (hL : L.IssuesKeys) {ops : List ManagerOp} {n : Name} :
    n.toUri ∈ (m.run ops).dkeyCache ↔ n ∈ m.filedIn ops ∨ n.toUri ∈ m.dkeyCache := by
  unfold run filedIn
  induction ops generalizing m with
  | nil => simp
  | cons op ops ih =>
    rw [Transitions.exec_cons, ih, mem_dkeyCache_step hL, Transitions.emitted_cons,
      List.mem_append, ← or_assoc, or_comm (a := n ∈ Transitions.emitted _ _ _ _)]

/-! ## Scanning the cache -/

theorem extendsEntity_toUri (entity n : Name) :
    extendsEntity entity n.toUri = true ↔ entity <+: n := by
  unfold extendsEntity
  rw [Name.ofUri_toUri]
  exact List.isPrefixOf_iff_prefix

/-- The cache has no entry for the entity when no name in it extends the entity. -/
theorem Sound.scanCache_eq_none_iff (h : m.Sound) (entity : Name) :
    m.scanCache entity = none ↔ ∀ n : Name, n.toUri ∈ m.dkeyCache → ¬ entity <+: n := by
  refine OrderedScan.firstHit_eq_none_iff.trans ⟨fun hno n hn hext => ?_, fun hno k hk => ?_⟩
  · rw [← extendsEntity_toUri, hno _ hn] at hext
    exact absurd hext (by decide)
  · obtain ⟨d, hd⟩ := Option.isSome_iff_exists.mp (Std.ExtTreeMap.mem_iff_isSome_getElem?.mp hk)
    rw [← h.filed k d hd] at hk ⊢
    exact Bool.eq_false_iff.mpr fun hext => hno _ hk ((extendsEntity_toUri _ _).mp hext)

end Manager

end Nacapp
