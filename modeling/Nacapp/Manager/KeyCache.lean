import Nacapp.Manager.Runs

/-!
# The D-KEY cache

`Manager::getDKey` answers from a cache whose entries are named by the certificate of a
member alone.  Which data type and which timeslot the cached key was made for is nowhere
recorded, so the answer may be a key of another data type or of another time.

`Transparent` says what a caller may expect: the answer is one of the D-KEYs of the data
type at the timeslot, and there is one exactly when such a D-KEY extends the entity.
`Sound.transparent_iff` says when that holds in a sound manager, and `transparent_run_iff` in
any state a run reaches.
-/

namespace Nacapp

namespace Manager

variable {L : GroupLib} {m : Manager L}

/-! ## The answer of a lookup -/

/-- The scan for an entity that is a key of the cache ends at its own entry: of all names
that extend the entity its URI is the first. -/
theorem Sound.scanCache_of_getElem? (h : m.Sound) {entity : Name} {d : Data}
    (hd : m.dkeyCache[entity.toUri]? = some d) : m.scanCache entity = some (entity.toUri, d) := by
  refine OrderedScan.firstHit_eq_some_iff.mpr
    ⟨hd, (extendsEntity_toUri _ _).mpr List.prefix_rfl, ?_⟩
  intro k hk hext
  obtain ⟨d', hd'⟩ := Option.isSome_iff_exists.mp (Std.ExtTreeMap.mem_iff_isSome_getElem?.mp hk)
  rw [← h.filed k d' hd'] at hext ⊢
  exact Name.isLE_toUri_of_prefix ((extendsEntity_toUri _ _).mp hext)

/-- What the scan finds is filed under the certificate in its name, which extends the
entity, and no name in the cache that extends the entity comes before it. -/
theorem Sound.of_scanCache_eq_some (h : m.Sound) {entity : Name} {k : Bytes} {d : Data}
    (hscan : m.scanCache entity = some (k, d)) :
    m.dkeyCache[(extractCertName d.name).toUri]? = some d ∧
      entity <+: extractCertName d.name ∧
      ∀ n : Name, n.toUri ∈ m.dkeyCache → entity <+: n →
        (compare (extractCertName d.name).toUri n.toUri).isLE := by
  obtain ⟨hd, hext, hleast⟩ := OrderedScan.firstHit_eq_some_iff.mp hscan
  have hkey := h.filed k d hd
  rw [← hkey] at hd hext hleast
  exact ⟨hd, (extendsEntity_toUri _ _).mp hext,
    fun n hn hpre => hleast _ hn ((extendsEntity_toUri _ _).mpr hpre)⟩

/-! ## Transparency -/

/-- The answer of `getDKey` is as if there were no cache: a D-KEY of the data type at the
timeslot that extends the entity, and none only when there is no such D-KEY. -/
def Transparent (t entity : Name) (ts : TimeStamp) (m : Manager L) : Prop :=
  match (m.getDKey t entity ts).1 with
  | none => ∀ d ∈ m.dkeys t ts, ¬ entity <+: extractCertName d.name
  | some d => d ∈ m.dkeys t ts ∧ entity <+: extractCertName d.name

/-- The cache agrees with the D-KEYs of the data type at the timeslot.  When the entity is a
key of the cache, its entry is one of these D-KEYs; when it is not, and the data type has
keys, one of them comes no later than any name in the cache that extends the entity. -/
def CacheAgrees (t entity : Name) (ts : TimeStamp) (m : Manager L) : Prop :=
  match m.dkeyCache[entity.toUri]? with
  | some d => d ∈ m.dkeys t ts
  | none =>
    (m.getGroupKeys t ts).1 = [] ∨
      ∀ n : Name, n.toUri ∈ m.dkeyCache → entity <+: n →
        ∃ d ∈ m.dkeys t ts, entity <+: extractCertName d.name ∧
          (compare (extractCertName d.name).toUri n.toUri).isLE

/-- An answer where no D-KEY of the data type extends the entity is not transparent. -/
theorem not_transparent {t entity : Name} {ts : TimeStamp}
    (hsome : (m.getDKey t entity ts).1 ≠ none)
    (hkeys : ∀ d ∈ m.dkeys t ts, ¬ entity <+: extractCertName d.name) :
    ¬ Transparent t entity ts m := by
  unfold Transparent
  split
  · rename_i hnone
    exact absurd hnone hsome
  · rename_i d _
    exact fun h => hkeys d h.1 h.2

theorem transparent_of_getElem? (h : m.Sound) {t entity : Name} {ts : TimeStamp} {d : Data}
    (hd : m.dkeyCache[entity.toUri]? = some d) :
    Transparent t entity ts m ↔ d ∈ m.dkeys t ts := by
  have hname : extractCertName d.name = entity := Name.toUri_injective (h.filed _ d hd)
  have hfst : (m.getDKey t entity ts).1 = some d := by
    rw [getDKey_fst, if_neg (by rw [hd]; exact fun hnone => absurd hnone (by simp)),
      h.scanCache_of_getElem? hd]
    rfl
  unfold Transparent
  rw [hfst]
  dsimp only
  rw [hname]
  exact and_iff_left List.prefix_rfl

/-- The scan after the D-KEYs of the data type are filed finds one of them unless an older
entry comes first. -/
theorem transparent_scan_iff (h : m.Sound) {t entity : Name} {ts : TimeStamp} {d : Data} {k : Bytes}
    (hscan : (m.getEKey t ts).2.scanCache entity = some (k, d)) :
    d ∈ m.dkeys t ts ↔
      ∀ n : Name, n.toUri ∈ m.dkeyCache → entity <+: n →
        ∃ d ∈ m.dkeys t ts, entity <+: extractCertName d.name ∧
          (compare (extractCertName d.name).toUri n.toUri).isLE := by
  have hsound : (m.getEKey t ts).2.Sound := sound_step h (.getEKey t ts)
  have hcache : (m.getEKey t ts).2.dkeyCache = fileDKeys m.dkeyCache (m.dkeys t ts) :=
    dkeyCache_step (.getEKey t ts)
  obtain ⟨hd, hext, hleast⟩ := hsound.of_scanCache_eq_some hscan
  rw [hcache] at hd hleast
  constructor
  · intro hin n hn hpre
    exact ⟨d, hin, hext, hleast n (mem_fileDKeys_iff.mpr (Or.inr hn)) hpre⟩
  · intro hfirst
    rcases OrderedScan.getElem?_fileAll_eq_some hd with ⟨hin, -⟩ | ⟨hne, hold⟩
    · exact hin
    · -- an old entry was found: the D-KEY that should come first has the same name
      have hmem : (extractCertName d.name).toUri ∈ m.dkeyCache :=
        Std.ExtTreeMap.mem_iff_isSome_getElem?.mpr (by rw [hold]; rfl)
      obtain ⟨d', hd', hext', hle⟩ := hfirst _ hmem hext
      have hle' := hleast (extractCertName d'.name)
        (mem_fileDKeys_iff.mpr (Or.inl (List.mem_map_of_mem hd'))) hext'
      exact absurd
        (Std.LawfulEqCmp.compare_eq_iff_eq.mp (Std.OrientedCmp.isLE_antisymm hle hle'))
        (hne d' hd')

theorem Sound.transparent_iff (h : m.Sound) (t entity : Name) (ts : TimeStamp) :
    Transparent t entity ts m ↔ CacheAgrees t entity ts m := by
  unfold CacheAgrees
  cases hd : m.dkeyCache[entity.toUri]? with
  | some d => exact transparent_of_getElem? h hd
  | none =>
    dsimp only
    unfold Transparent
    rw [getDKey_fst, if_pos hd]
    by_cases hkeys : (m.getGroupKeys t ts).1 = []
    · have hdkeys : m.dkeys t ts = [] := by
        unfold dkeys
        rw [hkeys]
        rfl
      rw [if_pos hkeys, hdkeys]
      exact iff_of_true (fun d hd => absurd hd List.not_mem_nil) (Or.inl hkeys)
    · rw [if_neg hkeys, or_iff_right hkeys]
      have hsound : (m.getEKey t ts).2.Sound := sound_step h (.getEKey t ts)
      cases hscan : (m.getEKey t ts).2.scanCache entity with
      | none =>
        have hno := (hsound.scanCache_eq_none_iff entity).mp hscan
        rw [show (m.getEKey t ts).2.dkeyCache = fileDKeys m.dkeyCache (m.dkeys t ts) from
          dkeyCache_step (.getEKey t ts)] at hno
        refine iff_of_true (fun d hd => ?_) (fun n hn hpre => ?_)
        · exact hno _ (mem_fileDKeys_iff.mpr (Or.inl (List.mem_map_of_mem hd)))
        · exact absurd hpre (hno n (mem_fileDKeys_iff.mpr (Or.inr hn)))
      | some e =>
        obtain ⟨k, d⟩ := e
        have hext := (hsound.of_scanCache_eq_some hscan).2.1
        exact (and_iff_left hext).trans (transparent_scan_iff h hscan)

/-- **The cache is transparent exactly where it agrees with the keys.**  In every state a run
reaches, and for every lookup. -/
theorem transparent_run_iff (p : Name) (keysize : ℕ) (ops : List ManagerOp) (t entity : Name)
    (ts : TimeStamp) :
    Transparent t entity ts ((ofPrefix L p keysize).run ops) ↔
      CacheAgrees t entity ts ((ofPrefix L p keysize).run ops) :=
  (sound_run (sound_ofPrefix p keysize) ops).transparent_iff t entity ts

/-- Two entities with access to one data type each; the key of the first is read. -/
def readsOfHealth : List ManagerOp :=
  let alice : Name := [Component.of "alice"]
  let bob : Name := [Component.of "bob"]
  let now : TimeStamp := ⟨⟨2017, 7, 3⟩, 0⟩
  [.addIdentity alice (Certificate.issued alice), .addIdentity bob (Certificate.issued bob),
    .grantAccess alice [Component.of "health"] (defaultSchedule now),
    .grantAccess bob [Component.of "location"] (defaultSchedule now),
    .getDKey [Component.of "health"] alice now]

/-- An entity that has no access to a data type is answered with its key of another one. -/
theorem lookup_serves_key_of_other_dataType :
    ¬ ∀ L : GroupLib, L.IssuesKeys → L.KeepsMembers → ∀ (p : Name) (keysize : ℕ)
      (ops : List ManagerOp),
      (∀ op ∈ ops, op.withdraws = false) →
      ∀ (t entity : Name) (ts : TimeStamp),
        Transparent t entity ts ((ofPrefix L p keysize).run ops) := by
  intro h
  have hops : ∀ op ∈ readsOfHealth, op.withdraws = false := by decide +kernel
  have hnot : ¬ Transparent [Component.of "location"] [Component.of "alice"] ⟨⟨2017, 7, 3⟩, 0⟩
      ((ofPrefix memoryGroups [Component.of "manager"] 2048).run readsOfHealth) :=
    not_transparent (by decide +kernel) (by decide +kernel)
  exact hnot (h _ memoryGroups_issuesKeys memoryGroups_keepsMembers _ _ _ hops _ _ _)

end Manager

end Nacapp
