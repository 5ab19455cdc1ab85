import Nacapp.Manager.KeyCache

/-!
# Whom a D-KEY is for

`Manager::getDKey` hands out the first entry of the cache, in the order of URIs, whose key
the name of the entity is a prefix of.  An identity whose name extends the entity's has
certificates with that property too, so the key handed out may be someone else's.

* `IsNameOf`: the names that are the entity's own.
* `FirstScanned`: the name at which a lookup ends, told from the cache, the D-KEYs of the group
  at the timeslot and the entity.
* `Sound.getDKey_named_iff`: the certificate name in the answer is that name.
* `addressed_run_iff`: when the answer is the entity's own, in any state a run reaches.
-/

namespace Nacapp

/-- The name of a key is `<identity>/KEY/<key-id>`. -/
def isKeyName (n : Name) : Bool :=
  decide (2 ≤ n.length) && (n.drop (n.length - 2)).head? == some (Component.of "KEY")

/-- The name is the identity itself, or a certificate or key name with this identity part. -/
def IsNameOf (identity n : Name) : Prop :=
  n = identity ∨ (isCertificateName n = true ∧ n.dropSuffix 4 = identity) ∨
    (isKeyName n = true ∧ n.dropSuffix 2 = identity)

instance (identity n : Name) : Decidable (IsNameOf identity n) :=
  inferInstanceAs (Decidable (_ ∨ _ ∨ _))

namespace Manager

variable {L : GroupLib} {m : Manager L}

/-! ## The name a scan ends at -/

/-- The scan ends at the first name of the cache that extends the entity. -/
theorem Sound.scanCache_named_iff (h : m.Sound) (entity n : Name) :
    (∃ e, m.scanCache entity = some e ∧ extractCertName e.2.name = n) ↔
      n.toUri ∈ m.dkeyCache ∧ entity <+: n ∧
        ∀ n' : Name, n'.toUri ∈ m.dkeyCache → entity <+: n' →
          (compare n.toUri n'.toUri).isLE := by
  constructor
  · rintro ⟨⟨k, d⟩, hscan, rfl⟩
    obtain ⟨hd, hext, hfirst⟩ := h.of_scanCache_eq_some hscan
    exact ⟨Std.ExtTreeMap.mem_iff_isSome_getElem?.mpr (by rw [hd]; rfl), hext, hfirst⟩
  · rintro ⟨hmem, hext, hfirst⟩
    cases hscan : m.scanCache entity with
    | none => exact absurd hext ((h.scanCache_eq_none_iff entity).mp hscan n hmem)
    | some e =>
      obtain ⟨k, d⟩ := e
      obtain ⟨hd, hext', hfirst'⟩ := h.of_scanCache_eq_some hscan
      have hmem' : (extractCertName d.name).toUri ∈ m.dkeyCache :=
        Std.ExtTreeMap.mem_iff_isSome_getElem?.mpr (by rw [hd]; rfl)
      refine ⟨(k, d), rfl, Name.toUri_injective ?_⟩
      exact Std.LawfulEqCmp.compare_eq_iff_eq.mp
        (Std.OrientedCmp.isLE_antisymm (hfirst' n hmem hext) (hfirst _ hmem' hext'))

/-! ## The name a lookup ends at -/

variable (m)

/-- The certificate names in the D-KEYs that the group of the data type makes at the timeslot. -/
def dkeyCertNames (t : Name) (ts : TimeStamp) : List Name :=
  (m.dkeys t ts).map fun d => extractCertName d.name

/-- The names a lookup looks at: those of the cache, and, unless the entity is one of them,
those under which the D-KEYs of the data type are filed. -/
def Scanned (t entity : Name) (ts : TimeStamp) (n : Name) : Prop :=
  n.toUri ∈ m.dkeyCache ∨ entity.toUri ∉ m.dkeyCache ∧ n ∈ m.dkeyCertNames t ts

/-- The first of these names, in the order of URIs, that extends the entity.  Where the
entity is no key of the cache, a data type without keys ends the lookup before. -/
structure FirstScanned (t entity : Name) (ts : TimeStamp) (n : Name) : Prop where
  served : entity.toUri ∈ m.dkeyCache ∨ (m.getGroupKeys t ts).1 ≠ []
  scanned : m.Scanned t entity ts n
  extends_entity : entity <+: n
  first : ∀ n', m.Scanned t entity ts n' → entity <+: n' → (compare n.toUri n'.toUri).isLE

variable {m}

theorem getElem?_dkeyCache_eq_none_iff {k : Bytes} :
    m.dkeyCache[k]? = none ↔ k ∉ m.dkeyCache := by
  rw [Std.ExtTreeMap.mem_iff_isSome_getElem?, Option.not_isSome_iff_eq_none]

theorem mem_dkeyCache_getDKey {t entity : Name} {ts : TimeStamp} {n : Name} :
    n.toUri ∈ (m.getDKey t entity ts).2.dkeyCache ↔ m.Scanned t entity ts n := by
  have hstep : (m.getDKey t entity ts).2.dkeyCache =
      fileDKeys m.dkeyCache (m.dkeysRead (.getDKey t entity ts)) :=
    dkeyCache_step (m := m) (.getDKey t entity ts)
  rw [Scanned, or_comm, hstep, mem_fileDKeys_iff]
  refine or_congr_left ?_
  rw [dkeysRead]
  by_cases hmem : entity.toUri ∈ m.dkeyCache
  · have hcached : ¬ m.dkeyCache[entity.toUri]? = none := by
      rwa [getElem?_dkeyCache_eq_none_iff, not_not]
    rw [if_neg hcached]
    exact iff_of_false List.not_mem_nil (fun h => h.1 hmem)
  · rw [if_pos (getElem?_dkeyCache_eq_none_iff.mpr hmem)]
    exact (and_iff_right hmem).symm

/-- A lookup is a scan of the cache it leaves, unless it ends before. -/
theorem getDKey_fst_eq_scan {t entity : Name} {ts : TimeStamp}
    (hserved : entity.toUri ∈ m.dkeyCache ∨ (m.getGroupKeys t ts).1 ≠ []) :
    (m.getDKey t entity ts).1 = ((m.getDKey t entity ts).2.scanCache entity).map Prod.snd := by
  rw [getDKey_fst, getDKey_snd]
  split
  · rename_i hnone
    have hkeys := hserved.resolve_left (getElem?_dkeyCache_eq_none_iff.mp hnone)
    rw [if_neg hkeys]
  · rfl

theorem getDKey_fst_eq_none {t entity : Name} {ts : TimeStamp}
    (hserved : ¬ (entity.toUri ∈ m.dkeyCache ∨ (m.getGroupKeys t ts).1 ≠ [])) :
    (m.getDKey t entity ts).1 = none := by
  rw [not_or, not_not] at hserved
  rw [getDKey_fst, if_pos (getElem?_dkeyCache_eq_none_iff.mpr hserved.1), if_pos hserved.2]

/-- **The certificate name in the answer of a lookup.** -/
theorem Sound.getDKey_named_iff (h : m.Sound) {t entity : Name}
    {ts : TimeStamp} {n : Name} :
    (∃ d, (m.getDKey t entity ts).1 = some d ∧ extractCertName d.name = n) ↔
      m.FirstScanned t entity ts n := by
  by_cases hserved : entity.toUri ∈ m.dkeyCache ∨ (m.getGroupKeys t ts).1 ≠ []
  · have hsound : (m.getDKey t entity ts).2.Sound := sound_step h (.getDKey t entity ts)
    have hscan := hsound.scanCache_named_iff entity n
    simp only [mem_dkeyCache_getDKey] at hscan
    rw [getDKey_fst_eq_scan hserved]
    constructor
    · rintro ⟨d, hd, hname⟩
      obtain ⟨e, he, rfl⟩ := Option.map_eq_some_iff.mp hd
      obtain ⟨hmem, hext, hfirst⟩ := hscan.mp ⟨e, he, hname⟩
      exact ⟨hserved, hmem, hext, hfirst⟩
    · intro hn
      obtain ⟨e, he, hname⟩ := hscan.mpr ⟨hn.scanned, hn.extends_entity, hn.first⟩
      exact ⟨e.2, by rw [he]; rfl, hname⟩
  · rw [getDKey_fst_eq_none hserved]
    constructor
    · rintro ⟨d, hd, -⟩
      exact absurd hd (by simp)
    · exact fun hn => absurd hn.served hserved

/-- An entity that is a key of the cache is itself the first name. -/
theorem FirstScanned.eq_of_mem {t entity : Name} {ts : TimeStamp} {n : Name}
    (hn : m.FirstScanned t entity ts n) (hmem : entity.toUri ∈ m.dkeyCache) : n = entity := by
  have hle := hn.first entity (Or.inl hmem) List.prefix_rfl
  exact Name.toUri_injective (Std.LawfulEqCmp.compare_eq_iff_eq.mp
    (Std.OrientedCmp.isLE_antisymm hle (Name.isLE_toUri_of_prefix hn.extends_entity)))

/-! ## The entity's own keys -/

/-- The answer of a lookup, if there is one, is a key for the entity. -/
def Addressed (t entity : Name) (ts : TimeStamp) (m : Manager L) : Prop :=
  ∀ d, (m.getDKey t entity ts).1 = some d → IsNameOf entity (extractCertName d.name)

/-- The entity is a key of the cache, or the data type has no keys at the timeslot, or of the
names of the cache and of the D-KEYs of the data type that extend the entity the first is its
own. -/
def OwnNameFirst (t entity : Name) (ts : TimeStamp) (m : Manager L) : Prop :=
  entity.toUri ∈ m.dkeyCache ∨ (m.getGroupKeys t ts).1 = [] ∨
    ∀ n, (n.toUri ∈ m.dkeyCache ∨ n ∈ m.dkeyCertNames t ts) → entity <+: n →
      (∀ n', n'.toUri ∈ m.dkeyCache ∨ n' ∈ m.dkeyCertNames t ts → entity <+: n' →
        (compare n.toUri n'.toUri).isLE) →
      IsNameOf entity n

theorem Sound.addressed_iff_ownNameFirst (h : m.Sound) (t entity : Name) (ts : TimeStamp) :
    Addressed t entity ts m ↔ OwnNameFirst t entity ts m := by
  have hfirst : Addressed t entity ts m ↔
      ∀ n, m.FirstScanned t entity ts n → IsNameOf entity n := by
    constructor
    · intro hall n hn
      obtain ⟨d, hd, rfl⟩ := h.getDKey_named_iff.mpr hn
      exact hall d hd
    · exact fun hall d hd => hall _ (h.getDKey_named_iff.mp ⟨d, hd, rfl⟩)
  rw [hfirst, OwnNameFirst]
  by_cases hmem : entity.toUri ∈ m.dkeyCache
  · exact iff_of_true (fun n hn => Or.inl (hn.eq_of_mem hmem)) (Or.inl hmem)
  rw [or_iff_right hmem]
  have hscanned : ∀ n, m.Scanned t entity ts n ↔
      n.toUri ∈ m.dkeyCache ∨ n ∈ m.dkeyCertNames t ts :=
    fun n => or_congr_right (and_iff_right hmem)
  by_cases hkeys : (m.getGroupKeys t ts).1 = []
  · exact iff_of_true (fun n hn => absurd hkeys (hn.served.resolve_left hmem)) (Or.inl hkeys)
  rw [or_iff_right hkeys]
  simp only [← hscanned]
  constructor
  · exact fun hall n hn hext hle => hall n ⟨Or.inr hkeys, hn, hext, hle⟩
  · exact fun hall n hn => hall n hn.scanned hn.extends_entity hn.first

/-- **A D-KEY goes to the entity it is addressed to** exactly when the first name that
extends the entity is its own.  In every state a run reaches, and for every lookup. -/
theorem addressed_run_iff (p : Name) (keysize : ℕ) (ops : List ManagerOp) (t entity : Name)
    (ts : TimeStamp) :
    Addressed t entity ts ((ofPrefix L p keysize).run ops) ↔
      OwnNameFirst t entity ts ((ofPrefix L p keysize).run ops) :=
  (sound_run (sound_ofPrefix p keysize) ops).addressed_iff_ownNameFirst t entity ts

/-- A grant to `/alice/phone` alone. -/
def grantToPhone : List ManagerOp :=
  let phone : Name := [Component.of "alice", Component.of "phone"]
  [.addIdentity phone (Certificate.issued phone),
    .grantAccess phone [Component.of "health"] (defaultSchedule ⟨⟨2017, 7, 3⟩, 0⟩)]

/-- The certificate of `/alice/phone`. -/
def phoneCertName : Name :=
  (Certificate.issued [Component.of "alice", Component.of "phone"]).name

/-- `/alice`, which was granted nothing, is answered with the key of `/alice/phone`. -/
theorem alice_answered_with_key_of_phone :
    ¬ ∀ L : GroupLib, L.IssuesKeys → L.KeepsMembers →
      ∀ (p : Name) (keysize : ℕ) (ops : List ManagerOp) (t entity : Name) (ts : TimeStamp),
        Addressed t entity ts ((ofPrefix L p keysize).run ops) := by
  intro h
  have haddressed := h memoryGroups memoryGroups_issuesKeys memoryGroups_keepsMembers
    [Component.of "manager"] 2048 grantToPhone [Component.of "health"] [Component.of "alice"]
    ⟨⟨2017, 7, 3⟩, 0⟩
  have hname : (((ofPrefix memoryGroups [Component.of "manager"] 2048).run grantToPhone).getDKey
      [Component.of "health"] [Component.of "alice"] ⟨⟨2017, 7, 3⟩, 0⟩).1.map
        (fun d => extractCertName d.name) = some phoneCertName := by decide +kernel
  obtain ⟨d, hd, hcert⟩ := Option.map_eq_some_iff.mp hname
  have hown := haddressed d hd
  rw [hcert] at hown
  exact absurd hown (by decide)

end Manager

end Nacapp
