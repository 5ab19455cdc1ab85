import Nacapp.Manager.Runs

/-!
# Revoking access

`Manager::revokeAccess` "revokes entity access to dataType".  It removes the member from
the group of the data type and drops the group; it does not touch the D-KEY cache.

What an entity can still read afterwards is a question about the whole run, since the
cache is filled by key reads for any data type.  `getDKey_eq_none_iff` says when a lookup
fails, in any sound manager, and `revoked_denied_iff` what that means in a run: the lookups
of a revoked entity fail as long as no key read filed a D-KEY under a name that extends
it.  What a revocation does to the other members is `revokesOnly_iff`.
-/

namespace Nacapp

namespace Manager

variable {L : GroupLib} {m : Manager L}

/-! ## When a lookup fails -/

/-- The keys of the cache after the keys of a data type were read. -/
theorem mem_dkeyCache_getEKey (hL : L.IssuesKeys) {t n : Name} {ts : TimeStamp} :
    n.toUri ∈ (m.getEKey t ts).2.dkeyCache ↔ n ∈ m.filedNames t ts ∨ n.toUri ∈ m.dkeyCache :=
  @mem_dkeyCache_step L m hL (.getEKey t ts) n

/-- **When `getDKey` fails**: the entity is no key of the cache, and either the data type
has no group, or no name in the cache and no member of the group extends the entity. -/
theorem getDKey_eq_none_iff (hL : L.IssuesKeys) (h : m.Sound) (t entity : Name) (ts : TimeStamp) :
    (m.getDKey t entity ts).1 = none ↔
      entity.toUri ∉ m.dkeyCache ∧
        (m.getGroup t = none ∨
          (∀ n : Name, n.toUri ∈ m.dkeyCache → ¬ entity <+: n) ∧
            ∀ n ∈ m.filedNames t ts, ¬ entity <+: n) := by
  have hkey : m.dkeyCache[entity.toUri]? = none ↔ entity.toUri ∉ m.dkeyCache := by
    rw [Std.ExtTreeMap.mem_iff_isSome_getElem?, Bool.not_eq_true, Option.isSome_eq_false_iff,
      Option.isNone_iff_eq_none]
  rw [getDKey_fst]
  by_cases hmem : entity.toUri ∈ m.dkeyCache
  · rw [if_neg fun hnone => hkey.mp hnone hmem, Option.map_eq_none_iff, h.scanCache_eq_none_iff]
    constructor
    · intro hno
      exact absurd List.prefix_rfl (hno entity hmem)
    · rintro ⟨hnot, -⟩
      exact absurd hmem hnot
  · rw [if_pos (hkey.mpr hmem)]
    by_cases hg : m.getGroup t = none
    · rw [if_pos ((getGroupKeys_eq_nil_iff hL t ts).mpr hg)]
      exact ⟨fun _ => ⟨hmem, Or.inl hg⟩, fun _ => rfl⟩
    · rw [if_neg fun hnil => hg ((getGroupKeys_eq_nil_iff hL t ts).mp hnil),
        Option.map_eq_none_iff,
        (show (m.getEKey t ts).2.Sound from sound_step h (.getEKey t ts)).scanCache_eq_none_iff]
      simp only [mem_dkeyCache_getEKey hL]
      constructor
      · intro hno
        exact ⟨hmem, Or.inr ⟨fun n hn => hno n (Or.inr hn), fun n hn => hno n (Or.inl hn)⟩⟩
      · rintro ⟨-, hnone | ⟨hcache, hfiled⟩⟩ n (hn | hn)
        · exact absurd hnone hg
        · exact absurd hnone hg
        · exact hfiled n hn
        · exact hcache n hn

/-! ## Revoked entities -/

/-- The call files no D-KEY under a name that extends the entity. -/
def FilesNothingFor (entity : Name) (m : Manager L) (op : ManagerOp) : Prop :=
  ∀ n ∈ m.filedBy op, ¬ entity <+: n

/-- The D-KEYs of the data type for a certificate of this name are filed under names that do not
extend the entity, in whatever interval the library makes them. -/
def FiledApart (entity t : Name) (m : Manager L) (certName : Name) : Prop :=
  ∀ c db ts, ¬ entity <+:
    extractCertName (dkeyName m.managerPrefix t (L.interval c db ts) certName)

/-- When the call grants the data type to another entity, the D-KEYs for the certificate of
that entity are filed under names that do not extend the entity. -/
def GrantsNothingFor (entity t : Name) (m : Manager L) (op : ManagerOp) : Prop :=
  ∀ other ni cert, other ≠ entity → op = .grantAccess other t ni →
    m.getIdentity other = some cert → m.FiledApart entity t cert.name

/-- The D-KEYs for a member of the group are filed under names that do not extend the
entity. -/
def MembersFileNothingFor (entity t : Name) (m : Manager L) : Prop :=
  ∀ x ∈ m.membersOf t, m.FiledApart entity t x.certName

theorem managerPrefix_step (op : ManagerOp) : (m.step op).managerPrefix = m.managerPrefix :=
  congrArg GroupConfig.managerPrefix (groupConfig_step (m := m) op [])

theorem exists_of_mem_filedNames (h : m.Sound) {t n : Name} {ts : TimeStamp}
    (hn : n ∈ m.filedNames t ts) :
    ∃ x ∈ m.membersOf t, ∃ c db ts,
      n = extractCertName (dkeyName m.managerPrefix t (L.interval c db ts) x.certName) := by
  unfold filedNames at hn
  cases hg : m.getGroup t with
  | none =>
    rw [hg] at hn
    exact absurd hn List.not_mem_nil
  | some g =>
    rw [hg] at hn
    obtain ⟨x, hx, rfl⟩ := List.mem_map.mp hn
    refine ⟨x, by rwa [membersOf_of_getGroup hg], g.config, g.db, ts, ?_⟩
    rw [h.config t g hg]
    rfl

/-- A call that grants nothing for the entity leaves members of that kind only. -/
theorem membersFileNothingFor_step (hL : L.KeepsMembers) {entity t : Name} {op : ManagerOp}
    (hop : ∀ ni, op ≠ .grantAccess entity t ni) (hgrant : GrantsNothingFor entity t m op)
    (h : MembersFileNothingFor entity t m) : MembersFileNothingFor entity t (m.step op) := by
  intro x hx
  rw [FiledApart, managerPrefix_step]
  rcases certName_of_mem_membersOf_step hL hx with
    ⟨y, hy, hname⟩ | ⟨other, ni, cert, rfl, hcert, hname⟩
  · rw [← hname]
    exact h y hy
  · rw [hname]
    refine hgrant other ni cert ?_ rfl hcert
    rintro rfl
    exact hop ni rfl

/-- The group starts empty at a revocation, and what is granted afterwards brings in no member
that matters. -/
theorem membersFileNothingFor_revoked (hL : L.KeepsMembers) {entity t : Name} (m : Manager L)
    (pre : List ManagerOp) {post : List ManagerOp}
    (hpost : ∀ op ∈ post, ∀ ni, op ≠ .grantAccess entity t ni)
    (hgrant : Transitions.StepsMeet step (GrantsNothingFor entity t)
      (m.run (pre ++ [.revokeAccess entity t])) post) :
    MembersFileNothingFor entity t (m.run (pre ++ .revokeAccess entity t :: post)) := by
  have hrevoked : MembersFileNothingFor entity t (m.run (pre ++ [.revokeAccess entity t])) := by
    intro x hx
    have hlast : m.run (pre ++ [.revokeAccess entity t]) =
        (m.run pre).revokeAccess entity t := Transitions.exec_append step m pre _
    rw [hlast, membersOf_revokeAccess_self] at hx
    exact absurd hx List.not_mem_nil
  have hsplit : m.run (pre ++ .revokeAccess entity t :: post) =
      (m.run (pre ++ [.revokeAccess entity t])).run post := by
    unfold run
    rw [← Transitions.exec_append, List.append_assoc]
    rfl
  rw [hsplit]
  exact Transitions.invariant_of_stepsMeet
    (fun m op hop hgrant h => membersFileNothingFor_step hL (hpost op hop) hgrant h)
    hgrant hrevoked

theorem dkeyCache_ofPrefix {p : Name} {keysize : ℕ} {n : Name} :
    n.toUri ∉ (ofPrefix L p keysize).dkeyCache := Std.ExtTreeMap.not_mem_empty

/-- **Revoked, as far as the key reads allow.**  Take any run in which the access of the
entity to the data type is revoked and not granted again.  `getDKey` then fails for every
timeslot exactly when no key read filed a D-KEY under the entity itself, and the data type
either has no group or neither a filed name nor a member of the group extends the entity.

In particular it fails when no key read of the run files a D-KEY under a name that extends
the entity and no later grant of the data type is to an entity with such a certificate. -/
theorem revoked_denied_iff (hI : L.IssuesKeys) (hK : L.KeepsMembers) (p : Name) (keysize : ℕ)
    (entity t : Name) (pre post : List ManagerOp)
    (hpost : ∀ op ∈ post, ∀ ni, op ≠ .grantAccess entity t ni) :
    let start := ofPrefix L p keysize
    let ops := pre ++ .revokeAccess entity t :: post
    ((∀ ts, ((start.run ops).getDKey t entity ts).1 = none) ↔
      entity ∉ start.filedIn ops ∧
        ((start.run ops).getGroup t = none ∨
          (∀ n ∈ start.filedIn ops, ¬ entity <+: n) ∧
            ∀ ts, ∀ n ∈ (start.run ops).filedNames t ts, ¬ entity <+: n)) ∧
    (Transitions.StepsMeet step (FilesNothingFor entity) start ops →
      Transitions.StepsMeet step (GrantsNothingFor entity t)
        (start.run (pre ++ [.revokeAccess entity t])) post →
      ∀ ts, ((start.run ops).getDKey t entity ts).1 = none) := by
  intro start ops
  have hsound : ∀ l, (start.run l).Sound := sound_run (sound_ofPrefix p keysize)
  have hcache : ∀ n : Name, n.toUri ∈ (start.run ops).dkeyCache ↔ n ∈ start.filedIn ops := by
    intro n
    rw [mem_dkeyCache_run hI]
    exact or_iff_left dkeyCache_ofPrefix
  have hnone := fun ts => getDKey_eq_none_iff hI (hsound ops) t entity ts
  simp only [hcache] at hnone
  simp only [hnone]
  constructor
  · have : Nonempty TimeStamp := ⟨⟨⟨1970, 1, 1⟩, 0⟩⟩
    simp only [forall_and, forall_const, forall_or_left]
  · intro hfile hgrant ts
    have hfiled : ∀ n ∈ start.filedIn ops, ¬ entity <+: n :=
      (Transitions.forall_mem_emitted_iff step filedBy).mpr hfile
    have hmembers : MembersFileNothingFor entity t (start.run ops) :=
      membersFileNothingFor_revoked hK start pre hpost hgrant
    refine ⟨fun hmem => hfiled entity hmem List.prefix_rfl, Or.inr ⟨hfiled, ?_⟩⟩
    intro n hn
    obtain ⟨x, hx, c, db, ts, rfl⟩ := exists_of_mem_filedNames (hsound ops) hn
    exact hmembers x hx c db ts

/-- The calls before the revocation: nothing is read. -/
def grantToAlice : List ManagerOp :=
  [.addIdentity [Component.of "alice"] (Certificate.issued [Component.of "alice"]),
    .addIdentity [Component.of "bob"] (Certificate.issued [Component.of "bob"]),
    .grantAccess [Component.of "alice"] [Component.of "health"]
      (defaultSchedule ⟨⟨2017, 7, 3⟩, 0⟩)]

/-- The calls after it: another entity is granted the data type, and keys are read. -/
def readsAfterGrantToBob : List ManagerOp :=
  [.grantAccess [Component.of "bob"] [Component.of "health"] (defaultSchedule ⟨⟨2017, 7, 3⟩, 0⟩),
    .getDKey [Component.of "health"] [Component.of "bob"] ⟨⟨2017, 7, 4⟩, 0⟩,
    .getDKey [Component.of "health"] [Component.of "alice"] ⟨⟨2017, 7, 4⟩, 0⟩]

/-- With no read before the revocation the entity is denied, whatever is read afterwards and
granted to somebody else. -/
theorem revoked_denied_without_reads :
    (((ofPrefix memoryGroups [Component.of "manager"] 2048).run
      (grantToAlice ++ .revokeAccess [Component.of "alice"] [Component.of "health"] ::
        readsAfterGrantToBob)).getDKey [Component.of "health"] [Component.of "alice"]
          ⟨⟨2017, 7, 4⟩, 0⟩).1 = none := by
  have hfiles {m : Manager memoryGroups} {op : ManagerOp}
      (h : ∀ n ∈ m.filedBy op, ¬ [Component.of "alice"] <+: n) :
      FilesNothingFor [Component.of "alice"] m op := h
  have hread {m : Manager memoryGroups} {t entity : Name} {ts : TimeStamp} :
      GrantsNothingFor [Component.of "alice"] [Component.of "health"] m (.getDKey t entity ts) :=
    fun _ _ _ _ h => ManagerOp.noConfusion h
  refine (revoked_denied_iff memoryGroups_issuesKeys memoryGroups_keepsMembers
    [Component.of "manager"] 2048 [Component.of "alice"] [Component.of "health"] grantToAlice
    readsAfterGrantToBob ?_).2 ?_ ⟨?_, hread, hread, trivial⟩ _
  · intro op hop ni
    rcases List.mem_cons.mp hop with rfl | hop
    · exact fun h => absurd (ManagerOp.grantAccess.inj h).1 (by decide)
    · rcases List.mem_pair.mp hop with rfl | rfl
      · exact ManagerOp.noConfusion
      · exact ManagerOp.noConfusion
  · exact ⟨hfiles (by decide +kernel), hfiles (by decide +kernel), hfiles (by decide +kernel),
      hfiles (by decide +kernel), hfiles (by decide +kernel), hfiles (by decide +kernel),
      hfiles (by decide +kernel), trivial⟩
  · generalize hm : (ofPrefix memoryGroups [Component.of "manager"] 2048).run _ = m
    rintro other ni cert - heq hcert c db ts
    obtain ⟨rfl, -, -⟩ := ManagerOp.grantAccess.inj heq
    have hbob : m.getIdentity [Component.of "bob"] =
        some ⟨Certificate.issued [Component.of "bob"], by decide⟩ := by
      rw [← hm]
      decide +kernel
    have hprefix : m.managerPrefix = [Component.of "manager"] := by
      rw [← hm]
      decide +kernel
    rw [hbob] at hcert
    rw [← Option.some.inj hcert, hprefix, extractCertName,
      extractSuffix_dkeyName_memoryGroups (by decide) (by decide)]
    decide

/-- The revoked entity reads its key from the cache: its key was read while it had access,
and the data type was granted to somebody else afterwards. -/
theorem revoked_entity_reads_cached_key :
    ¬ ∀ L : GroupLib, L.IssuesKeys → L.KeepsMembers → ∀ (p : Name) (keysize : ℕ)
      (entity t : Name) (pre post : List ManagerOp),
      (∀ op ∈ post, ∀ ni, op ≠ .grantAccess entity t ni) → ∀ ts,
        (((ofPrefix L p keysize).run (pre ++ .revokeAccess entity t :: post)).getDKey
          t entity ts).1 = none := by
  intro h
  let alice : Name := [Component.of "alice"]
  let bob : Name := [Component.of "bob"]
  let t : Name := [Component.of "health"]
  let ts : TimeStamp := ⟨⟨2017, 7, 3⟩, 0⟩
  have hnone := h memoryGroups memoryGroups_issuesKeys memoryGroups_keepsMembers
    [Component.of "manager"] 2048 alice t
    [.addIdentity alice (Certificate.issued alice), .addIdentity bob (Certificate.issued bob),
      .grantAccess alice t (defaultSchedule ts), .getDKey t alice ts]
    [.grantAccess bob t (defaultSchedule ts)] (by
      intro op hop ni heq
      rw [List.mem_singleton.mp hop] at heq
      exact absurd (ManagerOp.grantAccess.inj heq).1 (by decide)) ts
  exact absurd hnone (by decide)

/-! ## The other members -/

/-- The revocation touches nobody else: the members of the data type, with their schedules,
are those before it without the entity, and the other groups are as they were. -/
def RevokesOnly (entity t : Name) (m : Manager L) : Prop :=
  (m.revokeAccess entity t).membersOf t =
      (m.membersOf t).filter (fun x => x.identity ≠ entity) ∧
    ∀ t', t' ≠ t → (m.revokeAccess entity t).getGroup t' = m.getGroup t'

/-- **A revocation ends the access of every member.**  In a state reached by any run it
touches nobody else exactly when the entity is the only member the data type has. -/
theorem revokesOnly_iff (p : Name) (keysize : ℕ) (ops : List ManagerOp) (entity t : Name) :
    RevokesOnly entity t ((ofPrefix L p keysize).run ops) ↔
      ∀ x ∈ ((ofPrefix L p keysize).run ops).membersOf t, x.identity = entity := by
  unfold RevokesOnly
  rw [membersOf_revokeAccess_self, eq_comm, List.filter_eq_nil_iff]
  constructor
  · rintro ⟨hmembers, -⟩ x hx
    by_contra hne
    exact hmembers x hx (decide_eq_true hne)
  · intro honly
    refine ⟨fun x hx hne => of_decide_eq_true hne (honly x hx), fun t' ht' => ?_⟩
    rw [revokeAccess_eq, getGroup_deleteGroup_of_ne _ (Ne.symm ht')]

/-- With two members, the one that stays is lost with the one that is revoked. -/
theorem revoking_one_of_two_removes_both :
    ¬ ∀ L : GroupLib, L.KeepsMembers → ∀ (p : Name) (keysize : ℕ) (ops : List ManagerOp)
      (entity t : Name), RevokesOnly entity t ((ofPrefix L p keysize).run ops) := by
  intro h
  let alice : Name := [Component.of "alice"]
  let bob : Name := [Component.of "bob"]
  let t : Name := [Component.of "health"]
  let ts : TimeStamp := ⟨⟨2017, 7, 3⟩, 0⟩
  have hmembers := (h memoryGroups memoryGroups_keepsMembers [Component.of "manager"] 2048
    [.addIdentity alice (Certificate.issued alice), .addIdentity bob (Certificate.issued bob),
      .grantAccess alice t (defaultSchedule ts), .grantAccess bob t (defaultSchedule ts)]
    alice t).1
  exact absurd hmembers (by decide)

end Manager

end Nacapp
