import Nacapp.Manager.CallHistory

/-!
# Where D-KEYs come from

`getDKey` hands out whatever the cache has for a name, and the cache is filled by every key read
of the past, for any data type.  So what a D-KEY that is handed out was made for cannot be read
off the state in which it is handed out.

* `Issued`: a D-KEY that the group of a data type made for one of its members, when its keys were
  read.
* `issued_of_mem_cache`: every cached D-KEY was issued by a call of the run.
* `getDKey_issued_after_grant`: every D-KEY that is handed out was issued for a member that had
  been granted the data type, with no revocation of the data type between the grant and the read
  it was issued in.
-/

namespace Nacapp

open Transitions

namespace Manager

variable {L : GroupLib}

/-! ## Issuing -/

/-- The group of the data type makes the D-KEY for a member, when its keys are read. -/
structure Issued (m : Manager L) (t : Name) (ts : TimeStamp) (x : Member) (d : Data) : Prop where
  member : x ∈ m.membersOf t
  key : d ∈ m.dkeys t ts
  name : ∃ interval, d.name = dkeyName m.managerPrefix t interval x.certName

/-- A D-KEY among the keys of a data type was made for one of its members. -/
theorem exists_issued_of_mem_dkeys (hF : L.KeysForMembers) {m : Manager L} (h : m.Sound) {t : Name}
    {ts : TimeStamp} {d : Data} (hd : d ∈ m.dkeys t ts) : ∃ x, m.Issued t ts x d := by
  have hkeys := hd
  unfold dkeys getGroupKeys at hkeys
  cases hg : m.getGroup t with
  | none =>
    rw [hg] at hkeys
    exact absurd hkeys List.not_mem_nil
  | some g =>
    rw [hg] at hkeys
    have hconfig : g.config = m.groupConfig t := h.config t g hg
    obtain ⟨x, hx, hname⟩ := hF g.config g.db ts false d hkeys
    refine ⟨x, by rwa [membersOf_of_getGroup hg], hd, L.interval g.config g.db ts, ?_⟩
    rw [hname, hconfig]
    rfl

/-- A call of the run issued the D-KEY. -/
def IssuedIn (m : Manager L) (ops : List ManagerOp) (d : Data) : Prop :=
  ∃ pre op post t ts x, ops = pre ++ op :: post ∧ d ∈ (m.run pre).dkeysRead op ∧
    (m.run pre).Issued t ts x d

theorem IssuedIn.append {m : Manager L} {ops : List ManagerOp} {d : Data} (h : m.IssuedIn ops d)
    (ops' : List ManagerOp) : m.IssuedIn (ops ++ ops') d := by
  obtain ⟨pre, op, post, t, ts, x, rfl, hread, hissued⟩ := h
  exact ⟨pre, op, post ++ ops', t, ts, x, by simp, hread, hissued⟩

/-- A D-KEY that a call reads is one of the keys of a data type. -/
theorem mem_dkeys_of_mem_dkeysRead {m : Manager L} {op : ManagerOp} {d : Data}
    (hd : d ∈ m.dkeysRead op) : ∃ t ts, d ∈ m.dkeys t ts := by
  cases op with
  | getEKey t ts => exact ⟨t, ts, hd⟩
  | getDKey t entity ts =>
    rw [dkeysRead] at hd
    split at hd
    · exact ⟨t, ts, hd⟩
    · exact absurd hd List.not_mem_nil
  | _ => exact absurd hd List.not_mem_nil

/-- **Every cached D-KEY was issued** by a call of the run. -/
theorem issued_of_mem_cache (hF : L.KeysForMembers) (p : Name) (keysize : ℕ) (ops : List ManagerOp)
    {k : Bytes} {d : Data} (hd : ((ofPrefix L p keysize).run ops).dkeyCache[k]? = some d) :
    (ofPrefix L p keysize).IssuedIn ops d := by
  induction ops using List.reverseRecOn with
  | nil =>
    have hnone : (ofPrefix L p keysize).dkeyCache[k]? = none := Std.ExtTreeMap.getElem?_empty
    exact absurd (hnone.symm.trans hd) (by simp)
  | append_singleton ops op ih =>
    have hrun : (ofPrefix L p keysize).run (ops ++ [op]) =
        ((ofPrefix L p keysize).run ops).step op := exec_append step _ ops [op]
    rw [hrun, dkeyCache_step] at hd
    rcases OrderedScan.getElem?_fileAll_eq_some hd with ⟨hread, -⟩ | ⟨-, hold⟩
    · obtain ⟨t, ts, hkey⟩ := mem_dkeys_of_mem_dkeysRead hread
      have hsound := sound_run (sound_ofPrefix (L := L) p keysize) ops
      obtain ⟨x, hissued⟩ := exists_issued_of_mem_dkeys hF hsound hkey
      exact ⟨ops, op, [], t, ts, x, rfl, hread, hissued⟩
    · exact (ih hold).append [op]

/-! ## Handing out -/

/-- What `getDKey` hands out is in the cache it leaves, under a name that extends the entity. -/
theorem mem_cache_of_getDKey {m : Manager L} (h : m.Sound) {t entity : Name} {ts : TimeStamp}
    {d : Data} (hd : (m.getDKey t entity ts).1 = some d) :
    (∃ k : Bytes, (m.step (.getDKey t entity ts)).dkeyCache[k]? = some d) ∧
      entity <+: extractCertName d.name := by
  obtain ⟨⟨k, d'⟩, hentry, rfl⟩ := Option.map_eq_some_iff.mp hd
  have hscan := scanCache_of_getDKeyEntry m hentry
  have hcached := OrderedScan.firstHit_eq_some_iff.mp hscan
  have hsound := sound_step h (.getDKey t entity ts)
  have hkey : (extractCertName d'.name).toUri = k := hsound.filed k d' hcached.1
  refine ⟨⟨k, hcached.1⟩, ?_⟩
  have hextends := hcached.2.1
  rw [← hkey] at hextends
  exact (extendsEntity_toUri _ _).mp hextends

/-- A call of the run issued the D-KEY for a member of a data type `t`.  Before that call, somebody
was granted `t` under a certificate of this member's identity, and `t` was not revoked between the
two. -/
def IssuedAfterGrant (m : Manager L) (ops : List ManagerOp) (d : Data) : Prop :=
  ∃ pre op post t ts x, ops = pre ++ op :: post ∧ d ∈ (m.run pre).dkeysRead op ∧
    (m.run pre).Issued t ts x d ∧
    ∃ before granted ni after, pre = before ++ .grantAccess granted t ni :: after ∧
      (∃ cert, (m.run before).getIdentity granted = some cert ∧ cert.identity = x.identity) ∧
        ∀ op ∈ after, op.revokes t = false

/-- What was issued in a run was issued after a grant. -/
theorem IssuedIn.granted (hK : L.KeepsMembers) (hN : L.NamesMembers) {p : Name} {keysize : ℕ}
    {ops : List ManagerOp} {d : Data} (h : (ofPrefix L p keysize).IssuedIn ops d) :
    (ofPrefix L p keysize).IssuedAfterGrant ops d := by
  obtain ⟨pre, op, post, t, ts, x, heq, hread, hissued⟩ := h
  exact ⟨pre, op, post, t, ts, x, heq, hread, hissued,
    (exists_member_iff_granted hK hN p keysize pre t x.identity).mp ⟨x, hissued.member, rfl⟩⟩

/-- **A D-KEY is handed out after a grant.**  In every state of a run, a D-KEY that is handed out
for an entity was issued in a key read of the run, or in this one, for a member of some data type
that had been granted it before, with no revocation in between.  The name the D-KEY is filed under
extends the entity. -/
theorem getDKey_issued_after_grant (hF : L.KeysForMembers) (hK : L.KeepsMembers)
    (hN : L.NamesMembers) (p : Name) (keysize : ℕ) (ops : List ManagerOp) {t entity : Name}
    {ts : TimeStamp} {d : Data}
    (hd : (((ofPrefix L p keysize).run ops).getDKey t entity ts).1 = some d) :
    entity <+: extractCertName d.name ∧
      (ofPrefix L p keysize).IssuedAfterGrant (ops ++ [.getDKey t entity ts]) d := by
  have hsound := sound_run (sound_ofPrefix (L := L) p keysize) ops
  obtain ⟨⟨k, hcached⟩, hextends⟩ := mem_cache_of_getDKey hsound hd
  have hrun : (ofPrefix L p keysize).run (ops ++ [.getDKey t entity ts]) =
      ((ofPrefix L p keysize).run ops).step (.getDKey t entity ts) :=
    exec_append step _ ops [_]
  rw [← hrun] at hcached
  exact ⟨hextends, (issued_of_mem_cache hF p keysize _ hcached).granted hK hN⟩

/-- Alice is handed a D-KEY that was issued for her. -/
theorem issued_for_alice :
    ∃ d, (((ofPrefix memoryGroups [Component.of "manager"] 2048).run
        [.addIdentity [Component.of "alice"] (Certificate.issued [Component.of "alice"]),
          .grantAccess [Component.of "alice"] [Component.of "health"]
            (dailyFrom "everyday")]).getDKey [Component.of "health"] [Component.of "alice"]
              ⟨⟨2017, 7, 3⟩, 0⟩).1 = some d ∧
      [Component.of "alice"] <+: extractCertName d.name := by
  have hsome : (((ofPrefix memoryGroups [Component.of "manager"] 2048).run
      [.addIdentity [Component.of "alice"] (Certificate.issued [Component.of "alice"]),
        .grantAccess [Component.of "alice"] [Component.of "health"]
          (dailyFrom "everyday")]).getDKey [Component.of "health"] [Component.of "alice"]
            ⟨⟨2017, 7, 3⟩, 0⟩).1.isSome = true := by
    decide +kernel
  obtain ⟨d, hd⟩ := Option.isSome_iff_exists.mp hsome
  exact ⟨d, hd, (getDKey_issued_after_grant memoryGroups_keysForMembers memoryGroups_keepsMembers
    memoryGroups_namesMembers [Component.of "manager"] 2048 _ hd).1⟩

end Manager
end Nacapp
