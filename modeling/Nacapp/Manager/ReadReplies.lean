import Nacapp.Manager.ServiceCalls

/-!
# What a READ is answered with

A READ is answered with the key the manager hands out, which is made fresh for a second on the way.
The E-KEY is that of the data type that was asked for.  The D-KEY is whichever the cache has for the
entity, and the cache keeps what every READ of the past has left there, with the freshness period
that the READ has set.

`handle_read_issued`: whatever the service has done before, it answers a READ with an E-KEY only
if the data type was granted and not revoked since, and with a D-KEY only if this D-KEY was issued
for a member that had been granted its data type.  A revocation between the issuing and the READ
does not matter.
-/

namespace Nacapp

open Transitions

namespace Manager

variable {L : GroupLib} {m m' : Manager L}

/-- The managers hand out the same E-KEYs. -/
theorem SameUpToFreshness.getEKey_eq (h : m.SameUpToFreshness m') (t : Name) (ts : TimeStamp) :
    (m.getEKey t ts).1 = (m'.getEKey t ts).1 := by
  rw [← h.rest]
  unfold getEKey
  rw [getGroupKeys_withCache]
  rcases m.getGroupKeys t ts with ⟨ks, m₁⟩
  cases ks <;> rfl

/-- What one manager has cached the other has, with a freshness period of its own. -/
theorem SameUpToFreshness.exists_cached (h : m.SameUpToFreshness m') {key : Bytes} {d : Data}
    (hd : m.dkeyCache[key]? = some d) :
    ∃ d', m'.dkeyCache[key]? = some d' ∧ d'.setFreshnessPeriod 0 = d.setFreshnessPeriod 0 := by
  have hsame := h.cache key
  rw [hd] at hsame
  exact Option.map_eq_some_iff.mp hsame.symm

end Manager

namespace Service

variable {L : GroupLib} {E : ServiceEnv}

/-- Packets that differ in the freshness period only become the same packet when it is set. -/
theorem setFreshnessPeriod_eq_of_same {d d' : Data}
    (h : d'.setFreshnessPeriod 0 = d.setFreshnessPeriod 0) (period : ℤ) :
    d.setFreshnessPeriod period = d'.setFreshnessPeriod period :=
  (congrArg (Data.setFreshnessPeriod · period) h).symm

/-- **A READ is answered after a grant.**  After any run of the service, a READ puts nothing, or
one packet: the E-KEY of the data type that its arguments name, which was granted and not revoked
since; or a D-KEY that was issued by a call of the run, or by this one, to a member that had been
granted its data type before, and that is filed under a name extending the entity.  Both are made
fresh for a second. -/
theorem handle_read_issued (hF : L.KeysForMembers) (hK : L.KeepsMembers) (hN : L.NamesMembers)
    (E : ServiceEnv) (p : Name) (keysize : ℕ) (events : List ServiceEvent) {interest : Interest}
    {args : Name} {data : Data} {r : Service L × HandlerRun}
    (h : ((ofPrefix L p keysize).run E events).handle E .read interest args data = some r) :
    r.2.puts = [] ∨
      (∃ t ts ekey, readCalls E interest args = [.getEKey t ts] ∧
        r.2.puts = [ekey.setFreshnessPeriod 1000] ∧
        (((Manager.ofPrefix L p keysize).run
          (callsIn E (ofPrefix L p keysize) events)).getEKey t ts).1 = some ekey ∧
        ∃ before entity ni after, callsIn E (ofPrefix L p keysize) events =
            before ++ .grantAccess entity t ni :: after ∧ ∀ op ∈ after, op.revokes t = false) ∨
        ∃ t entity ts d, readCalls E interest args = [.getDKey t entity ts] ∧
          r.2.puts = [d.setFreshnessPeriod 1000] ∧ entity <+: Manager.extractCertName d.name ∧
          (Manager.ofPrefix L p keysize).IssuedAfterGrant
            (callsIn E (ofPrefix L p keysize) events ++ [.getDKey t entity ts]) d := by
  have hserves : Serves ((ofPrefix L p keysize).run E events).manager (readCalls E interest args)
      r.1.manager r.2.puts := serves_onRead h
  have hsame : ((ofPrefix L p keysize).run E events).manager.SameUpToFreshness
      ((Manager.ofPrefix L p keysize).run (callsIn E (ofPrefix L p keysize) events)) :=
    (coupling E).run (Manager.SameUpToFreshness.refl _) events
  generalize callsIn E (ofPrefix L p keysize) events = ops at hsame ⊢
  generalize readCalls E interest args = reads at hserves ⊢
  generalize r.1.manager = m₁ at hserves
  generalize r.2.puts = puts at hserves ⊢
  cases hserves with
  | nothing => exact Or.inl rfl
  | @ekey t ts ekey hekey =>
    rw [hsame.getEKey_eq] at hekey
    exact Or.inr (Or.inl ⟨t, ts, ekey, rfl, rfl, hekey,
      (Manager.getGroup_isSome_iff_granted p keysize ops t).mp
        (Manager.isSome_getGroup_of_getEKey hekey)⟩)
  | @dkey t entity ts key d hentry =>
    obtain ⟨d', hcached, hd'⟩ :=
      (hsame.step (.getDKey t entity ts)).exists_cached (getElem?_of_getDKeyEntry hentry)
    have hrun : (Manager.ofPrefix L p keysize).run (ops ++ [.getDKey t entity ts]) =
        ((Manager.ofPrefix L p keysize).run ops).step (.getDKey t entity ts) :=
      exec_append Manager.step _ ops [_]
    rw [← hrun] at hcached
    have hsound := Manager.sound_run (Manager.sound_ofPrefix (L := L) p keysize)
      (ops ++ [.getDKey t entity ts])
    have hfiled : (Manager.extractCertName d'.name).toUri = key := hsound.filed key d' hcached
    have hextends := (OrderedScan.firstHit_eq_some_iff.mp
      (Manager.scanCache_of_getDKeyEntry _ hentry)).2.1
    rw [← hfiled] at hextends
    exact Or.inr (Or.inr ⟨t, entity, ts, d', rfl,
      congrArg (fun d => [d]) (setFreshnessPeriod_eq_of_same hd' 1000),
      (Manager.extendsEntity_toUri _ _).mp hextends,
      (Manager.issued_of_mem_cache hF p keysize _ hcached).granted hK hN⟩)

/-- A manager that knows alice and has granted her `health`. -/
def aliceGranted : List ServiceEvent :=
  [.request .identityAdd ⟨[Component.of "add"], []⟩ aliceCertificate.name,
    .keyArrives 0 aliceCertificate.data,
    .request .accessGrant ⟨[Component.of "grant"], []⟩
      [⟨aliceCertificate.name.toUri⟩, Component.of "/health"]]

/-- Alice reads her D-KEY, which was issued after the grant. -/
theorem alice_reads_issued :
    ∃ r, ∃ d : Data, ((ofPrefix memoryGroups [Component.of "manager"] 2048).run oneDay
        aliceGranted).handle oneDay .read ⟨[Component.of "read"], []⟩
          ([Component.of "health", Component.of "D-KEY", Component.of "start",
            Component.of "stop", Component.of "FOR"] ++ aliceCertificate.name) Data.empty = some r ∧
      r.2.puts = [d.setFreshnessPeriod 1000] ∧
      aliceCertificate.name <+: Manager.extractCertName d.name := by
  have hputs : (((ofPrefix memoryGroups [Component.of "manager"] 2048).run oneDay
      aliceGranted).handle oneDay .read ⟨[Component.of "read"], []⟩
      ([Component.of "health", Component.of "D-KEY", Component.of "start", Component.of "stop",
        Component.of "FOR"] ++ aliceCertificate.name) Data.empty).any
      (fun r => !r.2.puts.isEmpty) = true := by
    decide +kernel
  obtain ⟨r, hr, hputs⟩ := (Option.any_eq_true _ _).mp hputs
  rcases handle_read_issued memoryGroups_keysForMembers memoryGroups_keepsMembers
    memoryGroups_namesMembers oneDay [Component.of "manager"] 2048 aliceGranted hr with
    hnone | ⟨t, ts, ekey, hcall, -⟩ | ⟨t, entity, ts, d, hcall, hd, hextends, -⟩
  · rw [hnone] at hputs
    exact absurd hputs (by decide)
  · exact absurd hcall (by intro h; cases h)
  · cases hcall
    exact ⟨r, d, hr, hd, hextends⟩

end Service
end Nacapp
