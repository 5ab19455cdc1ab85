import Nacapp.Manager.Addressees
import Nacapp.Manager.FaceEvents
import Nacapp.Manager.Provenance

/-!
# The service as calls on the manager

The handlers of the service decode their requests and call the manager; on top of that,
`onGetDKey` changes the D-KEY it is handed, which is the one in the cache.  `Service.calls` says
which calls an event of the service stands for.  It reads the arguments of the request and the
requests that are outstanding, and never the manager.

* `SameUpToFreshness`: two managers that differ in the freshness periods of cached D-KEYs only.
  No call tells them apart (`SameUpToFreshness.step`).
* `manager_eq_calls`: what an event does to the manager, by its calls.
* `coupling`, `sameUpToFreshness_run`: every run of the service is a run of the manager on the
  calls of its events, up to these freshness periods.
* `exists_member_iff_callsIn`: who has access after a run of the service, by these calls.
-/

namespace Nacapp

open Transitions

/-! ## Up to freshness -/

namespace Manager

variable {L : GroupLib} {m m' : Manager L}

/-- A manager with another cache. -/
def withCache (m : Manager L) (cache : StringMap Data) : Manager L :=
  { m with dkeyCache := cache }

theorem createGroup_withCache (c : StringMap Data) (t : Name) :
    (m.withCache c).createGroup t =
      ((m.createGroup t).1, (m.createGroup t).2.withCache c) := by
  have hgroup : (m.withCache c).getGroup t = m.getGroup t := rfl
  unfold createGroup
  rw [hgroup]
  cases m.getGroup t with
  | none => rfl
  | some g => rfl

theorem scheduledGroup_withCache (c : StringMap Data) (t : Name) (ni : NamedInterval) :
    (m.withCache c).scheduledGroup t ni = m.scheduledGroup t ni := by
  unfold scheduledGroup
  rw [createGroup_withCache]
  rfl

/-- A grant neither reads the cache nor writes it. -/
theorem grantAccess_withCache (c : StringMap Data) (entity t : Name) (ni : NamedInterval) :
    (m.withCache c).grantAccess entity t ni = (m.grantAccess entity t ni).withCache c := by
  have hidentity : (m.withCache c).getIdentity entity = m.getIdentity entity := rfl
  have hstore : (m.withCache c).storeGroup t (m.scheduledGroup t ni) =
      (m.storeGroup t (m.scheduledGroup t ni)).withCache c := rfl
  cases hcert : m.getIdentity entity with
  | none =>
    rw [grantAccess_of_getIdentity_eq_none _ (hidentity.trans hcert),
      grantAccess_of_getIdentity_eq_none _ hcert, scheduledGroup_withCache]
    rfl
  | some cert =>
    rw [grantAccess_of_getIdentity_eq_some _ (hidentity.trans hcert),
      grantAccess_of_getIdentity_eq_some _ hcert, scheduledGroup_withCache, hstore]
    unfold addCertificate
    rw [createGroup_withCache]
    dsimp only
    split
    · rfl
    · rfl

theorem getGroupKeys_withCache (c : StringMap Data) (t : Name) (ts : TimeStamp) :
    (m.withCache c).getGroupKeys t ts =
      ((m.getGroupKeys t ts).1, (m.getGroupKeys t ts).2.withCache c) := by
  have hgroup : (m.withCache c).getGroup t = m.getGroup t := rfl
  unfold getGroupKeys
  rw [hgroup]
  cases m.getGroup t with
  | none => rfl
  | some g => rfl

theorem getEKey_withCache (c : StringMap Data) (t : Name) (ts : TimeStamp) :
    ((m.withCache c).getEKey t ts).2 =
      (m.getEKey t ts).2.withCache (fileDKeys c (m.dkeys t ts)) := by
  rw [getEKey_snd, getEKey_snd]
  unfold dkeys
  rw [getGroupKeys_withCache]
  rfl

/-- **A call on a manager with another cache of the same keys** does the same, and files the same
D-KEYs. -/
theorem step_withCache {c : StringMap Data} (hc : ∀ k, k ∈ c ↔ k ∈ m.dkeyCache) (op : ManagerOp) :
    (m.withCache c).step op = (m.step op).withCache (fileDKeys c (m.dkeysRead op)) := by
  cases op with
  | addIdentity entity certData =>
    show ((m.withCache c).addIdentity entity certData).getD (m.withCache c) =
      ((m.addIdentity entity certData).getD m).withCache c
    unfold addIdentity
    cases Certificate.ofData certData with
    | none => rfl
    | some cert => rfl
  | removeIdentity entity => rfl
  | grantAccess entity t ni => exact grantAccess_withCache c entity t ni
  | revokeAccess entity t =>
    show (m.withCache c).revokeAccess entity t = (m.revokeAccess entity t).withCache c
    rw [revokeAccess_eq, revokeAccess_eq]
    rfl
  | getGroupKeys t ts =>
    show ((m.withCache c).getGroupKeys t ts).2 = (m.getGroupKeys t ts).2.withCache c
    rw [getGroupKeys_withCache]
  | getEKey t ts => exact getEKey_withCache c t ts
  | getDKey t entity ts =>
    have hmiss : (m.withCache c).dkeyCache[entity.toUri]? = none ↔
        m.dkeyCache[entity.toUri]? = none := by
      rw [getElem?_dkeyCache_eq_none_iff, getElem?_dkeyCache_eq_none_iff]
      exact not_congr (hc entity.toUri)
    show ((m.withCache c).getDKey t entity ts).2 =
      ((m.getDKey t entity ts).2).withCache (fileDKeys c (if _ then _ else _))
    rw [getDKey_snd, getDKey_snd, if_congr hmiss rfl rfl]
    split
    · exact getEKey_withCache c t ts
    · rfl

/-- The managers differ in the freshness periods of cached D-KEYs only. -/
structure SameUpToFreshness (m m' : Manager L) : Prop where
  rest : m.withCache m'.dkeyCache = m'
  cache : ∀ k : Bytes, (m.dkeyCache[k]?).map (Data.setFreshnessPeriod · 0) =
    (m'.dkeyCache[k]?).map (Data.setFreshnessPeriod · 0)

theorem SameUpToFreshness.refl (m : Manager L) : m.SameUpToFreshness m := ⟨rfl, fun _ => rfl⟩

theorem SameUpToFreshness.mem_iff (h : m.SameUpToFreshness m') (k : Bytes) :
    k ∈ m.dkeyCache ↔ k ∈ m'.dkeyCache := by
  have hsome := congrArg Option.isSome (h.cache k)
  rw [Option.isSome_map, Option.isSome_map] at hsome
  rw [Std.ExtTreeMap.mem_iff_isSome_getElem?, Std.ExtTreeMap.mem_iff_isSome_getElem?, hsome]

/-- Filing the same D-KEYs keeps two caches the same up to freshness. -/
theorem fileDKeys_same {old new : StringMap Data}
    (h : ∀ k : Bytes, (old[k]?).map (Data.setFreshnessPeriod · 0) =
      (new[k]?).map (Data.setFreshnessPeriod · 0)) (ds : List Data) (k : Bytes) :
    ((fileDKeys old ds)[k]?).map (Data.setFreshnessPeriod · 0) =
      ((fileDKeys new ds)[k]?).map (Data.setFreshnessPeriod · 0) := by
  induction ds generalizing old new with
  | nil => exact h k
  | cons d ds ih =>
    refine ih fun k' => ?_
    rw [Std.ExtTreeMap.getElem?_insert, Std.ExtTreeMap.getElem?_insert]
    split
    · rfl
    · exact h k'

/-- **No call tells them apart.** -/
theorem SameUpToFreshness.step (h : m.SameUpToFreshness m') (op : ManagerOp) :
    (m.step op).SameUpToFreshness (m'.step op) := by
  have hstep := step_withCache (m := m) (fun k => (h.mem_iff k).symm) op
  rw [h.rest] at hstep
  rw [hstep]
  refine ⟨rfl, fun k => ?_⟩
  rw [dkeyCache_step]
  exact fileDKeys_same h.cache _ k

theorem SameUpToFreshness.run (h : m.SameUpToFreshness m') (ops : List ManagerOp) :
    (m.run ops).SameUpToFreshness (m'.run ops) := by
  unfold Manager.run
  induction ops generalizing m m' with
  | nil => exact h
  | cons op ops ih => exact ih (h.step op)

/-- Setting the freshness period of a cached D-KEY changes nothing else. -/
theorem SameUpToFreshness.writeDKey (h : m.SameUpToFreshness m') {key : Bytes} {d : Data}
    (hd : m.dkeyCache[key]? = some d) (period : ℤ) :
    (Service.writeDKey m key (d.setFreshnessPeriod period)).SameUpToFreshness m' := by
  refine ⟨h.rest, fun k => ?_⟩
  rw [← h.cache k]
  show (((m.dkeyCache.insert key (d.setFreshnessPeriod period))[k]? : Option Data)).map _ = _
  rw [Std.ExtTreeMap.getElem?_insert]
  split
  · rename_i hk
    rw [← Std.LawfulEqCmp.compare_eq_iff_eq.mp hk, hd]
    rfl
  · rfl

theorem SameUpToFreshness.getGroup_eq (h : m.SameUpToFreshness m') (t : Name) :
    m.getGroup t = m'.getGroup t := by
  rw [← h.rest]
  rfl

theorem SameUpToFreshness.membersOf_eq (h : m.SameUpToFreshness m') (t : Name) :
    m.membersOf t = m'.membersOf t := by
  rw [membersOf, membersOf, h.getGroup_eq]

end Manager

/-! ## The calls of an event -/

namespace Service

variable {L : GroupLib} (E : ServiceEnv)

/-- The call of a key read, if the time it is for can be read. -/
def timedCall (time : Bytes) (call : TimeStamp → ManagerOp) : List ManagerOp :=
  ((E.fromIsoString time).toOption.map call).toList

/-- The calls of `onGetEKey`. -/
def ekeyCalls (interest : Interest) (datatype : Name) : List ManagerOp :=
  if datatype.length < 1 then []
  else
    match interest.exclude with
    | [] => []
    | first :: _ => timedCall E first.toUri (.getEKey datatype)

/-- The calls of `onGetDKey`. -/
def dkeyCalls (datatype args : Name) : List ManagerOp :=
  match args with
  | start :: _ :: _ :: _ :: _ => timedCall E start.toUri (.getDKey datatype (args.getSubNameFrom 3))
  | _ => []

/-- The calls of `onRead`. -/
def readCalls (interest : Interest) (args : Name) : List ManagerOp :=
  let (location, keyType, keyArgs) := parseReadArgs args
  if keyType.toUri = bytes "/E-KEY" then ekeyCalls E interest location
  else if keyType.toUri = bytes "/D-KEY" then dkeyCalls E location keyArgs
  else []

/-- The call of `grant`. -/
def grantCall (identity dataType : Name) (startDate endDate startHour endHour : Bytes) :
    Except Exn ManagerOp := do
  let startD ← E.fromIsoString startDate
  let endD ← E.fromIsoString endDate
  let startH ← stoi 10 startHour
  let endH ← stoi 10 endHour
  let scheduleName ← E.parseName (dataType.toUri ++ startDate ++ endDate ++ startHour ++ endHour)
  pure (.grantAccess identity dataType
    ⟨scheduleName, ⟨startD, endD, startH.toNat, endH.toNat, 1, .day⟩⟩)

/-- The call that a request to grant asks for, once the identity is decoded. -/
def grantTo (identity : Bytes) (second : Component) : Except Exn ManagerOp := do
  let dataType ← uriDecode second.toUri
  grantCall E (← E.parseName identity) (← E.parseName dataType)
    (bytes "20170703T000000Z") (bytes "20180730T000000Z") (bytes "00") (bytes "24")

/-- The call that a request to grant asks for. -/
def requestedGrant (first second : Component) : Except Exn ManagerOp := do
  let identity ← uriDecode first.toUri
  grantTo E identity second

/-- The call that a request to revoke asks for. -/
def requestedRevocation (first second : Component) : Except Exn ManagerOp := do
  let identity ← uriDecode first.toUri
  let dataType ← uriDecode second.toUri
  let identity ← E.parseName identity
  let dataType ← E.parseName dataType
  pure (.revokeAccess identity dataType)

/-- The calls of a request with two arguments. -/
def requestedCalls (request : Component → Component → Except Exn ManagerOp) :
    Name → List ManagerOp
  | first :: second :: _ => (request first second).toOption.toList
  | _ => []

/-- The calls of an event.  A key that arrives is added under its own name; what is no certificate
is a call that throws. -/
def calls (s : Service L) : ServiceEvent → List ManagerOp
  | .request .read interest args => readCalls E interest args
  | .request .identityFor _ _ | .request .identityAdd _ _ => []
  | .request .identityRemove _ args => [.removeIdentity args]
  | .request .accessGrant _ args => requestedCalls (requestedGrant E) args
  | .request .accessRevoke _ args => requestedCalls (requestedRevocation E) args
  | .keyArrives index keyData =>
    (s.pending[index]?.map fun _ => ManagerOp.addIdentity keyData.name keyData).toList

/-- The calls of the events of a run. -/
def callsIn (s : Service L) (events : List ServiceEvent) : List ManagerOp :=
  emitted (step E) (calls E) s events

variable {E} {s : Service L}

/-- What a handler does to the manager, by its calls: it makes them, and after the read of a D-KEY
it may set the freshness period of the D-KEY that was handed out. -/
inductive Made (m : Manager L) (ops : List ManagerOp) : Manager L → Prop
  | run : Made m ops (m.run ops)
  | served (t entity : Name) (ts : TimeStamp) (key : Bytes) (d : Data)
      (hops : ops = [.getDKey t entity ts])
      (h : (m.getDKeyEntry t entity ts).1 = some (key, d)) :
      Made m ops (writeDKey (m.step (.getDKey t entity ts)) key (d.setFreshnessPeriod 1000))

theorem Made.of_eq {m m' : Manager L} {ops : List ManagerOp} (h : m' = m.run ops) :
    Made m ops m' := h ▸ .run

/-- What a read does: it makes its calls on the manager, and puts the key they bring, which is set
to be fresh for a second.  A D-KEY is changed in the cache. -/
inductive Serves (m : Manager L) : List ManagerOp → Manager L → List Data → Prop
  | nothing (ops : List ManagerOp) : Serves m ops (m.run ops) []
  | ekey (t : Name) (ts : TimeStamp) {ekey : Data} (h : (m.getEKey t ts).1 = some ekey) :
      Serves m [.getEKey t ts] (m.step (.getEKey t ts)) [ekey.setFreshnessPeriod 1000]
  | dkey (t entity : Name) (ts : TimeStamp) {key : Bytes} {d : Data}
      (h : (m.getDKeyEntry t entity ts).1 = some (key, d)) :
      Serves m [.getDKey t entity ts]
        (writeDKey (m.step (.getDKey t entity ts)) key (d.setFreshnessPeriod 1000))
        [d.setFreshnessPeriod 1000]

theorem Serves.of_eq {m m' : Manager L} {ops : List ManagerOp} (h : m' = m.run ops) :
    Serves m ops m' [] := h ▸ .nothing ops

theorem Serves.made {m m' : Manager L} {ops : List ManagerOp} {puts : List Data}
    (h : Serves m ops m' puts) : Made m ops m' := by
  cases h with
  | nothing => exact .run
  | ekey t ts => exact .run
  | dkey t entity ts h => exact .served t entity ts _ _ rfl h

theorem serves_onGetEKey {interest : Interest} {t : Name} {data : Data}
    {r : Service L × HandlerRun} (h : s.onGetEKey E interest t data = some r) :
    Serves s.manager (ekeyCalls E interest t) r.1.manager r.2.puts := by
  unfold ekeyCalls
  unfold onGetEKey at h
  by_cases hempty : t.length < 1
  · rw [if_pos hempty] at h ⊢
    rw [← Option.some.inj h]
    exact .nothing _
  · rw [if_neg hempty] at h ⊢
    cases hexclude : interest.exclude with
    | nil =>
      rw [hexclude] at h
      exact absurd h (by simp)
    | cons first rest =>
      rw [hexclude] at h
      dsimp only at h ⊢
      rw [timedCall]
      cases htime : E.fromIsoString first.toUri with
      | error e =>
        rw [htime] at h
        rw [← Option.some.inj h]
        exact .nothing _
      | ok ts =>
        rw [htime] at h
        dsimp only at h
        have hstep : s.manager.step (.getEKey t ts) = (s.manager.getEKey t ts).2 := rfl
        rcases hekey : s.manager.getEKey t ts with ⟨ekey, m⟩
        rw [hekey] at h hstep
        cases ekey with
        | none =>
          rw [← Option.some.inj h]
          exact .of_eq hstep.symm
        | some ekey =>
          have hread : (s.manager.getEKey t ts).1 = some ekey := by rw [hekey]
          have hserves := Serves.ekey t ts hread
          rw [hstep] at hserves
          rw [← Option.some.inj h]
          exact hserves

/-- Too few arguments are no call. -/
theorem dkeyCalls_of_length_lt {t args : Name} (h : args.length < 4) : dkeyCalls E t args = [] := by
  unfold dkeyCalls
  split
  · simp only [List.length_cons] at h
    omega
  · rfl

theorem serves_onGetDKey {t args : Name} {data : Data} {r : Service L × HandlerRun}
    (h : s.onGetDKey E t args data = some r) :
    Serves s.manager (dkeyCalls E t args) r.1.manager r.2.puts := by
  unfold onGetDKey at h
  by_cases hshort : args.length < 4
  · rw [if_pos hshort] at h
    rw [← Option.some.inj h, dkeyCalls_of_length_lt hshort]
    exact .nothing []
  · obtain ⟨start, stop, mark, first, rest, rfl⟩ :
        ∃ start stop mark first rest, args = start :: stop :: mark :: first :: rest := by
      rcases args with _ | ⟨start, _ | ⟨stop, _ | ⟨mark, _ | ⟨first, rest⟩⟩⟩⟩
      · exact absurd (by decide) hshort
      · exact absurd (by simp) hshort
      · exact absurd (by simp) hshort
      · exact absurd (by simp) hshort
      · exact ⟨start, stop, mark, first, rest, rfl⟩
    have hentity : Name.getSubNameFrom (start :: stop :: mark :: first :: rest) 3 =
        first :: rest := rfl
    rw [if_neg hshort] at h
    unfold dkeyCalls timedCall
    dsimp only [List.getElem?_cons_zero] at h ⊢
    rw [hentity] at h ⊢
    cases htime : E.fromIsoString start.toUri with
    | error e =>
      rw [htime] at h
      rw [← Option.some.inj h]
      exact .nothing _
    | ok ts =>
      rw [htime] at h
      dsimp only at h
      have hstep : s.manager.step (.getDKey t (first :: rest) ts) =
          (s.manager.getDKeyEntry t (first :: rest) ts).2 := rfl
      rcases hentry : s.manager.getDKeyEntry t (first :: rest) ts with ⟨entry, m⟩
      rw [hentry] at h hstep
      cases entry with
      | none =>
        rw [← Option.some.inj h]
        exact .of_eq hstep.symm
      | some entry =>
        have hread : (s.manager.getDKeyEntry t (first :: rest) ts).1 = some (entry.1, entry.2) := by
          rw [hentry]
        have hserves := Serves.dkey t (first :: rest) ts hread
        rw [hstep] at hserves
        rw [← Option.some.inj h]
        exact hserves

/-- **What a read does and puts.** -/
theorem serves_onRead {interest : Interest} {args : Name} {data : Data}
    {r : Service L × HandlerRun} (h : s.onRead E interest args data = some r) :
    Serves s.manager (readCalls E interest args) r.1.manager r.2.puts := by
  unfold onRead at h
  unfold readCalls
  dsimp only at h ⊢
  split at h
  · rename_i hkey
    rw [if_pos hkey]
    exact serves_onGetEKey h
  · rename_i hne
    rw [if_neg hne]
    split at h
    · rename_i hkey
      rw [if_pos hkey]
      exact serves_onGetDKey h
    · rename_i hne'
      rw [if_neg hne', ← Option.some.inj h]
      exact .nothing _

/-- A grant is its call. -/
theorem grant_eq_grantCall (identity t : Name) (d₁ d₂ h₁ h₂ : Bytes) :
    s.grant E identity t d₁ d₂ h₁ h₂ =
      (grantCall E identity t d₁ d₂ h₁ h₂).map fun op =>
        { s with manager := s.manager.step op } := by
  unfold grant grantCall
  cases E.fromIsoString d₁ with
  | error e => rfl
  | ok startD =>
    cases E.fromIsoString d₂ with
    | error e => rfl
    | ok endD =>
      cases stoi 10 h₁ with
      | error e => rfl
      | ok startH =>
        cases stoi 10 h₂ with
        | error e => rfl
        | ok endH =>
          cases E.parseName (t.toUri ++ d₁ ++ d₂ ++ h₁ ++ h₂) with
          | error e => rfl
          | ok scheduleName => rfl

/-- What `onGrant` does once the identity is decoded. -/
theorem granted_eq (identity : Bytes) (second : Component) :
    (do
      let dataType ← uriDecode second.toUri
      s.grant E (← E.parseName identity) (← E.parseName dataType)
        (bytes "20170703T000000Z") (bytes "20180730T000000Z") (bytes "00") (bytes "24")) =
      (grantTo E identity second).map fun op => { s with manager := s.manager.step op } := by
  unfold grantTo
  cases uriDecode second.toUri with
  | error e => rfl
  | ok dataType =>
    dsimp only [bind, Except.bind]
    cases E.parseName identity with
    | error e => rfl
    | ok n =>
      cases E.parseName dataType with
      | error e => rfl
      | ok t => exact grant_eq_grantCall n t _ _ _ _

theorem made_onGrant {args : Name} {data : Data} {r : Service L × HandlerRun}
    (h : s.onGrant E args data = some r) :
    Made s.manager (requestedCalls (requestedGrant E) args) r.1.manager := by
  unfold onGrant at h
  rcases args with _ | ⟨first, _ | ⟨second, rest⟩⟩
  · exact absurd h (by simp)
  · dsimp only [List.getElem?_cons_zero] at h
    cases hfirst : uriDecode first.toUri with
    | error e =>
      rw [hfirst] at h
      rw [← Option.some.inj h]
      exact .run
    | ok identity =>
      rw [hfirst] at h
      exact absurd h (by simp)
  · dsimp only [List.getElem?_cons_zero, List.getElem?_cons_succ] at h
    show Made s.manager (requestedGrant E first second).toOption.toList r.1.manager
    unfold requestedGrant
    cases hfirst : uriDecode first.toUri with
    | error e =>
      rw [hfirst] at h
      rw [← Option.some.inj h]
      exact .run
    | ok identity =>
      rw [hfirst] at h
      dsimp only at h
      rw [granted_eq] at h
      show Made s.manager (grantTo E identity second).toOption.toList r.1.manager
      cases hcall : grantTo E identity second with
      | error e =>
        rw [hcall] at h
        rw [← Option.some.inj h]
        exact .run
      | ok op =>
        rw [hcall] at h
        rw [← Option.some.inj h]
        exact .run

theorem made_onRevoke (args : Name) (data : Data) :
    Made s.manager (requestedCalls (requestedRevocation E) args)
      (s.onRevoke E args data).1.manager := by
  unfold onRevoke
  rcases args with _ | ⟨first, _ | ⟨second, rest⟩⟩
  · exact .run
  · exact .run
  · show Made s.manager (requestedRevocation E first second).toOption.toList _
    unfold requestedRevocation
    dsimp only
    cases uriDecode first.toUri with
    | error e => exact .run
    | ok identity =>
      cases uriDecode second.toUri with
      | error e => exact .run
      | ok dataType =>
        cases hidentity : E.parseName identity with
        | error e =>
          simp only [bind, Except.bind, hidentity]
          exact .run
        | ok identityName =>
          cases hdataType : E.parseName dataType with
          | error e =>
            simp only [bind, Except.bind, hidentity, hdataType]
            exact .run
          | ok t =>
            simp only [bind, Except.bind, hidentity, hdataType]
            exact .run

theorem made_keyArrives (index : ℕ) (keyData : Data) :
    Made s.manager (s.calls E (.keyArrives index keyData))
      (s.keyArrives E index keyData).1.manager := by
  show Made s.manager (s.pending[index]?.map _).toList _
  unfold keyArrives
  cases s.pending[index]? with
  | none => exact .run
  | some p =>
    refine .of_eq ?_
    show _ = (s.manager.addIdentity keyData.name keyData).getD s.manager
    dsimp only
    cases hcert : Certificate.ofData keyData with
    | none =>
      rw [onAddIdentityKey_of_none hcert, Manager.addIdentity, hcert]
      rfl
    | some cert =>
      rw [onAddIdentityKey_of_some hcert, Manager.addIdentity, hcert, Certificate.name,
        Certificate.ofData_eq_some_iff.mp hcert]
      rfl

/-- A request whose handler reads an argument that is not there stands for no call. -/
theorem calls_of_handle_eq_none {route : ServiceRoute} {interest : Interest} {args : Name}
    {data : Data} (h : s.handle E route interest args data = none) :
    s.calls E (.request route interest args) = [] := by
  have hargs : ¬ HasArguments route interest args := by
    rw [← handle_isSome_iff (E := E) (s := s) route interest args data, h]
    exact Bool.false_ne_true
  cases route with
  | read =>
    unfold HasArguments at hargs
    dsimp only at hargs
    rw [Classical.not_imp, Classical.not_imp, not_not] at hargs
    obtain ⟨hkey, -, hexclude⟩ := hargs
    show readCalls E interest args = []
    unfold readCalls
    dsimp only
    rw [if_pos hkey, ekeyCalls, hexclude]
    exact ite_self []
  | accessGrant =>
    rcases args with _ | ⟨first, _ | ⟨second, rest⟩⟩
    · rfl
    · rfl
    · exact absurd trivial hargs
  | identityFor | identityAdd | identityRemove | accessRevoke => exact absurd trivial hargs

/-- **What an event does to the manager**, by its calls. -/
theorem manager_eq_calls (E : ServiceEnv) (s : Service L) (event : ServiceEvent) :
    Made s.manager (s.calls E event) (s.step E event).manager := by
  cases event with
  | request route interest args =>
    show Made s.manager _ (((s.handle E route interest args _).map Prod.fst).getD s).manager
    cases hrun : s.handle E route interest args (Data.empty.setName interest.name) with
    | none =>
      rw [calls_of_handle_eq_none hrun]
      exact .run
    | some r =>
      show Made s.manager _ r.1.manager
      cases route with
      | read => exact (serves_onRead hrun).made
      | identityFor | identityAdd | identityRemove =>
        rw [← Option.some.inj hrun]
        exact .run
      | accessGrant => exact made_onGrant hrun
      | accessRevoke =>
        rw [← Option.some.inj hrun]
        exact made_onRevoke args _
  | keyArrives index keyData => exact made_keyArrives index keyData

/-! ## Runs -/

/-- **A step of the service is its calls on the manager**, up to the freshness periods of cached
D-KEYs. -/
theorem coupling (E : ServiceEnv) :
    Coupling (step E (L := L)) Manager.step (calls E)
      fun s m => s.manager.SameUpToFreshness m where
  step s m event h := by
    have hrun := h.run (s.calls E event)
    have hmade := manager_eq_calls E s event
    generalize (s.step E event).manager = m' at hmade
    cases hmade with
    | run => exact hrun
    | served t entity ts key d hops hd =>
      rw [hops] at hrun
      show (writeDKey (s.manager.step (.getDKey t entity ts)) key _).SameUpToFreshness
        (m.run (s.calls E event))
      rw [hops]
      exact hrun.writeDKey (getElem?_of_getDKeyEntry hd) 1000

/-- Every run of the service is a run of the manager on its calls. -/
theorem sameUpToFreshness_run (E : ServiceEnv) (p : Name) (keysize : ℕ)
    (events : List ServiceEvent) :
    ((ofPrefix L p keysize).run E events).manager.SameUpToFreshness
      ((Manager.ofPrefix L p keysize).run (callsIn E (ofPrefix L p keysize) events)) :=
  (coupling E).run (Manager.SameUpToFreshness.refl _) events

/-- The calls of a request are those it asks for. -/
theorem exists_of_mem_requestedCalls {request : Component → Component → Except Exn ManagerOp}
    {args : Name} {op : ManagerOp} (h : op ∈ requestedCalls request args) :
    ∃ first second, request first second = .ok op := by
  rcases args with _ | ⟨first, _ | ⟨second, rest⟩⟩
  · exact absurd h List.not_mem_nil
  · exact absurd h List.not_mem_nil
  · refine ⟨first, second, ?_⟩
    have hcall : op ∈ (request first second).toOption.toList := h
    cases hrequest : request first second with
    | error e =>
      rw [hrequest] at hcall
      exact absurd hcall List.not_mem_nil
    | ok op' =>
      rw [hrequest] at hcall
      rw [List.mem_singleton.mp hcall]

theorem requestedGrant_eq_ok {first second : Component} {op : ManagerOp}
    (h : requestedGrant E first second = .ok op) :
    ∃ entity t ni, op = .grantAccess entity t ni := by
  obtain ⟨identity, -, h⟩ := exists_of_bind_eq_ok h
  obtain ⟨dataType, -, h⟩ := exists_of_bind_eq_ok h
  obtain ⟨entity, -, h⟩ := exists_of_bind_eq_ok h
  obtain ⟨t, -, h⟩ := exists_of_bind_eq_ok h
  obtain ⟨startD, -, h⟩ := exists_of_bind_eq_ok h
  obtain ⟨endD, -, h⟩ := exists_of_bind_eq_ok h
  obtain ⟨startH, -, h⟩ := exists_of_bind_eq_ok h
  obtain ⟨endH, -, h⟩ := exists_of_bind_eq_ok h
  obtain ⟨scheduleName, -, h⟩ := exists_of_bind_eq_ok h
  exact ⟨entity, t, _, (Except.ok.inj h).symm⟩

theorem requestedRevocation_eq_ok {first second : Component} {op : ManagerOp}
    (h : requestedRevocation E first second = .ok op) :
    ∃ entity t, op = .revokeAccess entity t := by
  obtain ⟨_, -, h⟩ := exists_of_bind_eq_ok h
  obtain ⟨_, -, h⟩ := exists_of_bind_eq_ok h
  obtain ⟨entity, -, h⟩ := exists_of_bind_eq_ok h
  obtain ⟨t, -, h⟩ := exists_of_bind_eq_ok h
  exact ⟨entity, t, (Except.ok.inj h).symm⟩

theorem exists_of_mem_timedCall {time : Bytes} {call : TimeStamp → ManagerOp} {op : ManagerOp}
    (h : op ∈ timedCall E time call) : ∃ ts, op = call ts := by
  obtain ⟨ts, -, heq⟩ := Option.map_eq_some_iff.mp (Option.mem_toList.mp h)
  exact ⟨ts, heq.symm⟩

/-- A read asks for keys. -/
theorem exists_of_mem_readCalls {interest : Interest} {args : Name} {op : ManagerOp}
    (h : op ∈ readCalls E interest args) :
    ∃ t ts, op = .getEKey t ts ∨ ∃ entity, op = .getDKey t entity ts := by
  unfold readCalls at h
  dsimp only at h
  split at h
  · unfold ekeyCalls at h
    split at h
    · exact absurd h List.not_mem_nil
    · split at h
      · exact absurd h List.not_mem_nil
      · obtain ⟨ts, rfl⟩ := exists_of_mem_timedCall h
        exact ⟨_, ts, Or.inl rfl⟩
  · split at h
    · unfold dkeyCalls at h
      split at h
      · obtain ⟨ts, rfl⟩ := exists_of_mem_timedCall h
        exact ⟨_, ts, Or.inr ⟨_, rfl⟩⟩
      · exact absurd h List.not_mem_nil
    · exact absurd h List.not_mem_nil

/-- **Identities are added under the names of their own certificates.** -/
theorem name_of_mem_callsIn {s : Service L} {events : List ServiceEvent} {entity : Name}
    {certData : Data} (h : .addIdentity entity certData ∈ callsIn E s events) :
    certData.name = entity := by
  obtain ⟨pre, event, post, -, hcall⟩ := exists_step_of_mem_emitted _ _ h
  cases event with
  | request route interest args =>
    cases route with
    | read =>
      obtain ⟨t, ts, heq | ⟨entity', heq⟩⟩ := exists_of_mem_readCalls hcall
      · exact ManagerOp.noConfusion heq
      · exact ManagerOp.noConfusion heq
    | identityFor | identityAdd => exact absurd hcall List.not_mem_nil
    | identityRemove => exact ManagerOp.noConfusion (List.mem_singleton.mp hcall)
    | accessGrant =>
      obtain ⟨_, _, hrequest⟩ := exists_of_mem_requestedCalls hcall
      obtain ⟨_, _, _, heq⟩ := requestedGrant_eq_ok hrequest
      exact ManagerOp.noConfusion heq
    | accessRevoke =>
      obtain ⟨_, _, hrequest⟩ := exists_of_mem_requestedCalls hcall
      obtain ⟨_, _, heq⟩ := requestedRevocation_eq_ok hrequest
      exact ManagerOp.noConfusion heq
  | keyArrives index keyData =>
    obtain ⟨p, -, heq⟩ := Option.map_eq_some_iff.mp (Option.mem_toList.mp hcall)
    obtain ⟨hname, hdata⟩ := ManagerOp.addIdentity.inj heq
    rw [← hdata, hname]

/-- Who has access after a run of the service, by its calls: an identity is a member of a data type
exactly when a certificate of this identity arrived, the data type was granted to the name of
this certificate while it was the last one under its name, and was not revoked since. -/
theorem exists_member_iff_callsIn (hK : L.KeepsMembers) (hN : L.NamesMembers) (E : ServiceEnv)
    (p : Name) (keysize : ℕ) (events : List ServiceEvent) (t identity : Name) :
    (∃ x ∈ ((ofPrefix L p keysize).run E events).manager.membersOf t, x.identity = identity) ↔
      ∃ before, ∃ cert : Certificate, ∃ between ni after,
        callsIn E (ofPrefix L p keysize) events =
            before ++ .addIdentity cert.name cert.data :: between ++
              .grantAccess cert.name t ni :: after ∧
          cert.identity = identity ∧ (∀ op ∈ between, op.writesIdentity cert.name = none) ∧
            ∀ op ∈ after, op.revokes t = false := by
  have hsame : ((ofPrefix L p keysize).run E events).manager.SameUpToFreshness
      ((Manager.ofPrefix L p keysize).run (callsIn E (ofPrefix L p keysize) events)) :=
    (coupling E).run (Manager.SameUpToFreshness.refl _) events
  rw [hsame.membersOf_eq, Manager.exists_member_iff_granted hK hN]
  constructor
  · rintro ⟨pre, entity, ni, after, heq, ⟨cert, hcert, hid⟩, hkept⟩
    obtain ⟨before, between, rfl, hnone⟩ := (Manager.getIdentity_eq_some_iff p keysize).mp hcert
    have hname : cert.name = entity := by
      have hmem : .addIdentity entity cert.data ∈ callsIn E (ofPrefix L p keysize) events := by
        rw [heq]
        simp
      exact name_of_mem_callsIn hmem
    exact ⟨before, cert, between, ni, after, by rw [hname]; exact heq, hid, by rwa [hname], hkept⟩
  · rintro ⟨before, cert, between, ni, after, heq, hid, hnone, hkept⟩
    refine ⟨_, cert.name, ni, after, heq, ⟨cert, ?_, hid⟩, hkept⟩
    exact (Manager.getIdentity_eq_some_iff p keysize).mpr ⟨before, between, rfl, hnone⟩

end Service

end Nacapp
