import Nacapp.Manager.Identities
import Nacapp.Node.Answers
import Nacapp.Thermometer.Thermometer

/-!
# Serving signed packets

The manager and the thermometer answer with Data that was signed before: group keys by the
group manager, certificates by whoever issued them, samples by the producer.  Each handler
sets a field that the signature covers, and the node does not sign again.

`StaysSigned` says that a put leaves the signature good: the Data verifies when it is put and
when it leaves.  `signedReplies_staySigned_iff` says for which keys, certificates and samples
that is so.
-/

namespace Nacapp

/-! ## Putting a signed Data -/

/-- When the Data carries a signature, no field under it has changed: it verifies as it is
put, and so does what leaves as Data. -/
def StaysSigned {σ : Type} (n : NodeImpl σ) (path : Name) (i : Interest) (d : Data) : Prop :=
  d.signature.isSome → d.Verifies ∧
    ∀ out sent, n.sendData path i d = .ok (.data out, sent) → out.Verifies

variable {σ : Type} {n : NodeImpl σ} {path : Name} {i : Interest}

/-- **A signed Data stays signed** exactly when the signature covers its fields and, unless it
leaves as a Nack, its freshness period is positive. -/
theorem staysSigned_iff (hn : n.WithoutProcessors) {d : Data} {sig : Signature}
    (hsig : d.signature = some sig) :
    StaysSigned n path i d ↔
      sig.covers = d.signedFields ∧ (d.contentType ≠ ContentType_Nack → 0 < d.freshnessPeriod) := by
  rw [StaysSigned]
  rw [hsig, Data.verifies_iff hsig]
  simp only [Option.isSome_some, true_implies]
  refine and_congr_right fun hcovers => ?_
  by_cases hnack : d.contentType = ContentType_Nack
  · refine iff_of_true (fun out sent h => ?_) (fun hne => absurd hnack hne)
    rw [n.sendData_nack hnack] at h
    exact absurd h (by simp)
  · rw [n.sendData_of_process hnack (NodeImpl.process_of_withoutProcessors hn path d)]
    have hunsigned : n.signIfUnsigned d = d := by
      rw [NodeImpl.signIfUnsigned]
      rw [hsig]
      rfl
    rw [hunsigned]
    constructor
    · intro h _
      have hout := h _ _ rfl
      by_contra hle
      have hset : (d.setFreshnessPeriod 1000).signature = some sig := hsig
      rw [NodeImpl.defaultFreshness] at hout
      rw [if_pos (by omega), Data.verifies_iff hset, hcovers] at hout
      have hfresh : d.freshnessPeriod = 1000 := congrArg SignedFields.freshnessPeriod hout
      omega
    · intro hpos out sent h
      have hpos := hpos hnack
      rw [NodeImpl.defaultFreshness] at h
      rw [if_neg (by omega)] at h
      rw [← Packet.data.inj (Prod.mk.inj (Except.ok.inj h)).1]
      exact (Data.verifies_iff hsig).mpr hcovers

/-! ## Keys -/

/-- The signature covers the fields of the Data, the freshness period aside. -/
def SignedButFreshness (d : Data) (sig : Signature) : Prop :=
  d.signature = some sig ∧
    sig.covers = (d.setFreshnessPeriod sig.covers.freshnessPeriod).signedFields

theorem signedButFreshness_of_verifies {d : Data} (h : d.Verifies) :
    ∃ sig, SignedButFreshness d sig := by
  cases hsig : d.signature with
  | none => exact absurd h (Data.not_verifies_of_unsigned hsig)
  | some sig =>
    have hcovers := (Data.verifies_iff hsig).mp h
    refine ⟨sig, hsig, ?_⟩
    rw [hcovers]
    rfl

/-- A key that is set to be fresh for a second stays signed exactly when it was signed with
that freshness period. -/
theorem staysSigned_setFreshnessPeriod_iff (hn : n.WithoutProcessors) {d : Data} {sig : Signature}
    (h : SignedButFreshness d sig) :
    StaysSigned n path i (d.setFreshnessPeriod 1000) ↔ sig.covers.freshnessPeriod = 1000 := by
  obtain ⟨hsig, hcovers⟩ := h
  have hset : (d.setFreshnessPeriod 1000).signature = some sig := hsig
  rw [staysSigned_iff hn hset]
  constructor
  · rintro ⟨hfields, -⟩
    rw [hfields]
    rfl
  · intro hfresh
    rw [hfresh] at hcovers
    exact ⟨hcovers, fun _ => show (0 : ℤ) < 1000 by decide⟩

namespace Service

variable {L : GroupLib} {E : ServiceEnv} {s : Service L}

/-- The group keys are signed by the library, and what the service does to a cached D-KEY
leaves the signature over all but its freshness period. -/
def CacheSigned (m : Manager L) : Prop :=
  ∀ (k : Bytes) (d : Data), m.dkeyCache[k]? = some d → ∃ sig, SignedButFreshness d sig

theorem verifies_of_mem_getGroupKeys (hL : L.SignsKeys) {m : Manager L} {t : Name} {ts : TimeStamp}
    {d : Data} (hd : d ∈ (m.getGroupKeys t ts).1) : d.Verifies := by
  rw [Manager.getGroupKeys] at hd
  cases hg : m.getGroup t with
  | none =>
    rw [hg] at hd
    exact absurd hd List.not_mem_nil
  | some g =>
    rw [hg] at hd
    exact hL _ _ _ _ d hd

theorem verifies_of_mem_dkeysRead (hL : L.SignsKeys) {m : Manager L} {op : ManagerOp} {d : Data}
    (hd : d ∈ m.dkeysRead op) : d.Verifies := by
  have hdkeys : ∀ t ts, d ∈ m.dkeys t ts → d.Verifies := fun t ts h =>
    verifies_of_mem_getGroupKeys hL (List.mem_of_mem_tail h)
  cases op with
  | getEKey t ts => exact hdkeys t ts hd
  | getDKey t entity ts =>
    have hread : d ∈ if m.dkeyCache[entity.toUri]? = none then m.dkeys t ts else [] := hd
    split at hread
    · exact hdkeys t ts hread
    · exact absurd hread List.not_mem_nil
  | _ => exact absurd hd List.not_mem_nil

theorem cacheSigned_call (hL : L.SignsKeys) {m : Manager L} (h : CacheSigned m) (op : ManagerOp) :
    CacheSigned (m.step op) := by
  intro k d hd
  rw [Manager.dkeyCache_step] at hd
  rcases OrderedScan.getElem?_fileAll_eq_some hd with ⟨hmem, -⟩ | ⟨-, hold⟩
  · exact signedButFreshness_of_verifies (verifies_of_mem_dkeysRead hL hmem)
  · exact h k d hold

theorem cacheSigned_effect (hL : L.SignsKeys) {m m' : Manager L} (h : CacheSigned m)
    (heffect : ManagerEffect m m') : CacheSigned m' := by
  cases heffect with
  | same => exact h
  | call op _ => exact cacheSigned_call hL h op
  | served t entity ts key d hd =>
    have hstep := cacheSigned_call hL h (.getDKey t entity ts)
    intro k d' hd'
    have hinsert : (((m.step (.getDKey t entity ts)).dkeyCache.insert key
        (d.setFreshnessPeriod 1000))[k]? : Option Data) = some d' := hd'
    rw [Std.ExtTreeMap.getElem?_insert] at hinsert
    split at hinsert
    · rw [← Option.some.inj hinsert]
      exact hstep key d (getElem?_of_getDKeyEntry hd)
    · exact hstep k d' hinsert

theorem cacheSigned_run (hL : L.SignsKeys) (E : ServiceEnv) (p : Name) (keysize : ℕ)
    (events : List ServiceEvent) : CacheSigned ((ofPrefix L p keysize).run E events).manager := by
  refine Transitions.invariant (I := fun s : Service L => CacheSigned s.manager)
    (fun event _ s hs => cacheSigned_effect hL hs (manager_step E s event)) ?_
  intro k d hd
  have hnone : (Manager.ofPrefix L p keysize).dkeyCache[k]? = none :=
    Std.ExtTreeMap.getElem?_empty
  have hsome : (Manager.ofPrefix L p keysize).dkeyCache[k]? = some d := hd
  rw [hnone] at hsome
  exact absurd hsome (by simp)

/-! ## The puts of the handlers -/

/-- The keys a `READ` request can be answered with: an E-KEY from the group, or a D-KEY from
the cache. -/
def ReadsKey (s : Service L) (key : Data) : Prop :=
  ∃ t ts, (s.manager.getEKey t ts).1 = some key ∨
    ∃ entity, (s.manager.getDKey t entity ts).1 = some key

theorem puts_onGetEKey {interest : Interest} {t : Name} {data : Data} {r : Service L × HandlerRun}
    (h : s.onGetEKey E interest t data = some r) {d : Data} (hd : d ∈ r.2.puts) :
    ∃ ts key, (s.manager.getEKey t ts).1 = some key ∧ d = key.setFreshnessPeriod 1000 := by
  rw [onGetEKey] at h
  split at h
  · rw [← Option.some.inj h] at hd
    exact absurd hd List.not_mem_nil
  · split at h
    · exact absurd h (by simp)
    · split at h
      · rw [← Option.some.inj h] at hd
        exact absurd hd List.not_mem_nil
      · rename_i ts _
        split at h
        · rw [← Option.some.inj h] at hd
          exact absurd hd List.not_mem_nil
        · rename_i ekey m heq
          rw [← Option.some.inj h] at hd
          exact ⟨ts, ekey, by rw [heq], List.mem_singleton.mp hd⟩

theorem puts_onGetDKey {t args : Name} {data : Data} {r : Service L × HandlerRun}
    (h : s.onGetDKey E t args data = some r) {d : Data} (hd : d ∈ r.2.puts) :
    ∃ entity ts k key, (s.manager.getDKeyEntry t entity ts).1 = some (k, key) ∧
      d = key.setFreshnessPeriod 1000 := by
  rw [onGetDKey] at h
  split at h
  · rw [← Option.some.inj h] at hd
    exact absurd hd List.not_mem_nil
  · dsimp only at h
    split at h
    · exact absurd h (by simp)
    · split at h
      · rw [← Option.some.inj h] at hd
        exact absurd hd List.not_mem_nil
      · rename_i ts _
        split at h
        · rw [← Option.some.inj h] at hd
          exact absurd hd List.not_mem_nil
        · rename_i k key m heq
          rw [← Option.some.inj h] at hd
          exact ⟨_, ts, k, key, by rw [heq], List.mem_singleton.mp hd⟩

/-- A `READ` request is answered with a key, set to be fresh for a second. -/
theorem puts_onRead (hL : L.SignsKeys) (hs : CacheSigned s.manager) {interest : Interest}
    {args : Name} {data : Data} {r : Service L × HandlerRun}
    (h : s.onRead E interest args data = some r) {d : Data} (hd : d ∈ r.2.puts) :
    ∃ key sig, s.ReadsKey key ∧ SignedButFreshness key sig ∧ d = key.setFreshnessPeriod 1000 := by
  rw [onRead] at h
  dsimp only at h
  split at h
  · obtain ⟨ts, key, hkey, rfl⟩ := puts_onGetEKey h hd
    have hhead := hkey
    rw [Manager.getEKey_fst] at hhead
    obtain ⟨sig, hsig⟩ := signedButFreshness_of_verifies
      (verifies_of_mem_getGroupKeys hL (List.mem_of_mem_head? hhead))
    exact ⟨key, sig, ⟨_, ts, Or.inl hkey⟩, hsig, rfl⟩
  · split at h
    · obtain ⟨entity, ts, k, key, hkey, rfl⟩ := puts_onGetDKey h hd
      obtain ⟨sig, hsig⟩ := cacheSigned_call hL hs _ k key (getElem?_of_getDKeyEntry hkey)
      have hread : (s.manager.getDKey _ entity ts).1 = some key :=
        congrArg (Option.map Prod.snd) hkey
      exact ⟨key, sig, ⟨_, ts, Or.inr ⟨entity, hread⟩⟩, hsig, rfl⟩
    · rw [← Option.some.inj h] at hd
      exact absurd hd List.not_mem_nil

end Service

/-! ## Certificates -/

/-- A certificate served under the name of an interest stays signed exactly when its signature
was made for that name. -/
theorem staysSigned_setName_iff (hn : n.WithoutProcessors) {cert : Certificate} {sig : Signature}
    (hsig : cert.data.signature = some sig) (name : Name) :
    StaysSigned n path i (cert.data.setName name) ↔
      sig.covers = (cert.data.setName name).signedFields ∧ 0 < cert.data.freshnessPeriod := by
  have hset : (cert.data.setName name).signature = some sig := hsig
  have hkey : (cert.data.setName name).contentType ≠ ContentType_Nack := by
    show cert.data.contentType ≠ ContentType_Nack
    rw [cert.contentType_eq_key]
    decide
  rw [staysSigned_iff hn hset]
  exact and_congr_right fun _ => ⟨fun h => h hkey, fun h _ => h⟩

/-- A certificate as it was issued does not stay signed under another name. -/
theorem not_staysSigned_setName (hn : n.WithoutProcessors) {cert : Certificate}
    (hcert : cert.data.Verifies) {name : Name} (hname : cert.name ≠ name) :
    ¬ StaysSigned n path i (cert.data.setName name) := by
  obtain ⟨sig, hsig, -⟩ := signedButFreshness_of_verifies hcert
  rw [staysSigned_setName_iff hn hsig]
  rintro ⟨hcovers, -⟩
  rw [(Data.verifies_iff hsig).mp hcert] at hcovers
  exact hname (congrArg SignedFields.name hcovers)

/-! ## Samples -/

/-- A sample stays signed exactly when the producer made it under the name of the interest,
with a freshness period unless it is a Nack. -/
theorem staysSigned_sample_iff {P : ProducerLib} (hP : P.SignsSamples) (hn : n.WithoutProcessors)
    {x : Sample} (hx : Thermometer.OfProducer P x) :
    StaysSigned n path i x.data ↔
      x.produced.name = x.interest.name ∧
        (x.produced.contentType ≠ ContentType_Nack → 0 < x.produced.freshnessPeriod) := by
  obtain ⟨⟨st, d, timeslot, content, hproduced⟩, hdata⟩ := hx
  have hverifies : x.produced.Verifies := by
    rw [hproduced]
    exact hP st d timeslot content
  obtain ⟨sig, hsig, -⟩ := signedButFreshness_of_verifies hverifies
  have hcovers := (Data.verifies_iff hsig).mp hverifies
  have hset : x.data.signature = some sig := by
    rw [hdata]
    exact hsig
  rw [staysSigned_iff hn hset, hdata, hcovers]
  refine and_congr_left fun _ => ⟨fun h => congrArg SignedFields.name h, fun h => ?_⟩
  rw [← h]
  rfl

/-! ## The replies -/

/-- **When signed replies stay signed.**  In every state a run of the manager service reaches,
and in every run of a thermometer, on the nodes they register their routes with:

* the Data a `READ` request is answered with is a key that was set to be fresh for a second,
  and stays signed exactly when it was signed with that freshness period;
* a certificate stays signed exactly when its signature was made for the name of the interest,
  which it never was if it is stored as it was issued;
* a sample stays signed exactly when the producer made it under the name of the interest, with
  a freshness period unless it is a Nack. -/
theorem signedReplies_staySigned_iff {L : GroupLib} {P : ProducerLib} {σ τ : Type}
    (hL : L.SignsKeys) (hP : P.SignsSamples) (p tp : Name) (keychain tkeychain : KeyChain)
    (handler : ServiceRoute → InterestHandler σ)
    (onGetContentKey onGetTemperature : InterestHandler τ) (E : ServiceEnv)
    (fromIsoString : Bytes → Except Exn TimePoint) (getTemp : ℕ → ℤ)
    (keysize : ℕ) (events : List ServiceEvent) (interest : Interest) (args : Name)
    (t : Thermometer P) (tevents : List ThermometerEvent) :
    let n := addRoutes (NodeImpl.ofPrefix p keychain) handler
    let T : ThermometerEnv τ := ⟨fromIsoString, getTemp,
      registerThermometer (NodeImpl.ofPrefix tp tkeychain) onGetContentKey onGetTemperature⟩
    let s := (Service.ofPrefix L p keysize).run E events
    (∀ r, s.handle E .read interest args (Data.empty.setName interest.name) = some r →
      ∀ d ∈ r.2.puts, ∃ key sig, s.ReadsKey key ∧ SignedButFreshness key sig ∧
        d = key.setFreshnessPeriod 1000 ∧
          (StaysSigned n ServiceRoute.read.path interest d ↔ sig.covers.freshnessPeriod = 1000)) ∧
    (∀ cert sig, s.manager.getIdentity args = some cert → cert.data.signature = some sig →
      (s.onGetIdentityKey interest args (Data.empty.setName interest.name)).puts =
          [cert.data.setName interest.name] ∧
        (StaysSigned n ServiceRoute.identityFor.path interest (cert.data.setName interest.name) ↔
          sig.covers = (cert.data.setName interest.name).signedFields ∧
            0 < cert.data.freshnessPeriod) ∧
        (cert.data.Verifies → interest.name = p ++ ServiceRoute.identityFor.path ++ args →
          ¬ StaysSigned n ServiceRoute.identityFor.path interest
            (cert.data.setName interest.name))) ∧
    ∀ x ∈ Thermometer.samples T t tevents,
      (StaysSigned T.node [] x.interest x.data ↔
        x.produced.name = x.interest.name ∧
          (x.produced.contentType ≠ ContentType_Nack → 0 < x.produced.freshnessPeriod)) := by
  intro n T s
  have hn : n.WithoutProcessors :=
    withoutProcessors_addRoutes NodeImpl.withoutProcessors_ofPrefix handler
  have hT : T.node.WithoutProcessors := withoutProcessors_registerThermometer
    NodeImpl.withoutProcessors_ofPrefix onGetContentKey onGetTemperature
  refine ⟨fun r hr d hd => ?_, fun cert sig hcert hsig => ⟨?_, ?_, fun hissued hname => ?_⟩,
    fun x hx => ?_⟩
  · obtain ⟨key, sig, hkey, hsig, rfl⟩ :=
      Service.puts_onRead hL (Service.cacheSigned_run hL E p keysize events) hr hd
    exact ⟨key, sig, hkey, hsig, rfl, staysSigned_setFreshnessPeriod_iff hn hsig⟩
  · rw [Service.onGetIdentityKey_of_some hcert]
  · exact staysSigned_setName_iff hn hsig interest.name
  · refine not_staysSigned_setName hn hissued fun heq => ?_
    -- the certificate is stored under its own name, which is shorter than the interest's
    have hfiled := (Service.filed_run E p keysize events).identities _ cert hcert
    have hlength := congrArg List.length
      ((Name.toUri_injective hfiled).symm.trans (heq.trans hname))
    simp only [List.length_append, ServiceRoute.path, List.length_cons, List.length_nil] at hlength
    omega
  · exact staysSigned_sample_iff hP hT (Thermometer.ofProducer_of_mem_samples hx)

/-- The node of a manager service, with handlers that put nothing. -/
def quietNode : NodeImpl Unit :=
  addRoutes (NodeImpl.ofPrefix [Component.of "P"] ⟨bytes "manager"⟩)
    fun _ s _ _ data => (s, ⟨[], data, .ok false⟩)

/-- The certificate of an entity, added under its own name, does not stay signed when it is
served. -/
theorem stored_certificate_not_staysSigned :
    let name : Name :=
      Component.of "P" :: ServiceRoute.identityFor.path ++ Service.aliceCertificate.name
    ¬ StaysSigned quietNode ServiceRoute.identityFor.path ⟨name, []⟩
      (Service.aliceCertificate.data.setName name) :=
  ((signedReplies_staySigned_iff (τ := Unit) memoryGroups_signsKeys plainProducer_signsSamples
    [Component.of "P"] [Component.of "T"] ⟨bytes "manager"⟩ ⟨bytes "thermometer"⟩
    (fun _ s _ _ data => (s, ⟨[], data, .ok false⟩)) (fun s _ _ data => (s, ⟨[], data, .ok false⟩))
    (fun s _ _ data => (s, ⟨[], data, .ok true⟩)) Service.oneDay (fun _ => .ok 0) (fun _ => 21) 2048
    [.request .identityAdd ⟨[Component.of "add"], []⟩ Service.aliceCertificate.name,
      .keyArrives 0 Service.aliceCertificate.data]
    ⟨Component.of "P" :: ServiceRoute.identityFor.path ++ Service.aliceCertificate.name, []⟩
    Service.aliceCertificate.name ⟨(), ∅, [], 0⟩ []).2.1 Service.aliceCertificate
      ⟨bytes "authority", Service.aliceCertificate.data.signedFields⟩ (by decide +kernel) rfl).2.2
    rfl rfl

/-- The E-KEY of a data type, which the library signs to be fresh for an hour, does not stay
signed when it is served. -/
theorem served_ekey_not_staysSigned :
    ¬ ∀ (L : GroupLib), L.SignsKeys → ∀ (p : Name) (keychain : KeyChain)
      (handler : ServiceRoute → InterestHandler Unit) (E : ServiceEnv) (keysize : ℕ)
      (events : List ServiceEvent) (interest : Interest) (args : Name)
      (r : Service L × HandlerRun),
        ((Service.ofPrefix L p keysize).run E events).handle E .read interest args
          (Data.empty.setName interest.name) = some r →
        ∀ d ∈ r.2.puts, StaysSigned (addRoutes (NodeImpl.ofPrefix p keychain) handler)
          ServiceRoute.read.path interest d := by
  intro h
  let interest : Interest :=
    ⟨[Component.of "P", Component.of "READ", Component.of "health", Component.of "E-KEY"],
      [Component.of "20170703T000000"]⟩
  let handled := ((Service.ofPrefix memoryGroups [Component.of "P"] 2048).run Service.oneDay
    [.request .accessGrant ⟨[Component.of "grant"], []⟩
      [Component.of "/alice", Component.of "/health"]]).handle Service.oneDay .read interest
    [Component.of "health", Component.of "E-KEY"] (Data.empty.setName interest.name)
  have hbroken : (handled.any fun r => r.2.puts.any fun d =>
      d.signature.isSome && !decide d.Verifies) = true := by decide +kernel
  obtain ⟨r, hr, hputs⟩ := (Option.any_eq_true _ _).mp hbroken
  obtain ⟨d, hd, hd'⟩ := List.any_eq_true.mp hputs
  rw [Bool.and_eq_true, Bool.not_eq_true', decide_eq_false_iff_not] at hd'
  exact hd'.2 (h memoryGroups memoryGroups_signsKeys [Component.of "P"] ⟨bytes "manager"⟩
    (fun _ s _ _ data => (s, ⟨[], data, .ok false⟩)) _ _ _ _ _ r hr d hd hd'.1).1

end Nacapp
