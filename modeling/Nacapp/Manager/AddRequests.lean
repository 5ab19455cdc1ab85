import Nacapp.Lib.Ledger
import Nacapp.Lib.OrderedScan
import Nacapp.Manager.Requests

/-!
# Requests to add identities

`onAddIdentity` answers later: it expresses an interest for the entity and returns `true`, and
the reply travels through two callbacks, the receiver of that interest and the put of the
request.  Any number of requests may be outstanding at once, and the interests end in any
order.

A run of the manager node is followed beside a ledger of the requests, which numbers them, so
that every packet can be traced to the request whose callback put it.

* `Tracks`: what the service has on record is what is outstanding in the ledger.
* `simulation_ledger`: the replies of a run are those of the closings of its ledger, one for a
  certificate and none for any other outcome.
* `allAnswered_iff`: when nothing is outstanding, every request has had its reply exactly when
  every interest has ended with a certificate.  On a network Nack the receiver is not called,
  and on a timeout or on any other Data it throws before the put.
-/

namespace Nacapp

open Transitions Ledger OrderedScan

/-! ## Requests and outcomes -/

/-- An interest for `MANAGEMENT/identity/add` arrives, or the interest that the outstanding
request of that index has expressed ends. -/
inductive AddEvent where
  | requested (args : Name) (exclude : List Component)
  | ended (index : ℕ) (answer : Answer)

/-- The certificate that ends an interest, if one does. -/
def arrivedCert : Answer → Option Certificate
  | .data d => Certificate.ofData d
  | .nack => none
  | .timeout => none

/-- A Nack to an interest, of the network or of the application. -/
def IsNackTo (i : Interest) : Packet → Prop
  | .nack j => j = i
  | .data d => d.contentType = ContentType_Nack

/-- The reply that is due: Data that names the certificate if one arrived, a Nack otherwise. -/
def IsReply (i : Interest) (answer : Answer) (reply : Packet) : Prop :=
  match arrivedCert answer with
  | some cert => ∃ d, reply = .data d ∧ d.name = i.name ∧ d.content = cert.name.toUri
  | none => IsNackTo i reply

/-- What a request to add an identity leaves on record. -/
def addRequest (servicePrefix args : Name) (exclude : List Component) : PendingAdd :=
  let i : Interest := ⟨servicePrefix ++ (ServiceRoute.identityAdd.path ++ args), exclude⟩
  ⟨args, i, Data.empty.setName i.name⟩

/-- The event as the face delivers it. -/
def AddEvent.faceEvent (servicePrefix : Name) : AddEvent → FaceEvent
  | .requested args exclude => .interest (addRequest servicePrefix args exclude).interest
  | .ended index answer => .ended index answer

/-- The event in the ledger. -/
def AddEvent.ledgerEvent (servicePrefix : Name) : AddEvent → Event PendingAdd Answer
  | .requested args exclude => .opened (addRequest servicePrefix args exclude)
  | .ended index answer => .closed index answer

/-- A service, as it is seen by the face, and the ledger beside it. -/
structure AddState (L : GroupLib) where
  service : Option (Service L)
  ledger : State PendingAdd

/-- A manager without outstanding requests. -/
def AddState.start {L : GroupLib} (m : Manager L) : AddState L := ⟨some ⟨m, []⟩, {}⟩

namespace Service

variable {L : GroupLib}

/-- The packets that the callback of an event puts. -/
def sentBy (E : ServiceEnv) (n : NodeImpl (Option (Service L))) :
    Option (Service L) → FaceEvent → List Packet
  | s, .interest i => NodeImpl.packets (n.interestArrives i n.registerPrefixes s).2
  | none, .ended _ _ => []
  | some s, .ended index answer =>
    match s.pending[index]? with
    | none => []
    | some p =>
      match n.received p.entity answer with
      | .ok (some d) =>
        NodeImpl.packets
          (n.answer ServiceRoute.identityAdd.path p.interest (s.keyArrives E index d).2).1
      | _ => []

/-- The number of the request on whose behalf the callback of an event runs. -/
def caller (l : State PendingAdd) : AddEvent → Option ℕ
  | .requested _ _ => some l.requests.length
  | .ended index _ => l.outstanding[index]?.map Prod.fst

section Runs

variable (L) (E : ServiceEnv) (servicePrefix : Name) (keychain : KeyChain)

def addStep (s : AddState L) (event : AddEvent) : AddState L :=
  ⟨faceStep E (node E L servicePrefix keychain) s.service (event.faceEvent servicePrefix),
    Ledger.step s.ledger (event.ledgerEvent servicePrefix)⟩

/-- The packets of an event, under the number of the request. -/
def repliesBy (s : AddState L) (event : AddEvent) : List (ℕ × Packet) :=
  match caller s.ledger event with
  | none => []
  | some k =>
    (sentBy E (node E L servicePrefix keychain) s.service
      (event.faceEvent servicePrefix)).map (Prod.mk k)

/-- The state after a run of events. -/
def afterAdds (m : Manager L) (events : List AddEvent) : AddState L :=
  exec (addStep L E servicePrefix keychain) (.start m) events

/-- The replies to the request of that number. -/
def repliesTo (m : Manager L) (events : List AddEvent) (k : ℕ) : List Packet :=
  ofNumber k (emitted (addStep L E servicePrefix keychain) (repliesBy L E servicePrefix keychain)
    (.start m) events)

/-- How the interests of a run ended. -/
def outcomes (events : List AddEvent) : List (Closing PendingAdd Answer) :=
  closings (events.map (AddEvent.ledgerEvent servicePrefix))

end Runs

/-- `m_identities`, as long as the service has a meaning. -/
def identitiesOf (s : AddState L) : Option (Std.ExtTreeMap Bytes Certificate) :=
  s.service.map fun t => t.manager.identities

/-- **Every request of a run is answered**: its interest has ended, once, and it has had one
reply, the one that is due; the identities have gained the certificates that arrived; and an
interest that ended without one has left them as they were. -/
structure AllAnswered (L : GroupLib) (E : ServiceEnv) (servicePrefix : Name) (keychain : KeyChain)
    (m : Manager L) (events : List AddEvent) : Prop where
  answered : ∀ k p,
    (afterAdds L E servicePrefix keychain m events).ledger.requests[k]? = some p →
      ∃ answer reply,
        (outcomes servicePrefix events).filter (fun c => c.number == k) = [⟨k, p, answer⟩] ∧
        repliesTo L E servicePrefix keychain m events k = [reply] ∧
        IsReply p.interest answer reply
  gained : identitiesOf (afterAdds L E servicePrefix keychain m events) =
    some (fileAll (fun cert => cert.name.toUri) m.identities
      ((outcomes servicePrefix events).filterMap fun c => arrivedCert c.outcome))
  unchanged : ∀ pre index answer post, events = pre ++ .ended index answer :: post →
    arrivedCert answer = none →
      identitiesOf (afterAdds L E servicePrefix keychain m (pre ++ [.ended index answer])) =
        identitiesOf (afterAdds L E servicePrefix keychain m pre)

/-! ## One callback -/

section Callbacks

variable (E : ServiceEnv) (servicePrefix : Name) (keychain : KeyChain)

/-- The manager after the outcome of an interest. -/
def gain (m : Manager L) : Option Certificate → Manager L
  | none => m
  | some cert => { m with identities := m.identities.insert cert.name.toUri cert }

/-- What a request is replied after the outcome of its interest. -/
def replyTo (L : GroupLib) (p : PendingAdd) : Option Certificate → List Packet
  | none => []
  | some cert =>
    [.data (NodeImpl.defaultFreshness ((node E L servicePrefix keychain).signIfUnsigned
      ((p.data.setName p.interest.name).setContent cert.name.toUri)))]

/-- A request is put on record, and nothing is sent. -/
theorem callback_requested (t : Service L) (args : Name) (exclude : List Component) :
    let n := node E L servicePrefix keychain
    let p := addRequest servicePrefix args exclude
    faceStep E n (some t) (.interest p.interest) =
        some { t with pending := t.pending ++ [p] } ∧
      sentBy E n (some t) (.interest p.interest) = [] := by
  intro n p
  have hname : p.interest.name = servicePrefix ++ (ServiceRoute.identityAdd.path ++ args) := rfl
  have hrun : t.handle E .identityAdd p.interest args (Data.empty.setName p.interest.name) =
      some ({ t with pending := t.pending ++ [p] },
        ⟨[], Data.empty.setName p.interest.name, .ok true⟩) := rfl
  have harrives : n.interestArrives p.interest n.registerPrefixes (some t) =
      (some { t with pending := t.pending ++ [p] },
        [.handled ServiceRoute.identityAdd.path args]) := by
    rw [interestArrives_route L E servicePrefix keychain hname,
      onInterest_route L E servicePrefix keychain hname hrun]
    rfl
  constructor
  · rw [faceStep, callBack, harrives]
  · rw [sentBy, harrives]
    rfl

/-- What `showInterest` hands to the receiver on the manager node. -/
theorem received_node (name : Name) (answer : Answer) :
    ∃ delivered, (node E L servicePrefix keychain).received name answer = .ok delivered ∧
      delivered.bind Certificate.ofData = arrivedCert answer := by
  have htimeout : Certificate.ofData (NodeImpl.timeoutData name) = none := by
    rw [Certificate.ofData_eq_none_iff, isCertificate_timeoutData]
    exact Bool.false_ne_true
  cases answer with
  | data d => exact ⟨some d, rfl, rfl⟩
  | nack => exact ⟨none, rfl, rfl⟩
  | timeout => exact ⟨some (NodeImpl.timeoutData name), rfl, htimeout⟩

/-- **The end of an interest** takes the request off the record.  A certificate is filed, and
put by its name; without one nothing is filed and nothing is put. -/
theorem callback_ended {t : Service L} {index : ℕ} {p : PendingAdd}
    (hp : t.pending[index]? = some p) (hdata : p.data.contentType ≠ ContentType_Nack)
    (answer : Answer) :
    let n := node E L servicePrefix keychain
    faceStep E n (some t) (.ended index answer) =
        some ⟨gain t.manager (arrivedCert answer), t.pending.eraseIdx index⟩ ∧
      sentBy E n (some t) (.ended index answer) =
        replyTo E servicePrefix keychain L p (arrivedCert answer) := by
  intro n
  obtain ⟨delivered, hreceived, hcert⟩ :=
    received_node (L := L) E servicePrefix keychain p.entity answer
  rw [← hcert]
  rw [faceStep, callBack, interestEnded, sentBy, hp]
  dsimp only
  rw [hreceived]
  cases delivered with
  | none => exact ⟨rfl, rfl⟩
  | some d =>
    have harrives : t.keyArrives E index d =
        ({ t with pending := t.pending.eraseIdx index } : Service L).onAddIdentityKey E
          p.interest p.data d := by
      rw [keyArrives, hp]
    dsimp only
    rw [harrives, Option.bind_some]
    cases hof : Certificate.ofData d with
    | none =>
      rw [onAddIdentityKey_of_none hof]
      exact ⟨rfl, rfl⟩
    | some cert =>
      rw [onAddIdentityKey_of_some hof]
      refine ⟨rfl, ?_⟩
      have hnack : ((p.data.setName p.interest.name).setContent cert.name.toUri).contentType ≠
          ContentType_Nack := hdata
      dsimp only
      rw [NodeImpl.answer, NodeImpl.issuePuts, n.sendData_of_process hnack
        (NodeImpl.process_of_withoutProcessors (withoutProcessors_node L E servicePrefix keychain)
          _ _)]
      rfl

/-! ## The service beside its ledger -/

/-- What the service has on record is what is outstanding in the ledger, each request with a
Data that only its name was set of. -/
structure Tracks (t : Service L) (l : State PendingAdd) : Prop where
  pending : t.pending = l.outstanding.map Prod.snd
  data : ∀ p ∈ t.pending, p.data = Data.empty.setName p.interest.name

/-- The service has a meaning, and its ledger tracks it. -/
def Tracked (s : AddState L) : Prop := ∃ t, s.service = some t ∧ Tracks t s.ledger

theorem Tracks.requested {t : Service L} {l : State PendingAdd} (h : Tracks t l) (args : Name)
    (exclude : List Component) :
    Tracks { t with pending := t.pending ++ [addRequest servicePrefix args exclude] }
      (Ledger.step l ((AddEvent.requested args exclude).ledgerEvent servicePrefix)) := by
  refine ⟨?_, fun p hp => ?_⟩
  · show t.pending ++ _ = (l.outstanding ++ _).map Prod.snd
    rw [List.map_append, h.pending]
    rfl
  · rcases List.mem_append.mp hp with hp | hp
    · exact h.data p hp
    · rw [List.mem_singleton.mp hp]
      rfl

theorem Tracks.ended {t : Service L} {l : State PendingAdd} (h : Tracks t l) (index : ℕ)
    (answer : Answer) (m : Manager L) :
    Tracks ⟨m, t.pending.eraseIdx index⟩ (Ledger.step l (.closed index answer)) := by
  refine ⟨?_, fun p hp => h.data p (List.eraseIdx_subset hp)⟩
  show t.pending.eraseIdx index = (l.outstanding.eraseIdx index).map Prod.snd
  rw [h.pending, List.eraseIdx_map]

variable (L)

/-- What the closing of a request in the ledger stands for. -/
def closingReplies (c : Closing PendingAdd Answer) : List Packet :=
  replyTo E servicePrefix keychain L c.request (arrivedCert c.outcome)

variable {L}

/-- The manager after an event of the ledger. -/
def gainAll (m : Manager L) (cs : List (Closing PendingAdd Answer)) : Manager L :=
  cs.foldl (fun m c => gain m (arrivedCert c.outcome)) m

variable (L) in
/-- An event of a service that its ledger tracks: it stays tracked, what the manager gains is what
the closings of the event stand for, and so is what is put. -/
structure Follows (s : AddState L) (t : Service L) (event : AddEvent) : Prop where
  tracked : ∃ t', (addStep L E servicePrefix keychain s event).service = some t' ∧
    Tracks t' (addStep L E servicePrefix keychain s event).ledger ∧
    t'.manager = gainAll t.manager (closing s.ledger (event.ledgerEvent servicePrefix))
  replies : repliesBy L E servicePrefix keychain s event =
    (closing s.ledger (event.ledgerEvent servicePrefix)).flatMap
      (numbered (closingReplies L E servicePrefix keychain))

theorem follows_requested {s : AddState L} {t : Service L} (hs : s.service = some t)
    (h : Tracks t s.ledger) (args : Name) (exclude : List Component) :
    Follows L E servicePrefix keychain s t (.requested args exclude) := by
  obtain ⟨hstep, hsent⟩ := callback_requested E servicePrefix keychain t args exclude
  refine ⟨⟨_, ?_, h.requested servicePrefix args exclude, rfl⟩, ?_⟩
  · rw [addStep, hs]
    exact hstep
  · rw [repliesBy, caller, hs]
    dsimp only
    rw [AddEvent.faceEvent, hsent]
    rfl

/-- There is no outstanding request of that index. -/
theorem follows_ended_none {s : AddState L} {t : Service L} (hs : s.service = some t)
    (h : Tracks t s.ledger) {index : ℕ} (hout : s.ledger.outstanding[index]? = none)
    (answer : Answer) : Follows L E servicePrefix keychain s t (.ended index answer) := by
  have hcs : closing s.ledger ((AddEvent.ended index answer).ledgerEvent servicePrefix) = [] := by
    rw [AddEvent.ledgerEvent, closing, hout]
    rfl
  have hget : t.pending[index]? = none := by
    rw [h.pending, List.getElem?_map, hout, Option.map_none]
  have hstep : faceStep E (node E L servicePrefix keychain) (some t) (.ended index answer) =
      some t := by
    rw [faceStep, callBack, interestEnded, hget]
  have hsame : t.pending.eraseIdx index = t.pending :=
    List.eraseIdx_of_length_le (List.getElem?_eq_none_iff.mp hget)
  refine ⟨⟨t, ?_, ?_, ?_⟩, ?_⟩
  · rw [addStep, hs]
    exact hstep
  · have hkept := h.ended index answer t.manager
    rwa [hsame] at hkept
  · rw [hcs]
    rfl
  · rw [repliesBy, caller, hout, hcs]
    rfl

theorem follows_ended_some {s : AddState L} {t : Service L} (hs : s.service = some t)
    (h : Tracks t s.ledger) {index : ℕ} {e : ℕ × PendingAdd}
    (hout : s.ledger.outstanding[index]? = some e) (answer : Answer) :
    Follows L E servicePrefix keychain s t (.ended index answer) := by
  have hcs : closing s.ledger ((AddEvent.ended index answer).ledgerEvent servicePrefix) =
      [⟨e.1, e.2, answer⟩] := by
    rw [AddEvent.ledgerEvent, closing, hout]
    rfl
  have hget : t.pending[index]? = some e.2 := by
    rw [h.pending, List.getElem?_map, hout, Option.map_some]
  have hdata : e.2.data.contentType ≠ ContentType_Nack := by
    rw [h.data e.2 (List.mem_of_getElem? hget)]
    exact (by decide : ContentType_Blob ≠ ContentType_Nack)
  obtain ⟨hstep, hsent⟩ := callback_ended E servicePrefix keychain hget hdata answer
  refine ⟨⟨_, ?_, h.ended index answer (gain t.manager (arrivedCert answer)), ?_⟩, ?_⟩
  · rw [addStep, hs]
    exact hstep
  · rw [hcs]
    rfl
  · rw [repliesBy, caller, hout, hs, hcs, List.flatMap_singleton]
    dsimp only [Option.map_some]
    rw [AddEvent.faceEvent, hsent]
    rfl

/-- **One event** follows the ledger. -/
theorem follows {s : AddState L} {t : Service L} (hs : s.service = some t)
    (h : Tracks t s.ledger) (event : AddEvent) :
    Follows L E servicePrefix keychain s t event := by
  cases event with
  | requested args exclude => exact follows_requested E servicePrefix keychain hs h args exclude
  | ended index answer =>
    cases hout : s.ledger.outstanding[index]? with
    | none => exact follows_ended_none E servicePrefix keychain hs h hout answer
    | some e => exact follows_ended_some E servicePrefix keychain hs h hout answer

end Callbacks

/-! ## Runs -/

section Runs

variable (E : ServiceEnv) (servicePrefix : Name) (keychain : KeyChain)

theorem tracked_start (m : Manager L) : Tracked (AddState.start m) :=
  ⟨⟨m, []⟩, rfl, rfl, fun _ hp => absurd hp List.not_mem_nil⟩

/-- **The replies of a run are those of its ledger**, step by step. -/
theorem simulation_ledger (L : GroupLib) :
    Simulation (addStep L E servicePrefix keychain) (repliesBy L E servicePrefix keychain)
      Ledger.step
      (fun l event => (closing l event).flatMap
        (numbered (closingReplies L E servicePrefix keychain)))
      AddState.ledger (fun _ => AddEvent.ledgerEvent servicePrefix) Tracked fun _ _ => True where
  keeps s event hs _ := by
    obtain ⟨t, hservice, htracks⟩ := hs
    obtain ⟨t', hservice', htracks', -⟩ :=
      (follows E servicePrefix keychain hservice htracks event).tracked
    exact ⟨t', hservice', htracks'⟩
  state _ _ _ _ := rfl
  output s event hs _ := by
    obtain ⟨t, hservice, htracks⟩ := hs
    exact (follows E servicePrefix keychain hservice htracks event).replies

theorem ledger_afterAdds (m : Manager L) (events : List AddEvent) :
    (afterAdds L E servicePrefix keychain m events).ledger =
      after (events.map (AddEvent.ledgerEvent servicePrefix)) := by
  have hrun := ((simulation_ledger E servicePrefix keychain L).run
    (tracked_start m) (stepsMeet_true _ events)).1
  rwa [translated_eq_map] at hrun

/-- The replies to a request are those of its closings. -/
theorem repliesTo_eq (m : Manager L) (events : List AddEvent) (k : ℕ) :
    repliesTo L E servicePrefix keychain m events k =
      ((outcomes servicePrefix events).filter fun c => c.number == k).flatMap
        (closingReplies L E servicePrefix keychain) := by
  have hrun := ((simulation_ledger E servicePrefix keychain L).run
    (tracked_start m) (stepsMeet_true _ events)).2
  rw [translated_eq_map, emitted_flatMap] at hrun
  rw [repliesTo, hrun, ofNumber_flatMap_numbered]
  rfl

theorem identities_gainAll (m : Manager L) (cs : List (Closing PendingAdd Answer)) :
    (gainAll m cs).identities = fileAll (fun cert => cert.name.toUri) m.identities
      (cs.filterMap fun c => arrivedCert c.outcome) := by
  induction cs generalizing m with
  | nil => rfl
  | cons c cs ih =>
    have htail : (gainAll m (c :: cs)).identities =
        (gainAll (gain m (arrivedCert c.outcome)) cs).identities := rfl
    rw [htail, ih, List.filterMap_cons]
    cases arrivedCert c.outcome with
    | none => rfl
    | some cert => rfl

/-- **The identities gain the certificates that arrive**, and nothing else, in every run. -/
theorem identitiesOf_afterAdds (m : Manager L) (events : List AddEvent) :
    identitiesOf (afterAdds L E servicePrefix keychain m events) =
      some (fileAll (fun cert => cert.name.toUri) m.identities
        ((outcomes servicePrefix events).filterMap fun c => arrivedCert c.outcome)) := by
  have hclosings : emitted (addStep L E servicePrefix keychain)
      (fun s event => closing s.ledger (event.ledgerEvent servicePrefix)) (.start m)
      events = outcomes servicePrefix events := by
    have hread : Simulation (addStep L E servicePrefix keychain)
        (fun s event => closing s.ledger (event.ledgerEvent servicePrefix)) Ledger.step closing
        AddState.ledger (fun _ => AddEvent.ledgerEvent servicePrefix) (fun _ => True)
        (fun _ _ => True) :=
      ⟨fun _ _ _ _ => trivial, fun _ _ _ _ => rfl, fun _ _ _ _ => rfl⟩
    have hrun := (hread.run (s := .start m) trivial (stepsMeet_true _ events)).2
    rwa [translated_eq_map] at hrun
  let Gained : AddState L → List (Closing PendingAdd Answer) → Prop := fun s cs =>
    ∃ t, s.service = some t ∧ Tracks t s.ledger ∧ t.manager = gainAll m cs
  have hstart : Gained (.start m) [] := ⟨⟨m, []⟩, rfl, ⟨rfl, by simp⟩, rfl⟩
  have hrun : Gained (afterAdds L E servicePrefix keychain m events)
      (outcomes servicePrefix events) := by
    rw [← hclosings]
    refine invariant_emitted ?_ hstart events
    rintro s cs event ⟨t, hservice, htracks, hgained⟩
    obtain ⟨t', hservice', htracks', hgained'⟩ :=
      (follows E servicePrefix keychain hservice htracks event).tracked
    refine ⟨t', hservice', htracks', ?_⟩
    rw [hgained', hgained, gainAll, gainAll, gainAll, List.foldl_append]
  obtain ⟨t, hservice, -, hgained⟩ := hrun
  rw [identitiesOf, hservice, Option.map_some, hgained, identities_gainAll]

theorem outcomes_append (events : List AddEvent) (index : ℕ) (answer : Answer) :
    ∃ cs : List (Closing PendingAdd Answer), (∀ c ∈ cs, c.outcome = answer) ∧
      outcomes servicePrefix (events ++ [.ended index answer]) =
        outcomes servicePrefix events ++ cs := by
  refine ⟨closing (after (events.map (AddEvent.ledgerEvent servicePrefix)))
    (.closed index answer), fun c hc => ?_, ?_⟩
  · obtain ⟨e, -, rfl⟩ := Option.map_eq_some_iff.mp (Option.mem_toList.mp hc)
    rfl
  · rw [outcomes, List.map_append, closings, emitted_append]
    exact congrArg _ (List.append_nil _)

/-- An interest that ends without a certificate leaves the identities as they were. -/
theorem identitiesOf_ended {answer : Answer} (h : arrivedCert answer = none) (m : Manager L)
    (events : List AddEvent) (index : ℕ) :
    identitiesOf (afterAdds L E servicePrefix keychain m (events ++ [.ended index answer])) =
      identitiesOf (afterAdds L E servicePrefix keychain m events) := by
  obtain ⟨cs, hanswer, houtcomes⟩ := outcomes_append servicePrefix events index answer
  have hnone : cs.filterMap (fun c => arrivedCert c.outcome) = [] := by
    rw [List.filterMap_eq_nil_iff]
    intro c hc
    rw [hanswer c hc, h]
  rw [identitiesOf_afterAdds, identitiesOf_afterAdds, houtcomes, List.filterMap_append, hnone,
    List.append_nil]

/-- **Every request of a run is answered**, once nothing is outstanding, exactly when every
interest of the run has ended with a certificate. -/
theorem allAnswered_iff (m : Manager L) {events : List AddEvent}
    (hended : (afterAdds L E servicePrefix keychain m events).ledger.outstanding = []) :
    AllAnswered L E servicePrefix keychain m events ↔
      ∀ c ∈ outcomes servicePrefix events, (arrivedCert c.outcome).isSome := by
  have haccounted : Accounted (afterAdds L E servicePrefix keychain m events).ledger
      (outcomes servicePrefix events) := by
    rw [ledger_afterAdds]
    exact accounted_run _
  constructor
  · intro h c hc
    obtain ⟨answer, reply, honce, hreply, -⟩ := h.answered c.number c.request
      (haccounted.closed c hc)
    have hmem : c ∈ (outcomes servicePrefix events).filter fun c' => c'.number == c.number :=
      List.mem_filter.mpr ⟨hc, beq_self_eq_true _⟩
    rw [honce] at hmem
    rw [repliesTo_eq, honce, List.flatMap_singleton, closingReplies] at hreply
    rw [List.mem_singleton.mp hmem]
    cases hcert : arrivedCert answer with
    | none =>
      rw [hcert] at hreply
      exact absurd hreply (List.cons_ne_nil _ _).symm
    | some cert => rfl
  · intro h
    refine ⟨fun k p hk => ?_, identitiesOf_afterAdds E servicePrefix keychain m events,
      fun pre index answer _ _ hnone =>
        identitiesOf_ended E servicePrefix keychain hnone m pre index⟩
    obtain ⟨answer, honce⟩ := haccounted.closedOnce hended hk
    obtain ⟨hmem, -⟩ := List.mem_filter.mp (honce ▸ List.mem_singleton_self _)
    obtain ⟨cert, hcert⟩ := Option.isSome_iff_exists.mp (h _ hmem)
    have hreplies := repliesTo_eq E servicePrefix keychain m events k
    rw [honce, List.flatMap_singleton, closingReplies, hcert] at hreplies
    refine ⟨answer, _, honce, hreplies, ?_⟩
    rw [IsReply, hcert]
    refine ⟨_, rfl, ?_, ?_⟩
    · rw [NodeImpl.name_defaultFreshness_signIfUnsigned]
      rfl
    · rw [NodeImpl.content_defaultFreshness_signIfUnsigned]
      rfl

/-- A second certificate. -/
def bobCertificate : Certificate := ⟨Certificate.issued [Component.of "bob"], by decide⟩

/-- Two requests, whose certificates arrive in the other order. -/
def crossedAdds : List AddEvent :=
  [.requested [Component.of "alice"] [], .requested [Component.of "bob"] [],
    .ended 1 (.data bobCertificate.data), .ended 0 (.data aliceCertificate.data)]

/-- Both are answered. -/
theorem crossedAdds_answered :
    AllAnswered memoryGroups oneDay [Component.of "P"] ⟨bytes "manager"⟩
      (Manager.ofPrefix memoryGroups [Component.of "P"] 2048) crossedAdds :=
  (allAnswered_iff oneDay [Component.of "P"] ⟨bytes "manager"⟩
    (Manager.ofPrefix memoryGroups [Component.of "P"] 2048) rfl).mpr (by decide +kernel)

/-- A request whose interest ends with a network Nack is never answered. -/
theorem nackedAdd_not_answered :
    ¬ ∀ (L : GroupLib) (E : ServiceEnv) (servicePrefix : Name) (keychain : KeyChain)
      (m : Manager L) (events : List AddEvent),
        (afterAdds L E servicePrefix keychain m events).ledger.outstanding = [] →
          AllAnswered L E servicePrefix keychain m events := by
  intro h
  have hanswered := h memoryGroups oneDay [Component.of "P"] ⟨bytes "manager"⟩
    (Manager.ofPrefix memoryGroups [Component.of "P"] 2048)
    [.requested [Component.of "alice"] [], .ended 0 .nack] rfl
  obtain ⟨answer, reply, -, hreplies, -⟩ := hanswered.answered 0 _ rfl
  rw [repliesTo_eq] at hreplies
  exact absurd hreplies (List.cons_ne_nil reply []).symm

end Runs

end Service
end Nacapp
