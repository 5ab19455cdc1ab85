import Nacapp.Manager.Requests
import Nacapp.Manager.ServiceCalls

/-!
# The node of the manager as calls on the manager

From the face down to the table of members.  What the face delivers to the node of the manager
is an interest, or the end of an interest the node has expressed.  `Service.decoded` says which
events of the service this stands for: an interest whose name is a route and its arguments is one
request, however many filters are installed; any other interest is nothing; and an interest for a
key ends with the Data that came, or with one that is no certificate.

* `run_eq_decoded`: as long as the service has a meaning, every run of the face is a run of the
  service on the decoded events.
* `node_isMember_iff`: who has access after a run of the face.
-/

namespace Nacapp
namespace Service

open Transitions

variable {L : GroupLib} (E : ServiceEnv) (servicePrefix : Name) (keychain : KeyChain)

/-! ## Decoding -/

/-- The route of a path. -/
def routeOf (path : Name) : Option ServiceRoute :=
  [ServiceRoute.read, .identityFor, .identityAdd, .identityRemove, .accessGrant,
    .accessRevoke].find? fun route => route.path = path

theorem routeOf_path (route : ServiceRoute) : routeOf route.path = some route := by
  cases route <;> decide

theorem path_of_routeOf {path : Name} {route : ServiceRoute} (h : routeOf path = some route) :
    route.path = path := by
  have hfound := List.find?_some h
  exact of_decide_eq_true hfound

/-- The key that the end of an interest brings; a Data that is no certificate when it brings
none. -/
def keyOf : Answer → Data
  | .data d => d
  | .nack | .timeout => NodeImpl.timeoutData []

/-- The request that an interest is. -/
def requestOf (n : NodeImpl (Option (Service L))) (i : Interest) : List ServiceEvent :=
  match n.parseInterestName i with
  | .error _ => []
  | .ok parts => (routeOf parts.path).toList.map fun route => .request route i parts.args

/-- The events of the service that an event of the face stands for. -/
def decoded (n : NodeImpl (Option (Service L))) : FaceEvent → List ServiceEvent
  | .interest i => requestOf n i
  | .ended index answer => [.keyArrives index (keyOf answer)]

theorem requestOf_of_route {n : NodeImpl (Option (Service L))} {i : Interest} {parts : ParsedName}
    {route : ServiceRoute} (hparse : n.parseInterestName i = .ok parts)
    (hpath : parts.path = route.path) : requestOf n i = [.request route i parts.args] := by
  rw [requestOf, hparse]
  dsimp only
  rw [hpath, routeOf_path]
  rfl

theorem requestOf_of_not_route {n : NodeImpl (Option (Service L))} {i : Interest}
    (h : ∀ parts (route : ServiceRoute), n.parseInterestName i = .ok parts →
      parts.path ≠ route.path) : requestOf n i = [] := by
  rw [requestOf]
  cases hparse : n.parseInterestName i with
  | error e => rfl
  | ok parts =>
    dsimp only
    cases hfind : routeOf parts.path with
    | none => rfl
    | some route => exact absurd (path_of_routeOf hfind).symm (h parts route hparse)

/-! ## Interests -/

variable {E servicePrefix keychain}

/-- An interest that changes nothing at one filter changes nothing at any number of them. -/
theorem interestArrives_of_unchanged {i : Interest} {t : Option (Service L)}
    (h : ((node E L servicePrefix keychain).onInterest i t).1 = t) (filters : List Name) :
    ((node E L servicePrefix keychain).interestArrives i filters t).1 = t := by
  induction filters with
  | nil => rfl
  | cons f filters ih =>
    rw [NodeImpl.interestArrives]
    split
    · dsimp only
      rw [h]
      exact ih
    · exact ih

/-- The name of an interest that is split at a route is the route and the arguments. -/
theorem name_of_parseInterestName {i : Interest} {parts : ParsedName} {route : ServiceRoute}
    (hparse : (node E L servicePrefix keychain).parseInterestName i = .ok parts)
    (hpath : route.path = parts.path) :
    i.name = servicePrefix ++ (route.path ++ parts.args) := by
  have hsplit := NodeImpl.isSplit_of_parseInterestName _ hparse
  rw [← hsplit.lossless, hsplit.namePrefix_eq, hpath, List.append_assoc]
  rfl

/-- An interest is the request it is decoded into. -/
theorem interest_eq_decoded {s s' : Service L} {i : Interest}
    (h : faceStep E (node E L servicePrefix keychain) (some s) (.interest i) = some s') :
    s' = s.run E (decoded (node E L servicePrefix keychain) (.interest i)) := by
  have harrives : ((node E L servicePrefix keychain).interestArrives i
      (node E L servicePrefix keychain).registerPrefixes (some s)).1 = some s' := h
  show s' = s.run E (requestOf (node E L servicePrefix keychain) i)
  rcases onInterest_cases L E servicePrefix keychain i (some s) with
    ⟨hsame, hnone⟩ | ⟨parts, route, hparse, hpath, hhandled⟩
  · rw [interestArrives_of_unchanged hsame] at harrives
    rw [requestOf_of_not_route hnone]
    exact (Option.some.inj harrives).symm
  · rw [interestArrives_route L E servicePrefix keychain
      (name_of_parseInterestName hparse hpath.symm), hhandled, handler] at harrives
    rw [requestOf_of_route hparse hpath]
    show s' = ((s.handle E route i parts.args (Data.empty.setName i.name)).map Prod.fst).getD s
    cases hrun : s.handle E route i parts.args (Data.empty.setName i.name) with
    | none =>
      simp only [hrun] at harrives
      exact absurd harrives (by simp)
    | some r =>
      simp only [hrun] at harrives
      exact (Option.some.inj harrives).symm

/-- The end of an interest brings the key it is decoded into. -/
theorem ended_eq_decoded {s s' : Service L} {index : ℕ} {answer : Answer}
    (h : faceStep E (node E L servicePrefix keychain) (some s) (.ended index answer) = some s') :
    s' = s.run E (decoded (node E L servicePrefix keychain) (.ended index answer)) := by
  have hended : (s.interestEnded E (node E L servicePrefix keychain) index answer).1 = s' :=
    Option.some.inj h
  show s' = (s.keyArrives E index (keyOf answer)).1
  rw [← hended]
  unfold interestEnded
  cases hp : s.pending[index]? with
  | none => rw [keyArrives, hp]
  | some p =>
    have hnone (name : Name) : (s.keyArrives E index (NodeImpl.timeoutData name)).1 =
        { s with pending := s.pending.eraseIdx index } := by
      have hcert : Certificate.ofData (NodeImpl.timeoutData name) = none := by
        rw [Certificate.ofData_eq_none_iff, isCertificate_timeoutData]
        exact Bool.false_ne_true
      rw [keyArrives, hp]
      dsimp only
      rw [onAddIdentityKey_of_none hcert]
    cases answer with
    | data d => rfl
    | nack => exact (hnone []).symm
    | timeout => exact (hnone p.entity).trans (hnone []).symm

/-- **One event of the face** is the events of the service it is decoded into. -/
theorem faceStep_eq_decoded {s s' : Service L} {event : FaceEvent}
    (h : faceStep E (node E L servicePrefix keychain) (some s) event = some s') :
    s' = s.run E (decoded (node E L servicePrefix keychain) event) := by
  cases event with
  | interest i => exact interest_eq_decoded h
  | ended index answer => exact ended_eq_decoded h

/-! ## Runs -/

/-- A service that has lost its meaning does not get it back. -/
theorem exec_faceStep_none (events : List FaceEvent) :
    exec (faceStep E (node E L servicePrefix keychain)) none events = none := by
  induction events with
  | nil => rfl
  | cons event events ih =>
    have hstep : faceStep E (node E L servicePrefix keychain) none event = none := by
      cases event with
      | interest i => exact interestArrives_none L E servicePrefix keychain i _
      | ended index answer => rfl
    rw [exec_cons, hstep]
    exact ih

/-- **A run of the face is a run of the service** on the decoded events, as long as no handler
reads an argument that is not there. -/
theorem run_eq_decoded {s s' : Service L} {events : List FaceEvent}
    (h : exec (faceStep E (node E L servicePrefix keychain)) (some s) events = some s') :
    s' = s.run E (events.flatMap (decoded (node E L servicePrefix keychain))) := by
  induction events generalizing s with
  | nil => exact (Option.some.inj h).symm
  | cons event events ih =>
    rw [exec_cons] at h
    rw [List.flatMap_cons, run, exec_append]
    cases hstep : faceStep E (node E L servicePrefix keychain) (some s) event with
    | none =>
      rw [hstep, exec_faceStep_none] at h
      exact absurd h (by simp)
    | some s₁ =>
      rw [hstep] at h
      rw [← run, ← run, ← faceStep_eq_decoded hstep]
      exact ih h

/-- **Who has access after a run of the face**: an identity is a member of a data type exactly when
an interest for a key ended with a certificate of this identity, the data type was granted to the
name of this certificate while it was the last one under its name, and was not revoked since. -/
theorem node_isMember_iff (hK : L.KeepsMembers) (hN : L.NamesMembers) (E : ServiceEnv)
    (servicePrefix : Name) (keychain : KeyChain) (keysize : ℕ) (events : List FaceEvent)
    {s' : Service L}
    (h : exec (faceStep E (node E L servicePrefix keychain))
      (some (ofPrefix L servicePrefix keysize)) events = some s') (t identity : Name) :
    (∃ x ∈ s'.manager.membersOf t, x.identity = identity) ↔
      ∃ before, ∃ cert : Certificate, ∃ between ni after,
        callsIn E (ofPrefix L servicePrefix keysize)
            (events.flatMap (decoded (node E L servicePrefix keychain))) =
          before ++ .addIdentity cert.name cert.data :: between ++
            .grantAccess cert.name t ni :: after ∧
          cert.identity = identity ∧ (∀ op ∈ between, op.writesIdentity cert.name = none) ∧
            ∀ op ∈ after, op.revokes t = false := by
  rw [run_eq_decoded h]
  exact exists_member_iff_callsIn hK hN E servicePrefix keysize _ t identity

/-- Three events of the face that give alice access to `health`. -/
def aliceAdmitted : List FaceEvent :=
  [.interest ⟨Component.of "P" :: ServiceRoute.identityAdd.path ++ aliceCertificate.name, []⟩,
    .ended 0 (.data aliceCertificate.data),
    .interest ⟨Component.of "P" :: ServiceRoute.accessGrant.path ++
      [⟨aliceCertificate.name.toUri⟩, Component.of "/health"], []⟩]

/-- A node that has heard them has her as a member. -/
theorem alice_isMember_of_node :
    ∃ s', exec (faceStep oneDay (node oneDay memoryGroups [Component.of "P"] ⟨bytes "manager"⟩))
        (some (ofPrefix memoryGroups [Component.of "P"] 2048)) aliceAdmitted = some s' ∧
      ∃ x ∈ s'.manager.membersOf [Component.of "health"], x.identity = [Component.of "alice"] := by
  have hsome : (exec (faceStep oneDay (node oneDay memoryGroups [Component.of "P"]
      ⟨bytes "manager"⟩)) (some (ofPrefix memoryGroups [Component.of "P"] 2048))
        aliceAdmitted).isSome = true := by
    decide +kernel
  obtain ⟨s', hs'⟩ := Option.isSome_iff_exists.mp hsome
  exact ⟨s', hs', (node_isMember_iff memoryGroups_keepsMembers memoryGroups_namesMembers oneDay
    [Component.of "P"] ⟨bytes "manager"⟩ 2048 aliceAdmitted hs' _ _).mpr
      ⟨[], aliceCertificate, [], ⟨[Component.of "health20170703T000000Z20180730T000000Z0024"],
        ⟨⟨⟨2017, 7, 3⟩, 0⟩, ⟨⟨2017, 7, 3⟩, 0⟩, 0, 24, 1, .day⟩⟩, [], rfl,
        by decide +kernel,
        fun op h => absurd h List.not_mem_nil, fun op h => absurd h List.not_mem_nil⟩⟩

end Service
end Nacapp
