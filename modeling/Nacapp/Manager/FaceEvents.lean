import Nacapp.Manager.Identities
import Nacapp.Node.Dispatch

/-!
# What stops the manager

The face calls the manager node back when an interest arrives (`onInterest`), and when an
interest the node has expressed ends (the callbacks of `showInterest`).  An exception that
leaves a callback leaves `processEvents` with it, and ends `serveForever`.

`onInterest` catches everything.  The callbacks of `showInterest` catch nothing: the receiver
is `onAddIdentityKey`, which makes a certificate of whatever it is handed, and on a timeout it
is handed a Data that is none.

`keepsServing_iff`: the manager goes on serving through a run exactly when no interest of the
run lacks an argument its handler reads (`HasArguments`; what happens then has no defined
meaning), and every interest for an identity key ends with a certificate or with a network
Nack.
-/

namespace Nacapp

open Transitions

/-! ## The manager node -/

/-- What the face delivers to a manager node: an interest, or the end of the interest that the
request of that index has expressed. -/
inductive FaceEvent where
  | interest (i : Interest)
  | ended (index : ℕ) (answer : Answer)

namespace Service

variable {L : GroupLib} (E : ServiceEnv)

/-- The handler of a route, over a service that may have lost its meaning: `none` after a
handler read an argument that is not there. -/
def handler (route : ServiceRoute) : InterestHandler (Option (Service L))
  | none, _, _, data => (none, ⟨[], data, .ok true⟩)
  | some s, interest, args, data =>
    match s.handle E route interest args data with
    | none => (none, ⟨[], data, .ok true⟩)
    | some (s, run) => (some s, run)

/-- The node of a service, as it is constructed, with its routes. -/
def node (L : GroupLib) (servicePrefix : Name) (keychain : KeyChain) :
    NodeImpl (Option (Service L)) :=
  addRoutes (NodeImpl.ofPrefix servicePrefix keychain) (handler E)

variable (n : NodeImpl (Option (Service L)))

/-- The interest for an identity key ends: what is received goes to `onAddIdentityKey`, whose
put is that of the request. -/
def interestEnded (s : Service L) (index : ℕ) (answer : Answer) : Service L × Except Exn Unit :=
  match s.pending[index]? with
  | none => (s, .ok ())
  | some p =>
    match n.received p.entity answer with
    | .error e => (s, .error e)
    | .ok none => ({ s with pending := s.pending.eraseIdx index }, .ok ())
    | .ok (some d) =>
      let (s, run) := s.keyArrives E index d
      (s, (n.answer ServiceRoute.identityAdd.path p.interest run).2)

/-- The service after a callback of the face, and what leaves the callback.  Nothing leaves
`onInterest`. -/
def callBack : Option (Service L) → FaceEvent → Option (Service L) × Except Exn Unit
  | s, .interest i => ((n.interestArrives i n.registerPrefixes s).1, .ok ())
  | none, .ended _ _ => (none, .ok ())
  | some s, .ended index answer =>
    let (s, result) := s.interestEnded E n index answer
    (some s, result)

/-- The service after an event of the face. -/
def faceStep (s : Option (Service L)) (event : FaceEvent) : Option (Service L) :=
  (callBack E n s event).1

/-- The callback has a meaning, and no exception leaves it. -/
def KeepsServing (s : Option (Service L)) (event : FaceEvent) : Prop :=
  (callBack E n s event).1.isSome ∧ (callBack E n s event).2 = .ok ()

/-! ## What may arrive -/

/-- The arguments that the handler of a route reads unchecked: the Exclude of an interest for
an E-KEY, and the two arguments of a grant, the second once the first is decoded. -/
def HasArguments : ServiceRoute → Interest → Name → Prop
  | .read, interest, args =>
    let (location, keyType, _) := parseReadArgs args
    keyType.toUri = bytes "/E-KEY" → location ≠ [] → interest.exclude ≠ []
  | .accessGrant, _, args =>
    match args with
    | [] => False
    | [first] => ∃ e, uriDecode first.toUri = .error e
    | _ => True
  | _, _, _ => True

/-- The interest has the arguments that its handler reads. -/
def InterestHarmless (i : Interest) : Prop :=
  ∀ parts (route : ServiceRoute), n.parseInterestName i = .ok parts → parts.path = route.path →
    HasArguments route i parts.args

/-- The event stops nothing: an interest has the arguments its handler reads, and the interest
for an identity key ends with a certificate or a network Nack. -/
def Harmless (s : Option (Service L)) : FaceEvent → Prop
  | .interest i => InterestHarmless n i
  | .ended index answer => ∀ t ∈ s, ∀ p ∈ t.pending[index]?,
      match answer with
      | .data d => isCertificate d = true
      | .nack => True
      | .timeout => False

/-! ## Handlers -/

variable {E} {n} {s : Service L}

theorem onGetEKey_isSome_iff {interest : Interest} {t : Name} {data : Data} :
    (s.onGetEKey E interest t data).isSome ↔ (t ≠ [] → interest.exclude ≠ []) := by
  rw [onGetEKey]
  cases t with
  | nil => simp
  | cons c t =>
    rw [if_neg (by simp)]
    cases interest.exclude with
    | nil => simp
    | cons first rest =>
      dsimp only
      split
      · simp
      · split
        · simp
        · simp

theorem onGetDKey_isSome (t args : Name) (data : Data) :
    (s.onGetDKey E t args data).isSome := by
  rw [onGetDKey]
  split
  · rfl
  · rename_i hlen
    cases args with
    | nil => exact absurd (by simp) hlen
    | cons first args =>
      dsimp only [List.getElem?_cons_zero]
      split
      · rfl
      · split
        · rfl
        · rfl

theorem onGrant_isSome_iff {interest : Interest} {args : Name} {data : Data} :
    (s.onGrant E args data).isSome ↔ HasArguments .accessGrant interest args := by
  unfold onGrant HasArguments
  match args with
  | [] => simp
  | [first] =>
    dsimp only [List.getElem?_cons_zero]
    cases uriDecode first.toUri with
    | error e => simp
    | ok identity => simp
  | first :: second :: rest =>
    dsimp only [List.getElem?_cons_zero, List.getElem?_cons_succ]
    split
    · simp
    · split
      · simp
      · simp

/-- **A handler has a meaning** exactly when it is given the arguments it reads. -/
theorem handle_isSome_iff (route : ServiceRoute) (interest : Interest) (args : Name)
    (data : Data) :
    (s.handle E route interest args data).isSome ↔ HasArguments route interest args := by
  cases route with
  | read =>
    show (s.onRead E interest args data).isSome ↔ _
    unfold onRead HasArguments
    dsimp only
    split
    · rename_i hkey
      rw [onGetEKey_isSome_iff]
      exact ⟨fun h _ => h, fun h => h hkey⟩
    · rename_i hkey
      refine iff_of_true ?_ fun h => absurd h hkey
      split
      · exact onGetDKey_isSome _ _ _
      · rfl
  | accessGrant => exact onGrant_isSome_iff
  | identityFor => exact iff_of_true rfl trivial
  | identityAdd => exact iff_of_true rfl trivial
  | identityRemove => exact iff_of_true rfl trivial
  | accessRevoke => exact iff_of_true rfl trivial

/-! ## The table of the node -/

/-- A handler in the table is one that was there, or that of a route. -/
theorem handler_foldl {σ : Type} {handler : ServiceRoute → InterestHandler σ}
    {routes : List ServiceRoute} {n : NodeImpl σ} {path : Name} {h : InterestHandler σ}
    (hfind : (routes.foldl (fun n route => n.routeHandler route.path (handler route))
      n).handlers[path]? = some h) :
    n.handlers[path]? = some h ∨ ∃ route, route.path = path ∧ h = handler route := by
  induction routes generalizing n with
  | nil => exact Or.inl hfind
  | cons route routes ih =>
    rcases ih hfind with hold | hroute
    · have hinsert : (n.handlers.insert route.path (handler route))[path]? = some h := hold
      rw [Std.ExtTreeMap.getElem?_insert] at hinsert
      split at hinsert
      · rename_i heq
        exact Or.inr ⟨route, Std.LawfulEqCmp.compare_eq_iff_eq.mp heq,
          (Option.some.inj hinsert).symm⟩
      · exact Or.inl hinsert
    · exact Or.inr hroute

/-- Two routes with one path are the same. -/
theorem path_injective {r r' : ServiceRoute} (h : r.path = r'.path) : r = r' := by
  revert h
  cases r <;> cases r' <;> decide

section Node

variable (E) (L) (servicePrefix : Name) (keychain : KeyChain)

theorem handler_of_route (route : ServiceRoute) :
    (node E L servicePrefix keychain).handlers[route.path]? = some (handler E route) := by
  cases route <;> rfl

theorem route_of_handler {path : Name} {h : InterestHandler (Option (Service L))}
    (hfind : (node E L servicePrefix keychain).handlers[path]? = some h) :
    ∃ route, route.path = path ∧ h = handler E route := by
  refine (handler_foldl hfind).resolve_left ?_
  have hnone : (NodeImpl.ofPrefix servicePrefix keychain :
      NodeImpl (Option (Service L))).handlers[path]? = none := Std.ExtTreeMap.getElem?_empty
  rw [hnone]
  simp

theorem validate_node (path : Name) (i : Interest) :
    (node E L servicePrefix keychain).validate path i = .ok () := rfl

theorem withoutProcessors_node : (node E L servicePrefix keychain).WithoutProcessors :=
  withoutProcessors_addRoutes NodeImpl.withoutProcessors_ofPrefix (handler E)

/-! ## Interests -/

/-- What the node makes of an interest: nothing, or a call of the handler of a route. -/
theorem onInterest_cases (i : Interest) (t : Option (Service L)) :
    (((node E L servicePrefix keychain).onInterest i t).1 = t ∧
        ∀ parts route, (node E L servicePrefix keychain).parseInterestName i = .ok parts →
          parts.path ≠ ServiceRoute.path route) ∨
      ∃ parts route, (node E L servicePrefix keychain).parseInterestName i = .ok parts ∧
        parts.path = route.path ∧
        ((node E L servicePrefix keychain).onInterest i t).1 =
          (handler E route t i parts.args (Data.empty.setName i.name)).1 := by
  rw [NodeImpl.fst_onInterest]
  cases hparse : (node E L servicePrefix keychain).parseInterestName i with
  | error e => exact Or.inl ⟨rfl, fun _ _ h => absurd h (by simp)⟩
  | ok parts =>
    dsimp only
    rw [validate_node]
    dsimp only
    cases hfind : (node E L servicePrefix keychain).handlers[parts.path]? with
    | none =>
      refine Or.inl ⟨rfl, fun parts' route h hpath => ?_⟩
      rw [← Except.ok.inj h] at hpath
      rw [hpath, handler_of_route] at hfind
      exact absurd hfind (by simp)
    | some h =>
      obtain ⟨route, hpath, rfl⟩ := route_of_handler L E servicePrefix keychain hfind
      exact Or.inr ⟨parts, route, rfl, hpath.symm, rfl⟩

/-- A service that has lost its meaning does not get it back. -/
theorem onInterest_none (i : Interest) :
    ((node E L servicePrefix keychain).onInterest i none).1 = none := by
  rcases onInterest_cases L E servicePrefix keychain i none with ⟨h, -⟩ | ⟨parts, route, -, -, h⟩
  · exact h
  · rw [h]
    rfl

theorem onInterest_isSome_iff (i : Interest) (s : Service L) :
    ((node E L servicePrefix keychain).onInterest i (some s)).1.isSome ↔
      InterestHarmless (node E L servicePrefix keychain) i := by
  rcases onInterest_cases L E servicePrefix keychain i (some s) with
    ⟨h, hnone⟩ | ⟨parts, route, hparse, hpath, h⟩
  · rw [h]
    exact iff_of_true rfl fun parts route hparse hpath => absurd hpath (hnone parts route hparse)
  · rw [h]
    have hhandled : ((handler E route (some s) i parts.args (Data.empty.setName i.name)).1.isSome)
        ↔ HasArguments route i parts.args := by
      rw [← handle_isSome_iff (E := E) (s := s) route i parts.args (Data.empty.setName i.name)]
      unfold handler
      dsimp only
      split
      · rename_i hnone
        rw [hnone]
        simp
      · rename_i hsome
        rw [hsome]
        simp
    rw [hhandled]
    constructor
    · intro hargs parts' route' hparse' hpath'
      obtain rfl := Except.ok.inj (hparse.symm.trans hparse')
      rwa [path_injective (hpath'.symm.trans hpath)]
    · exact fun hharmless => hharmless parts route hparse hpath

theorem interestArrives_none (i : Interest) (filters : List Name) :
    ((node E L servicePrefix keychain).interestArrives i filters none).1 = none := by
  induction filters with
  | nil => rfl
  | cons f filters ih =>
    rw [NodeImpl.interestArrives]
    split
    · dsimp only
      rw [onInterest_none]
      exact ih
    · exact ih

/-- The callbacks of the filters that match keep the meaning of the service exactly when the
interest has its arguments, or there are none. -/
theorem interestArrives_isSome_iff (i : Interest) (filters : List Name) (s : Service L) :
    ((node E L servicePrefix keychain).interestArrives i filters (some s)).1.isSome ↔
      ((∃ f ∈ filters, f <+: i.name) → InterestHarmless (node E L servicePrefix keychain) i) := by
  induction filters generalizing s with
  | nil => simp [NodeImpl.interestArrives]
  | cons f filters ih =>
    rw [NodeImpl.interestArrives]
    by_cases hf : f <+: i.name
    · rw [if_pos (List.isPrefixOf_iff_prefix.mpr hf)]
      dsimp only
      rw [forall_prop_of_true ⟨f, List.mem_cons_self, hf⟩,
        ← onInterest_isSome_iff L E servicePrefix keychain i s]
      cases hafter : ((node E L servicePrefix keychain).onInterest i (some s)).1 with
      | none =>
        rw [interestArrives_none]
      | some t =>
        rw [ih]
        refine iff_of_true (fun _ => ?_) rfl
        exact (onInterest_isSome_iff L E servicePrefix keychain i s).mp (hafter ▸ rfl)
    · rw [if_neg fun h => hf (List.isPrefixOf_iff_prefix.mp h), ih]
      simp [hf]

/-- **An interest stops nothing** exactly when it has the arguments its handler reads. -/
theorem interest_isSome_iff (i : Interest) (s : Service L) :
    let n := node E L servicePrefix keychain
    (n.interestArrives i n.registerPrefixes (some s)).1.isSome ↔ InterestHarmless n i := by
  intro n
  rw [interestArrives_isSome_iff]
  refine ⟨fun h parts route hparse hpath => ?_, fun h _ => h⟩
  -- the filter of the route that was found matches
  have hkey : route.path ∈ n.handlers.keys := by
    rw [Std.ExtTreeMap.mem_keys, Std.ExtTreeMap.mem_iff_isSome_getElem?,
      handler_of_route L E servicePrefix keychain route]
    rfl
  refine h ⟨n.filterName route.path, List.mem_map_of_mem hkey, ?_⟩ parts route hparse hpath
  rw [n.filterName_eq, ← hpath]
  exact n.prefix_of_parseInterestName hparse

/-! ## The ends of interests -/

/-- The Data that is made up on a timeout is no certificate. -/
theorem isCertificate_timeoutData (name : Name) :
    isCertificate (NodeImpl.timeoutData name) = false := by
  have htype : ((NodeImpl.timeoutData name).contentType == ContentType_Key) = false := rfl
  rw [isCertificate]
  rw [htype, Bool.and_false, Bool.false_and, Bool.false_and]

/-- **The receiver of a key** throws exactly when it is handed no certificate. -/
theorem outcome_onAddIdentityKey (s : Service L) (interest : Interest) (data keyData : Data) :
    (s.onAddIdentityKey E interest data keyData).2.outcome =
      if isCertificate keyData = true then .ok true
      else .error (E.certificateError keyData) := by
  by_cases hcert : isCertificate keyData = true
  · have hof : Certificate.ofData keyData = some ⟨keyData, hcert⟩ :=
      Certificate.ofData_eq_some_iff.mpr rfl
    rw [onAddIdentityKey_of_some hof, if_pos hcert]
  · rw [onAddIdentityKey_of_none (Certificate.ofData_eq_none_iff.mpr hcert), if_neg hcert]

/-- What leaves the callback for a key that arrives. -/
theorem interestEnded_data {s : Service L} {index : ℕ} {p : PendingAdd}
    (hp : s.pending[index]? = some p) (d : Data) :
    let n := node E L servicePrefix keychain
    (n.answer ServiceRoute.identityAdd.path p.interest (s.keyArrives E index d).2).2 = .ok () ↔
      isCertificate d = true := by
  intro n
  have hrun : (s.keyArrives E index d).2 = (onAddIdentityKey E
      { s with pending := s.pending.eraseIdx index } p.interest p.data d).2 := by
    rw [keyArrives]
    rw [hp]
  rw [NodeImpl.answer_of_withoutProcessors
    (withoutProcessors_node L E servicePrefix keychain), hrun, outcome_onAddIdentityKey]
  by_cases hcert : isCertificate d = true
  · rw [if_pos hcert]
    exact iff_of_true rfl hcert
  · rw [if_neg hcert]
    exact iff_of_false (fun h => by simp [Except.map] at h) hcert

/-- **The end of an interest stops nothing** exactly when it is a certificate or a network
Nack. -/
theorem interestEnded_iff (s : Service L) (index : ℕ) (answer : Answer) :
    (s.interestEnded E (node E L servicePrefix keychain) index answer).2 = .ok () ↔
      ∀ p ∈ s.pending[index]?, match answer with
        | .data d => isCertificate d = true
        | .nack => True
        | .timeout => False := by
  rw [interestEnded]
  cases hp : s.pending[index]? with
  | none => simp
  | some p =>
    simp only [Option.mem_def, Option.some.injEq, forall_eq']
    cases answer with
    | data d => exact interestEnded_data L E servicePrefix keychain hp d
    | nack => exact iff_of_true rfl trivial
    | timeout =>
      refine (interestEnded_data L E servicePrefix keychain hp _).trans ?_
      rw [isCertificate_timeoutData]
      exact iff_of_false Bool.false_ne_true id

/-! ## Runs of the face -/

theorem keepsServing_callBack_iff (s : Service L) (event : FaceEvent) :
    let n := node E L servicePrefix keychain
    KeepsServing E n (some s) event ↔ Harmless n (some s) event := by
  intro n
  cases event with
  | interest i =>
    exact (and_iff_left rfl).trans (interest_isSome_iff L E servicePrefix keychain i s)
  | ended index answer =>
    refine ((and_iff_right rfl).trans
      (interestEnded_iff L E servicePrefix keychain s index answer)).trans ?_
    unfold Harmless
    simp

/-- **No event of the face stops the manager**, in any state of a run, exactly when every
interest of the run has the arguments its handler reads, and every interest for an identity key
ends with a certificate or a network Nack. -/
theorem keepsServing_iff (keysize : ℕ) (events : List FaceEvent) :
    let n := node E L servicePrefix keychain
    let s := some (Service.ofPrefix L servicePrefix keysize)
    StepsMeet (faceStep E n) (KeepsServing E n) s events ↔
      StepsMeet (faceStep E n) (Harmless n) s events := by
  intro n s
  refine stepsMeet_congr (J := fun s => s.isSome) (fun s event _ h => h.1) ?_ rfl events
  rintro (_ | s) event hs
  · exact absurd hs (by simp)
  · exact keepsServing_callBack_iff L E servicePrefix keychain s event

end Node

/-! ## A key that nobody sends -/

/-- A request to add an identity, and the timeout of the interest for its key. -/
def unansweredAdd : List FaceEvent :=
  [.interest ⟨Component.of "P" :: ServiceRoute.identityAdd.path ++ [Component.of "alice"], []⟩,
    .ended 0 .timeout]

/-- The timeout stops the manager. -/
theorem stopped_by_timeout :
    ¬ ∀ (L : GroupLib) (E : ServiceEnv) (servicePrefix : Name) (keychain : KeyChain)
      (keysize : ℕ) (events : List FaceEvent),
        StepsMeet (faceStep E (node E L servicePrefix keychain))
          (KeepsServing E (node E L servicePrefix keychain))
          (some (Service.ofPrefix L servicePrefix keysize)) events := by
  intro h
  have hserving := h memoryGroups oneDay [Component.of "P"] ⟨bytes "manager"⟩ 2048 unansweredAdd
  exact absurd hserving.2.1.2 (by decide +kernel)

end Service
end Nacapp
