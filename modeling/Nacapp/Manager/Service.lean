import Nacapp.Manager.Runs
import Nacapp.Manager.UriStrings
import Nacapp.Node.Answers

/-!
# The manager service

`Service` (`manager/src/service.cpp`): the handlers by which interests reach the manager.

A handler that reads an argument the interest does not have, or the first entry of an
empty Exclude, has no defined meaning; its result is `none` here.  Otherwise it is the
service afterwards and the run the node sees.  What a handler shows with `want` is put
on record in `pending`, and `onAddIdentityKey` is the callback for the Data that answers.

Reading an ISO time string comes from Boost, and the texts of the exceptions for a malformed
URI and for a Data that is no certificate come from ndn-cxx; they are fields of a
`ServiceEnv`.
-/

namespace Nacapp

/-- What the handlers take from Boost and ndn-cxx. -/
structure ServiceEnv where
  fromIsoString : Bytes → Except Exn TimeStamp
  nameError : Bytes → Exn
  certificateError : Data → Exn

/-- `Name(uri)`, with its exception. -/
def ServiceEnv.parseName (E : ServiceEnv) (uri : Bytes) : Except Exn Name :=
  match Name.ofUri uri with
  | some n => .ok n
  | none => .error (E.nameError uri)

/-- The key of an entity was asked for, on behalf of an interest and its Data. -/
structure PendingAdd where
  entity : Name
  interest : Interest
  data : Data

structure Service (L : GroupLib) where
  manager : Manager L
  pending : List PendingAdd := []

/-- `manager::parseReadArgs`: what stands before the first `E-KEY` or `D-KEY`, that
component, and what stands after it. -/
def parseReadArgs (args : Name) : Name × Name × Name :=
  let location := args.takeWhile fun c => c ≠ NAME_COMPONENT_E_KEY ∧ c ≠ NAME_COMPONENT_D_KEY
  let pos := location.length
  (args.getSubName 0 pos, args.getSubName pos 1, args.getSubNameFrom (pos + 1))

namespace Service

variable {L : GroupLib} (E : ServiceEnv) (s : Service L)

/-- A handler that returns `false` and leaves the Data it was given a Nack. -/
def nacked (data : Data) : HandlerRun := ⟨[], data.setContentType ContentType_Nack, .ok false⟩

/-! ## Keys -/

/-- `onGetEKey`.  The E-KEY is set to be fresh for a second. -/
def onGetEKey (interest : Interest) (datatype : Name) (data : Data) :
    Option (Service L × HandlerRun) :=
  if datatype.length < 1 then
    some (s, ⟨[], data, .error (.string
      (bytes "onGetEKey requires a valid datatype, got : " ++ datatype.toUri))⟩)
  else
    match interest.exclude with
    | [] => none
    | first :: _ =>
      match E.fromIsoString first.toUri with
      | .error e => some (s, ⟨[], data, .error e⟩)
      | .ok timeslot =>
        match s.manager.getEKey datatype timeslot with
        | (none, m) => some ({ s with manager := m }, nacked data)
        | (some ekey, m) =>
          some ({ s with manager := m }, ⟨[ekey.setFreshnessPeriod 1000], data, .ok false⟩)

/-- The Data behind a pointer into the D-KEY cache is changed. -/
def writeDKey (m : Manager L) (key : Bytes) (dkey : Data) : Manager L :=
  { m with dkeyCache := m.dkeyCache.insert key dkey }

/-- `onGetDKey`.  The D-KEY is the one in the cache, so it is set to be fresh for a second
there as well; it comes signed, and sending does not change it. -/
def onGetDKey (datatype args : Name) (data : Data) : Option (Service L × HandlerRun) :=
  if args.length < 4 then some (s, nacked data)
  else
    let entity := args.getSubNameFrom 3
    match args[0]? with
    | none => none
    | some start =>
      match E.fromIsoString start.toUri with
      | .error e => some (s, ⟨[], data, .error e⟩)
      | .ok timeslot =>
        match s.manager.getDKeyEntry datatype entity timeslot with
        | (none, m) => some ({ s with manager := m }, nacked data)
        | (some (key, dkey), m) =>
          some ({ s with manager := writeDKey m key (dkey.setFreshnessPeriod 1000) },
            ⟨[dkey.setFreshnessPeriod 1000], data, .ok false⟩)

def onRead (interest : Interest) (args : Name) (data : Data) : Option (Service L × HandlerRun) :=
  let (location, keyType, keyArgs) := parseReadArgs args
  if keyType.toUri = bytes "/E-KEY" then s.onGetEKey E interest location data
  else if keyType.toUri = bytes "/D-KEY" then s.onGetDKey E location keyArgs data
  else
    let data := (data.setContentType ContentType_Nack).setContent
      (bytes "invalid pattern for path /READ")
    some (s, ⟨[], data, .ok false⟩)

/-! ## Identities -/

/-- `onGetIdentityKey`: a copy of the certificate, under the name of the interest. -/
def onGetIdentityKey (interest : Interest) (args : Name) (data : Data) : HandlerRun :=
  match s.manager.getIdentity args with
  | none => nacked data
  | some cert => ⟨[cert.data.setName interest.name], data, .ok false⟩

/-- `onAddIdentity`: shows an interest for the entity; the answer comes later. -/
def onAddIdentity (interest : Interest) (args : Name) (data : Data) : Service L × HandlerRun :=
  ({ s with pending := s.pending ++ [⟨args, interest, data⟩] }, ⟨[], data, .ok true⟩)

/-- `onAddIdentityKey`, for the Data that answers.  What is not a certificate throws; a
certificate is announced by its name and added under it.  The run of this callback ends with
`true`, there being nothing left to put. -/
def onAddIdentityKey (interest : Interest) (data keyData : Data) : Service L × HandlerRun :=
  match Certificate.ofData keyData with
  | none => (s, ⟨[], data, .error (E.certificateError keyData)⟩)
  | some cert =>
    let data := (data.setName interest.name).setContent cert.name.toUri
    match s.manager.addIdentity keyData.name cert.data with
    | none => (s, ⟨[data], data, .error (E.certificateError cert.data)⟩)
    | some m => ({ s with manager := m }, ⟨[data], data, .ok true⟩)

def onRemoveIdentity (args : Name) (data : Data) : Service L × HandlerRun :=
  ({ s with manager := s.manager.removeIdentity args }, ⟨[], data, .ok false⟩)

/-! ## Access -/

/-- `grant`: one interval between the dates and the hours of every day. -/
def grant (identity dataType : Name) (startDate endDate startHour endHour : Bytes) :
    Except Exn (Service L) := do
  let startD ← E.fromIsoString startDate
  let endD ← E.fromIsoString endDate
  let startH ← stoi 10 startHour
  let endH ← stoi 10 endHour
  let scheduleName ← E.parseName (dataType.toUri ++ startDate ++ endDate ++ startHour ++ endHour)
  let ni : NamedInterval :=
    ⟨scheduleName, ⟨startD, endD, startH.toNat, endH.toNat, 1, .day⟩⟩
  pure { s with manager := s.manager.grantAccess identity dataType ni }

/-- `onGrant`, for fixed dates and hours.  Both arguments are decoded before the names in
them are parsed. -/
def onGrant (args : Name) (data : Data) : Option (Service L × HandlerRun) :=
  match args[0]? with
  | none => none
  | some first =>
    match uriDecode first.toUri with
    | .error e => some (s, ⟨[], data, .error e⟩)
    | .ok identity =>
      match args[1]? with
      | none => none
      | some second =>
        let granted : Except Exn (Service L) := do
          let dataType ← uriDecode second.toUri
          s.grant E (← E.parseName identity) (← E.parseName dataType)
            (bytes "20170703T000000Z") (bytes "20180730T000000Z") (bytes "00") (bytes "24")
        match granted with
        | .error e => some (s, ⟨[], data, .error e⟩)
        | .ok s => some (s, ⟨[], data, .ok false⟩)

def onRevoke (args : Name) (data : Data) : Service L × HandlerRun :=
  match args with
  | identity :: dataType :: _ =>
    let revoked : Except Exn (Service L) := do
      let identity ← uriDecode identity.toUri
      let dataType ← uriDecode dataType.toUri
      let identity ← E.parseName identity
      let dataType ← E.parseName dataType
      pure { s with manager := s.manager.revokeAccess identity dataType }
    match revoked with
    | .error e => (s, ⟨[], data, .error e⟩)
    | .ok s => (s, ⟨[], data, .ok false⟩)
  | _ =>
    (s, ⟨[], data, .error (.string
      (bytes "onRevoke: argument should contains at least 2 components, got :" ++
        bytes (toString args.length)))⟩)

end Service

/-! ## The service as a state machine -/

/-- The routes of `ManagerServiceNode::addRoutes`. -/
inductive ServiceRoute where
  | read
  | identityFor
  | identityAdd
  | identityRemove
  | accessGrant
  | accessRevoke
  deriving DecidableEq

/-- The path a handler is registered under. -/
def ServiceRoute.path : ServiceRoute → Name
  | .read => [NAME_COMPONENT_READ]
  | .identityFor => [Component.of "IDENTITY", Component.of "for"]
  | .identityAdd => [Component.of "MANAGEMENT", Component.of "identity", Component.of "add"]
  | .identityRemove => [Component.of "MANAGEMENT", Component.of "identity", Component.of "remove"]
  | .accessGrant => [Component.of "MANAGEMENT", Component.of "access", Component.of "grant"]
  | .accessRevoke => [Component.of "MANAGEMENT", Component.of "access", Component.of "revoke"]

/-- `ManagerServiceNode::addRoutes`. -/
def addRoutes {σ : Type} (n : NodeImpl σ) (handler : ServiceRoute → InterestHandler σ) :
    NodeImpl σ :=
  [ServiceRoute.read, .identityFor, .identityAdd, .identityRemove, .accessGrant,
    .accessRevoke].foldl (fun n route => n.routeHandler route.path (handler route)) n

/-- The node of the manager service has no processors. -/
theorem withoutProcessors_addRoutes {σ : Type} {n : NodeImpl σ}
    (hn : n.WithoutProcessors) (handler : ServiceRoute → InterestHandler σ) :
    (addRoutes n handler).WithoutProcessors := by
  unfold addRoutes
  simp only [List.foldl_cons, List.foldl_nil]
  exact (((((hn.routeHandler _ _).routeHandler _ _).routeHandler _ _).routeHandler _ _).routeHandler
    _ _).routeHandler _ _

/-- What happens to a service: an interest reaches a handler, or the Data for a key that was
asked for arrives. -/
inductive ServiceEvent where
  | request (route : ServiceRoute) (interest : Interest) (args : Name)
  | keyArrives (index : ℕ) (keyData : Data)

namespace Service

variable {L : GroupLib} (E : ServiceEnv) (s : Service L)

/-- The handler of a route. -/
def handle (route : ServiceRoute) (interest : Interest) (args : Name) (data : Data) :
    Option (Service L × HandlerRun) :=
  match route with
  | .read => s.onRead E interest args data
  | .identityFor => some (s, s.onGetIdentityKey interest args data)
  | .identityAdd => some (s.onAddIdentity interest args data)
  | .identityRemove => some (s.onRemoveIdentity args data)
  | .accessGrant => s.onGrant E args data
  | .accessRevoke => some (s.onRevoke E args data)

/-- The Data for the outstanding key request of that index arrives. -/
def keyArrives (index : ℕ) (keyData : Data) : Service L × HandlerRun :=
  match s.pending[index]? with
  | none => (s, ⟨[], Data.empty, .ok true⟩)
  | some p =>
    ({ s with pending := s.pending.eraseIdx index } : Service L).onAddIdentityKey E p.interest
      p.data keyData

/-- The service after an event.  A request without a defined meaning is no step. -/
def step (s : Service L) : ServiceEvent → Service L
  | .request route interest args =>
    ((s.handle E route interest args (Data.empty.setName interest.name)).map Prod.fst).getD s
  | .keyArrives index keyData => (s.keyArrives E index keyData).1

/-- A service as it is constructed. -/
def ofPrefix (L : GroupLib) (servicePrefix : Name) (keysize : ℕ) : Service L :=
  ⟨Manager.ofPrefix L servicePrefix keysize, []⟩

/-- The service after a run of events. -/
def run (s : Service L) (events : List ServiceEvent) : Service L :=
  Transitions.exec (step E) s events

end Service

end Nacapp
