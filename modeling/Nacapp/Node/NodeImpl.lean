import Nacapp.Ndn.Packet

/-!
# The node

`NodeImpl` (`node/src/node-impl.cpp`) serves a table of routes under a prefix: it
installs an interest filter for every route, splits the name of an incoming interest
against the table, runs the validators and the handler of the route it found, and sends
what the handler puts, or the Data it was given when it put nothing.

Handlers run over a state `σ` of the application.  A handler's run is the Data it puts,
in order, the final contents of the Data it was handed, and how it ended: with `true`
(the answer comes later), with `false`, or by throwing.  An exception out of a put ends
the run at that put.

Validators and processors are the function pointers of `handlers.hpp`; both may throw.
What the node does with an interest is recorded as a list of events, the handler calls
and the packets put on the face, in order.  Logging is left out.
-/

namespace Nacapp

/-- `NODE_DEFAULT_PATH`. -/
def NODE_DEFAULT_PATH : Bytes := bytes "/"

/-- What the code throws: a `std::string`, a `std::exception`, or anything else, string
literals included. -/
inductive Exn where
  | string (text : Bytes)
  | exception (what : Bytes)
  | other
  deriving DecidableEq

/-- The reason `onInterest` reports for an exception. -/
def Exn.reason : Exn → Bytes
  | .string text => text
  | .exception what => what
  | .other => bytes "unknown error"

theorem ok_bind {ε α β : Type} (a : α) (f : α → Except ε β) : (Except.ok a >>= f) = f a := rfl

/-- A computation that returns does so after each of its parts has. -/
theorem exists_of_bind_eq_ok {ε α β : Type} {x : Except ε α} {f : α → Except ε β} {b : β}
    (h : x >>= f = .ok b) : ∃ a, x = .ok a ∧ f a = .ok b := by
  cases x with
  | error e => exact absurd h (by simp [bind, Except.bind])
  | ok a => exact ⟨a, rfl, h⟩

/-- `InterestValidator`: throws when something is wrong. -/
abbrev InterestValidator := Interest → Except Exn Unit

/-- `DataProcessor`: works on the Data before it is sent. -/
abbrev DataProcessor := Data → Except Exn Data

/-- One run of a handler: the Data it puts and what it does with the one it was given, and how it
ends.  A put whose exception the handler catches itself emits nothing, and is not among `puts`. -/
structure HandlerRun where
  puts : List Data := []
  data : Data
  outcome : Except Exn Bool

/-- `InterestHandler`: from the interest, the arguments and a Data named after the
interest. -/
abbrev InterestHandler (σ : Type) := σ → Interest → Name → Data → σ × HandlerRun

structure NodeImpl (σ : Type) where
  nodePrefix : Name
  keychain : KeyChain
  handlers : NameMap (InterestHandler σ) := ∅
  commonValidators : List InterestValidator := []
  commonProcessors : List DataProcessor := []
  validators : NameMap (List InterestValidator) := ∅
  processors : NameMap (List DataProcessor) := ∅

/-- An interest name, cut into prefix, path and arguments. -/
structure ParsedName where
  namePrefix : Name
  path : Name
  args : Name
  deriving DecidableEq

/-- What a node does for an interest. -/
inductive NodeEvent where
  | handled (path args : Name)
  | sent (p : Packet)
  deriving DecidableEq

/-- How an interest that the node has expressed ends. -/
inductive Answer where
  | data (d : Data)
  | nack
  | timeout

namespace NodeImpl

variable {σ : Type}

/-! ## Routes -/

/-- `route`, for a path that is already a name.  Empty lists leave the validators and
processors of an earlier registration in place. -/
def routeName (n : NodeImpl σ) (path : Name) (handler : InterestHandler σ)
    (validators : List InterestValidator) (processors : List DataProcessor) : NodeImpl σ :=
  { n with
    handlers := n.handlers.insert path handler
    validators := if validators.length > 0 then n.validators.insert path validators
      else n.validators
    processors := if processors.length > 0 then n.processors.insert path processors
      else n.processors }

/-- `route`.  The path is a URI; `none` where it does not parse. -/
def route (n : NodeImpl σ) (path : Bytes) (handler : InterestHandler σ)
    (validators : List InterestValidator) (processors : List DataProcessor) :
    Option (NodeImpl σ) :=
  (Name.ofUri path).map fun p => n.routeName p handler validators processors

/-- A node as it is constructed.  Nothing adds to its common validators and processors. -/
def ofPrefix (nodePrefix : Name) (keychain : KeyChain) : NodeImpl σ :=
  { nodePrefix := nodePrefix, keychain := keychain }

/-- `Node::route(path, handler)`. -/
def routeHandler (n : NodeImpl σ) (path : Name) (handler : InterestHandler σ) : NodeImpl σ :=
  n.routeName path handler [] []

/-- The name a filter is installed for on behalf of a path. -/
def filterName (n : NodeImpl σ) (path : Name) : Name :=
  if path.toUri ≠ NODE_DEFAULT_PATH then n.nodePrefix ++ path else n.nodePrefix

/-- `registerPrefixes`: the interest filters, in the order they are installed. -/
def registerPrefixes (n : NodeImpl σ) : List Name := n.handlers.keys.map n.filterName

def setPrefix (n : NodeImpl σ) (nodePrefix : Name) : NodeImpl σ := { n with nodePrefix }

/-! ## Parsing the interest name -/

/-- The first path of the table, in map order, that the name continues with. -/
def findPath (n : NodeImpl σ) (iname : Name) : Option Name :=
  n.handlers.keys.find? fun p =>
    p.toUri ≠ NODE_DEFAULT_PATH && p == iname.getSubName n.nodePrefix.length p.length

def parseInterestName (n : NodeImpl σ) (interest : Interest) : Except Exn ParsedName :=
  let iname := interest.name
  let offset := n.nodePrefix.length
  if iname.length < offset then
    -- throws a string literal: "interest name is less than prefix"
    .error .other
  else
    let namePrefix := iname.getPrefix offset
    if namePrefix ≠ n.nodePrefix then
      -- throws a string literal: "prefix does not match"
      .error .other
    else
      match n.findPath iname with
      | some p =>
        .ok ⟨namePrefix, iname.getSubName offset p.length, iname.getSubNameFrom (offset + p.length)⟩
      | none => .ok ⟨namePrefix, [], iname.getSubNameFrom offset⟩

/-! ## Validating and processing -/

/-- The common validators, then those of the path; the first that throws ends it. -/
def validate (n : NodeImpl σ) (path : Name) (interest : Interest) : Except Exn Unit := do
  n.commonValidators.forM fun validator => validator interest
  match n.validators[path]? with
  | some validators => validators.forM fun validator => validator interest
  | none => pure ()

/-- The common processors, then those of the path. -/
def process (n : NodeImpl σ) (path : Name) (data : Data) : Except Exn Data := do
  let data ← n.commonProcessors.foldlM (fun d processor => processor d) data
  match n.processors[path]? with
  | some processors => processors.foldlM (fun d processor => processor d) data
  | none => pure data

/-! ## Sending -/

/-- `if (!data->getSignature()) m_keychain->sign(*data)`. -/
def signIfUnsigned (n : NodeImpl σ) (data : Data) : Data :=
  if data.signature.isNone then n.keychain.sign data else data

/-- `if (data->getFreshnessPeriod() <= 0) data->setFreshnessPeriod(1000)`. -/
def defaultFreshness (data : Data) : Data :=
  if data.freshnessPeriod ≤ 0 then data.setFreshnessPeriod 1000 else data

/-- `sendData`: the packet put on the face, and whether `*sent` is set.  A Nack is sent as
an `lp::Nack`, and does not count as sent. -/
def sendData (n : NodeImpl σ) (path : Name) (interest : Interest) (data : Data) :
    Except Exn (Packet × Bool) :=
  if data.contentType = ContentType_Nack then .ok (.nack interest, false)
  else do
    let data ← n.process path data
    pure (.data (defaultFreshness (n.signIfUnsigned data)), true)

/-- The packet `onFailed` puts: a signed Nack-typed Data without a name. -/
def onFailed (n : NodeImpl σ) (reason : Bytes) : Packet :=
  .data (n.keychain.sign ((Data.empty.setContentType ContentType_Nack).setContent reason))

/-! ## Handling an interest -/

/-- The puts of a handler, one after the other: the packets sent, the value of `*sent`,
and the exception that ended them, if any. -/
def issuePuts (n : NodeImpl σ) (path : Name) (interest : Interest) :
    List Data → List NodeEvent × Bool × Option Exn
  | [] => ([], false, none)
  | d :: ds =>
    match n.sendData path interest d with
    | .error e => ([], false, some e)
    | .ok (p, sent) =>
      let (events, sent', thrown) := n.issuePuts path interest ds
      (.sent p :: events, sent || sent', thrown)

/-- What follows the call of the handler: its puts, and the Data it was given when it
returned `false` and none of the puts counts as sent. -/
def answer (n : NodeImpl σ) (path : Name) (interest : Interest) (run : HandlerRun) :
    List NodeEvent × Except Exn Unit :=
  let (events, sent, thrown) := n.issuePuts path interest run.puts
  match thrown, run.outcome with
  | some e, _ => (events, .error e)
  | none, .error e => (events, .error e)
  | none, .ok async =>
    if !async && !sent then
      match n.sendData path interest run.data with
      | .error e => (events, .error e)
      | .ok (p, _) => (events ++ [.sent p], .ok ())
    else (events, .ok ())

def handleInterest (n : NodeImpl σ) (interest : Interest) (parts : ParsedName) (s : σ) :
    σ × List NodeEvent × Except Exn Unit :=
  match n.validate parts.path interest with
  | .error e => (s, [], .error e)
  | .ok () =>
    match n.handlers[parts.path]? with
    | none =>
      (s, [], .error (.string (bytes "Cannot find handler for interest: " ++ interest.name.toUri)))
    | some handler =>
      let (s, run) := handler s interest parts.args (Data.empty.setName interest.name)
      let (events, result) := n.answer parts.path interest run
      (s, .handled parts.path parts.args :: events, result)

/-- `onInterest`, the callback of every filter: whatever is thrown is answered by
`onFailed`. -/
def onInterest (n : NodeImpl σ) (interest : Interest) (s : σ) : σ × List NodeEvent :=
  match n.parseInterestName interest with
  | .error e => (s, [.sent (n.onFailed e.reason)])
  | .ok parts =>
    match n.handleInterest interest parts s with
    | (s, events, .ok ()) => (s, events)
    | (s, events, .error e) => (s, events ++ [.sent (n.onFailed e.reason)])

/-- An interest arrives at the face: the callback runs for every installed filter that is
a prefix of its name. -/
def interestArrives (n : NodeImpl σ) (interest : Interest) :
    List Name → σ → σ × List NodeEvent
  | [], s => (s, [])
  | filter :: filters, s =>
    if filter.isPrefixOf interest.name then
      let (s, events) := n.onInterest interest s
      let (s, events') := n.interestArrives interest filters s
      (s, events ++ events')
    else n.interestArrives interest filters s

/-! ## Showing an interest -/

/-- The Data that `showInterest` makes up on a timeout. -/
def timeoutData (name : Name) : Data :=
  ((Data.empty.setName name).setContentType ContentType_Nack).setContent
    (bytes "interest timeout")

/-- What `showInterest` hands to its receiver when the interest ends, if anything.  Common
processors work on a copy of the Data that is made up.  What stood for a network Nack is
commented out. -/
def received (n : NodeImpl σ) (name : Name) : Answer → Except Exn (Option Data)
  | .data d => .ok (some d)
  | .nack => .ok none
  | .timeout => do
    let _ ← n.commonProcessors.foldlM (fun d processor => processor d) (timeoutData name)
    pure (some (timeoutData name))

end NodeImpl

end Nacapp
