import Nacapp.Bootstrap.Messages
import Nacapp.Lib.Transitions

/-!
# The bootstrap protocol

A run of `bootstrap::start` (`node/src/protocol/v2/bootstrap.cpp`, `bootstrap-impl.cpp`): the
device asks for the owner's certificate, serves its own unsigned certificate to whoever asks
with a valid HMAC, asks for the signed one and installs it.

The run reacts to what arrives: the answers to the Interests it has expressed, and requests
routed to the handler it has installed.  Any party may send any of it, in any order.  What a
reaction does is a list of outputs, in order: packets, and calls of the callbacks that
`start` and `impl::start` are given.

A receiver runs outside any `try`, so an exception in it ends the program, as does an access
past the end of a vector or through a null pointer, or a counter that overflows: the run is
`halted`, and does nothing more.  The calls to the identity management of the key chain are
parameters.

The lambdas of the source capture by reference.  The parameters and locals they refer to, the
nonce, the callbacks and the counters among them, are gone when the functions that express the
Interests and install the handler have returned, so that a callback that runs later has no
defined meaning.  The run modelled is that of lambdas that capture by value: a callback works
with the values that these had.
-/

namespace Nacapp.Bootstrap

/-! ## Session and configuration -/

/-- A key of an identity. -/
structure Key where
  name : Name
  publicKey : Bytes
  deriving DecidableEq

/-- An identity of the key chain, with its default key and the certificate of that. -/
structure Identity where
  name : Name
  defaultKey : Key
  defaultCertificate : Certificate

/-- A session.  Of the validator only its presence and its trust anchors matter. -/
structure Session where
  keychain : Option KeyChain
  deviceIdentity : Option Identity
  ownerCert : Option Certificate
  validator : Option (List Certificate)

structure Config where
  pairId : Bytes
  pairCode : Bytes
  wellknown : Name

def isValidSession (session : Session) : Bool := session.keychain.isSome

def isValidConfig (cfg : Config) : Bool :=
  let pairIdIsValid := decide (cfg.pairId.length > 0)
  let pairCodeIsValid := decide (cfg.pairCode.length > 0)
  pairIdIsValid && pairCodeIsValid

/-- What a run works with: its strings and certificates, the key chain, the prefix of the node
and the configuration. -/
structure Env (α : Type) extends CertificateCodec α where
  text : HmacText α
  /-- `keychain->createIdentity(Name(dname))`; `none` where one of the two throws. -/
  createIdentity : List α → Option Identity
  /-- `keychain->setDefaultCertificate(key, cert)` does not throw. -/
  acceptsCertificate : Key → Certificate → Bool
  nodePrefix : TextName α
  cfg : Config

namespace Env

variable {α : Type} (E : Env α)

def pairId : List α := E.text.str E.cfg.pairId
def pairCode : List α := E.text.str E.cfg.pairCode
def wellknown : TextName α := E.text.ofName E.cfg.wellknown

end Env

/-! ## The state of a run -/

/-- The largest `int`. -/
def INT_MAX : ℕ := 2147483647

/-- What the handler of `serveDeviceUnsignedCert` holds.  The `int` `retry` starts at zero and is
only counted up, to `INT_MAX` at most. -/
structure Serving where
  deviceCertUnsigned : Certificate
  retry : ℕ

structure Run (α : Type) where
  session : Session
  randomNo : List α
  /-- The Interest for the owner's certificate is outstanding. -/
  awaitingOwner : Bool
  /-- The handler for the route `/`, once it is installed. -/
  serving : Option Serving
  /-- Interests for the signed certificate that are outstanding. -/
  fetching : ℕ
  /-- Trust anchors the node was given. -/
  nodeAnchors : List Certificate
  halted : Bool

/-- What a run does. -/
inductive Output (α : Type) where
  | interest (name : TextName α)
  | data (d : TextData α)
  /-- `onOwnerCert`. -/
  | ownerCert (cert : Certificate)
  /-- `setDeviceCert`, which installed the certificate for the key. -/
  | deviceCert (key : Key) (cert : Certificate)
  | onSuccess
  | onFail (reason : Bytes)

/-- What can arrive. -/
inductive Event (α : Type) where
  | ownerReply (d : TextData α)
  | ownerTimeout
  | ownerNack
  /-- An Interest under the prefix of the node, routed to `/`. -/
  | request (args : TextName α)
  | deviceCertReply (d : TextData α)
  | deviceCertTimeout
  | deviceCertNack

variable {α : Type} (E : Env α)

namespace Run

/-- An exception in a receiver, or undefined behaviour. -/
def halt (s : Run α) : Run α := { s with halted := true }

/-! ## The callbacks of `bootstrap::start` -/

/-- `setTrustAnchor`: to the validator of the session, or else to the node. -/
def setTrustAnchor (s : Run α) (anchor : Certificate) : Run α :=
  match s.session.validator with
  | some anchors => { s with session.validator := some (anchors ++ [anchor]) }
  | none => { s with nodeAnchors := s.nodeAnchors ++ [anchor] }

/-- `onOwnerCert`. -/
def onOwnerCert (s : Run α) (owner : Certificate) : Run α :=
  setTrustAnchor { s with session.ownerCert := some owner } owner

theorem onOwnerCert_ownerCert (s : Run α) (owner : Certificate) :
    (s.onOwnerCert owner).session.ownerCert = some owner := by
  unfold onOwnerCert setTrustAnchor
  split <;> rfl

theorem onOwnerCert_awaitingOwner (s : Run α) (owner : Certificate) :
    (s.onOwnerCert owner).awaitingOwner = s.awaitingOwner := by
  unfold onOwnerCert setTrustAnchor
  split <;> rfl

theorem onOwnerCert_randomNo (s : Run α) (owner : Certificate) :
    (s.onOwnerCert owner).randomNo = s.randomNo := by
  unfold onOwnerCert setTrustAnchor
  split <;> rfl

/-- `setDeviceCert`.  The identity may be null, and the key chain refuses what does not match
the key. -/
def setDeviceCert (s : Run α) (cert : Certificate) : Option Key :=
  match s.session.deviceIdentity with
  | none => none
  | some id => if E.acceptsCertificate id.defaultKey cert then some id.defaultKey else none

/-- `onDeviceCertSigned`. -/
def onDeviceCertSigned (s : Run α) (signedDeviceCert : Certificate) : Run α × List (Output α) :=
  match s.setDeviceCert E signedDeviceCert with
  | some key => (s, [.deviceCert key signedDeviceCert, .onSuccess])
  | none => (s.halt, [])

/-! ## The receivers and the handler -/

variable [DecidableEq α]

/-- The receiver of `fetchDeviceCert`. -/
def receiveDeviceCert (s : Run α) (d : TextData α) : Run α × List (Output α) :=
  match E.ofContent d.content with
  | some cert => s.onDeviceCertSigned E cert
  | none => (s.halt, [])

/-- The handler of `serveDeviceUnsignedCert`: what it puts, and for an invalid request the Data
of the node, which is sent when the handler returns. -/
def serveDeviceUnsignedCert (s : Run α) (serving : Serving) (args : TextName α) :
    Run α × List (Output α) :=
  let interestName := E.nodePrefix ++ args
  match E.text.validateOwnerRequest interestName args E.pairCode with
  | none => (s.halt, [])
  | some true =>
    let signedCert := E.text.hmacSignUnsignedCert E.toCertificateCodec serving.deviceCertUnsigned
      E.pairId E.pairCode
    ({ s with fetching := s.fetching + 1 },
      [.data signedCert, .interest (E.text.deviceCertName E.wellknown E.pairId)])
  | some false =>
    let retryMax := 10
    -- `(*retry)++` overflows
    if serving.retry ≥ INT_MAX then (s.halt, [])
    else
      let s := { s with serving := some { serving with retry := serving.retry + 1 } }
      if serving.retry > retryMax then
        let message := bytes "Invalid request - Max Retry Reached"
        (s, [.onFail message, .data ⟨interestName, E.text.str message⟩])
      else (s, [.data ⟨interestName, E.text.str (bytes "Invalid request")⟩])

/-- The receiver of `startBootstrap`. -/
def receiveOwnerCert (s : Run α) (d : TextData α) : Run α × List (Output α) :=
  match E.text.validateOwnerCertResp d s.randomNo E.pairCode with
  | none => (s.halt, [])
  | some false => (s, [.onFail (bytes "owner certificate is not valid.")])
  | some true =>
    match E.text.extractOwnerCert E.toCertificateCodec d with
    | none => (s.halt, [])
    | some (dname, ownerCert) =>
      -- `generateIdentity`
      match E.createIdentity dname with
      | none => (s.halt, [])
      | some id =>
        ({ s.onOwnerCert ownerCert with serving := some ⟨id.defaultCertificate, 0⟩ },
          [.ownerCert ownerCert])

/-! ## Runs -/

/-- The Data that `showInterest` makes up when an Interest times out. -/
def timeoutData (name : TextName α) : TextData α :=
  ⟨name, E.text.str (bytes "interest timeout")⟩

/-- The name of the Interest for the owner's certificate. -/
def ownerCertName (s : Run α) : TextName α :=
  E.text.constructBootstrapName E.wellknown s.randomNo E.pairId E.pairCode

/-- An answer to the Interest for the owner's certificate.  There is one such Interest. -/
def answerOwner (s : Run α) (d : TextData α) : Run α × List (Output α) :=
  if s.awaitingOwner then receiveOwnerCert E { s with awaitingOwner := false } d else (s, [])

/-- An answer to one of the Interests for the signed certificate.  These have one name, and a Data
that arrives at the face answers all that are outstanding: it makes as many events. -/
def answerDeviceCert (s : Run α) (d : TextData α) : Run α × List (Output α) :=
  if 0 < s.fetching then receiveDeviceCert E { s with fetching := s.fetching - 1 } d else (s, [])

/-- The reaction to what arrives.  A network Nack is logged, and ends the Interest. -/
def react (s : Run α) (e : Event α) : Run α × List (Output α) :=
  if s.halted then (s, [])
  else match e with
  | .ownerReply d => s.answerOwner E d
  | .ownerTimeout => s.answerOwner E (timeoutData E (s.ownerCertName E))
  | .ownerNack => ({ s with awaitingOwner := false }, [])
  | .request args =>
    match s.serving with
    | some serving => s.serveDeviceUnsignedCert E serving args
    | none => (s, [])
  | .deviceCertReply d => s.answerDeviceCert E d
  | .deviceCertTimeout =>
    s.answerDeviceCert E (timeoutData E (E.text.deviceCertName E.wellknown E.pairId))
  | .deviceCertNack => ({ s with fetching := s.fetching - 1 }, [])

def step (s : Run α) (e : Event α) : Run α := (s.react E e).1

def out (s : Run α) (e : Event α) : List (Output α) := (s.react E e).2

/-- The state after some events. -/
def run (s : Run α) (events : List (Event α)) : Run α := Transitions.exec (step E) s events

/-- What a run does in the course of some events. -/
def outputs (s : Run α) (events : List (Event α)) : List (Output α) :=
  Transitions.emitted (step E) (out E) s events

/-- Before anything was expressed. -/
def idle (session : Session) (randomNo : List α) : Run α :=
  ⟨session, randomNo, false, none, 0, [], false⟩

/-- `start`, on a session that is not null, with the nonce that `randomHex` returns. -/
def start (session : Session) (randomNo : List α) : Run α × List (Output α) :=
  if isValidSession session = false then
    (idle session randomNo, [.onFail (bytes "invalid initial session")])
  else if isValidConfig E.cfg = false then
    (idle session randomNo, [.onFail (bytes "invalid bootstrap config")])
  else
    let s := { idle session randomNo with awaitingOwner := true }
    (s, [.interest (s.ownerCertName E)])

end Run

end Nacapp.Bootstrap
