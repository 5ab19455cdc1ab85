import Nacapp.Manager.UriStrings
import Nacapp.Rpi.PwmDriver
import Nacapp.Rpi.Temperature

/-!
# The client on the board

`Client` (`rpi/src/client.cpp`) answers interests for a thermometer, a motor and an LED.  The
fourth component of a name says for which, and the fifth what is asked.  `Led::set`
(`rpi/src/led.hpp`) and `Motor::set` (`rpi/src/motor.hpp`) take the value that is asked for and do
not look at it: every request toggles, and every reply is the same.

* `Request` and `requestOf`: what a name asks for, or why it cannot be read.  An exception in
  `onInterest` leaves `processEvents` and ends the program.  A component past the end of the name
  is undefined behaviour, and nothing is said of what follows it.
* `client_run`: the first interest that is no request decides how the run ends.  Until then the
  flags of the LED and the motor are the parities of the requests for them, and what is sent
  depends on the requests alone.

A device is on here when its flag says so.  The levels are those last written to its pins, and the
constructor of `Motor` makes its two pins outputs; no code makes pin 21, that of the LED, an output.
-/

namespace Nacapp.Rpi

open Transitions

/-! ## The code -/

def STATUS : Bytes := bytes "status"
def TEMP : Bytes := bytes "temp"
def MOTOR : Bytes := bytes "motor"
def LED : Bytes := bytes "led"
def REG : Bytes := bytes "reg"

/-- The client, with the pins that are outputs, the levels it has written to pins, and the packets
it has put on its face. -/
structure Client where
  m_keyChain : KeyChain
  led_status : ℕ
  m_on : ℕ
  outputs : ℕ → Bool
  pins : ℕ → Option Level
  sent : List Data

/-- Why a name cannot be read. -/
inductive Unreadable where
  /-- `stoi` throws. -/
  | exception (e : Exn)
  /-- `Name::get` reads a component that is not there. -/
  | pastTheEnd
  deriving DecidableEq

namespace Client

/-- `pinMode`, with the mode `OUTPUT`. -/
def pinMode (d : Client) (pin : ℕ) : Client :=
  { d with outputs := Function.update d.outputs pin true }

/-- The constructor writes no pin, but that of `Motor` makes two of them outputs. -/
def new (m_keyChain : KeyChain) : Client :=
  let d : Client := ⟨m_keyChain, 0, 0, fun _ => false, fun _ => none, []⟩
  (d.pinMode 2).pinMode 3

def digitalWrite (d : Client) (pin : ℕ) (level : Level) : Client :=
  { d with pins := Function.update d.pins pin (some level) }

/-- `Led::set`.  It returns `HIGH`, which is 1. -/
def ledSet (d : Client) (_opt : ℤ) : Client × ℤ :=
  if d.led_status = 0 then ({ d.digitalWrite 21 .HIGH with led_status := 1 }, 1)
  else ({ d.digitalWrite 21 .LOW with led_status := 0 }, 1)

/-- `Motor::set`. -/
def motorSet (d : Client) (_opt : ℤ) : Client × ℤ :=
  if d.m_on = 0 then ({ (d.digitalWrite 2 .HIGH).digitalWrite 3 .LOW with m_on := 1 }, 1)
  else ({ d.digitalWrite 2 .LOW with m_on := 0 }, 1)

/-- The Data of `sendData`. -/
def reply (m_keyChain : KeyChain) (dataName : Name) (content : Bytes) : Data :=
  m_keyChain.sign (((Data.empty.setName dataName).setFreshnessPeriod 10000).setContent content)

/-- `sendData`. -/
def sendData (d : Client) (dataName : Name) (content : Bytes) : Client :=
  { d with sent := d.sent ++ [reply d.m_keyChain dataName content] }

/-- `std::to_string`. -/
def to_string (n : ℤ) : Bytes := bytes (toString n)

/-- `doRecieveGetTemp`, when the sensor is read as `word`. -/
def doRecieveGetTemp (d : Client) (word : UInt16) (name : Name) : Client :=
  d.sendData name (to_string (getTemp word))

/-- `doRecieveMotor`. -/
def doRecieveMotor (d : Client) (name : Name) (on : ℤ) : Client :=
  let (d, suc) := d.motorSet on
  d.sendData name (to_string suc)

/-- `doRecieveLed`. -/
def doRecieveLed (d : Client) (name : Name) (on : ℤ) : Client :=
  let (d, suc) := d.ledSet on
  d.sendData name (to_string suc)

/-- `name.get(i).toUri()`. -/
def getUri (name : Name) (i : ℕ) : Except Unreadable Bytes :=
  match name[i]? with
  | some c => .ok c.toUri
  | none => .error .pastTheEnd

/-- `stoi(name.get(i).toUri())`. -/
def getInt (name : Name) (i : ℕ) : Except Unreadable ℤ := do
  let s ← getUri name i
  (stoi 10 s).mapError .exception

/-- `onInterest`, when the sensor is read as `word`.  `doRecieveStatus` and `doRecieveSetTemp` do
nothing, and `doUserClientReg` is not called. -/
def onInterest (d : Client) (word : UInt16) (interest : Interest) : Except Unreadable Client := do
  let name := interest.name
  let opt ← getUri name 3
  if opt = STATUS then .ok d
  else if opt = TEMP then do
    let ss ← getUri name 4
    if ss = bytes "Get" then .ok (d.doRecieveGetTemp word name)
    else do
      let _t ← getInt name 5
      .ok d
  else if opt = MOTOR then do
    let isOn ← getInt name 4
    .ok (d.doRecieveMotor name isOn)
  else if opt = LED then do
    let isOn ← getInt name 4
    .ok (d.doRecieveLed name isOn)
  else if opt = REG then do
    let _userClientName ← getUri name 4
    .ok d
  else .ok d

end Client

/-- An interest arrives, and the sensor has a temperature. -/
structure ClientEvent where
  word : UInt16
  interest : Interest

/-- The program, until a name that cannot be read. -/
def clientStep (d : Except Unreadable Client) (e : ClientEvent) : Except Unreadable Client := do
  let d ← d
  d.onInterest e.word e.interest

/-! ## Requests -/

/-- What is asked for. -/
inductive Request where
  | motor
  | led
  | getTemp
  | nothing
  deriving DecidableEq

/-- What a name asks for, if the code can read it. -/
def requestOf (name : Name) : Except Unreadable Request := do
  let opt ← Client.getUri name 3
  if opt = TEMP then do
    let ss ← Client.getUri name 4
    if ss = bytes "Get" then .ok .getTemp
    else (Client.getInt name 5).map fun _ => .nothing
  else if opt = MOTOR then (Client.getInt name 4).map fun _ => .motor
  else if opt = LED then (Client.getInt name 4).map fun _ => .led
  else if opt = REG then (Client.getUri name 4).map fun _ => .nothing
  else .ok .nothing

def ClientEvent.request (e : ClientEvent) : Except Unreadable Request := requestOf e.interest.name

/-- The interest asks for `r`. -/
def ClientEvent.asks (e : ClientEvent) (r : Request) : Bool := e.request.toOption = some r

/-- What is sent for a request: the temperature, or a constant. -/
def ClientEvent.replies (e : ClientEvent) (m_keyChain : KeyChain) : List Data :=
  if e.asks .getTemp then
    [Client.reply m_keyChain e.interest.name (Client.to_string (getTemp e.word))]
  else if e.asks .motor ∨ e.asks .led then
    [Client.reply m_keyChain e.interest.name (bytes "1")]
  else []

/-- What is done for a request.  The value that is asked for does not matter. -/
def Client.serve (d : Client) (word : UInt16) (name : Name) : Request → Client
  | .motor => d.doRecieveMotor name 0
  | .led => d.doRecieveLed name 0
  | .getTemp => d.doRecieveGetTemp word name
  | .nothing => d

/-- **`onInterest` serves what the name asks for**, and nothing else. -/
theorem onInterest_eq (d : Client) (word : UInt16) (i : Interest) :
    d.onInterest word i = (requestOf i.name).map (d.serve word i.name) := by
  unfold Client.onInterest requestOf
  dsimp only
  cases Client.getUri i.name 3 with
  | error f => rfl
  | ok opt =>
    rw [ok_bind, ok_bind]
    by_cases hstatus : opt = STATUS
    · subst hstatus
      rfl
    · rw [if_neg hstatus]
      split
      · cases Client.getUri i.name 4 with
        | error f => rfl
        | ok ss =>
          rw [ok_bind, ok_bind]
          split
          · rfl
          · cases Client.getInt i.name 5 <;> rfl
      · split
        · cases Client.getInt i.name 4 <;> rfl
        · split
          · cases Client.getInt i.name 4 <;> rfl
          · split
            · cases Client.getUri i.name 4 <;> rfl
            · rfl

/-! ## Runs -/

/-- How many requests ask for the motor, and for the LED. -/
def motors (es : List ClientEvent) : ℕ := es.countP fun e => e.asks .motor

def leds (es : List ClientEvent) : ℕ := es.countP fun e => e.asks .led

/-- A pin that was toggled so many times. -/
def toggled (n : ℕ) : Option Level :=
  if n = 0 then none else some (if n % 2 = 1 then .HIGH else .LOW)

theorem toggled_succ (n : ℕ) :
    toggled (n + 1) = some (if n % 2 = 0 then .HIGH else .LOW) := by
  rw [toggled, if_neg n.succ_ne_zero]
  congr 1
  rcases Nat.mod_two_eq_zero_or_one n with h | h
  · rw [if_pos (by omega), if_pos h]
  · rw [if_neg (by omega), if_neg (by omega)]

/-- The devices after so many requests for each. -/
structure Client.Toggled (d : Client) (leds motors : ℕ) : Prop where
  led : d.led_status = leds % 2
  ledPin : d.pins 21 = toggled leds
  motor : d.m_on = motors % 2
  motorPin : d.pins 2 = toggled motors
  motorLow : d.pins 3 = if motors = 0 then none else some .LOW

section Serve

variable {d : Client} {l m : ℕ} (h : d.Toggled l m)

include h

theorem Client.Toggled.doRecieveLed (name : Name) (on : ℤ) :
    (d.doRecieveLed name on).Toggled (l + 1) m := by
  simp only [Client.doRecieveLed, Client.ledSet, h.led]
  rcases Nat.mod_two_eq_zero_or_one l with hl | hl
  · rw [hl, if_pos rfl]
    refine ⟨?_, ?_, h.motor, h.motorPin, h.motorLow⟩
    · show 1 = (l + 1) % 2
      omega
    · rw [toggled_succ, if_pos hl]
      rfl
  · rw [hl, if_neg (by decide)]
    refine ⟨?_, ?_, h.motor, h.motorPin, h.motorLow⟩
    · show 0 = (l + 1) % 2
      omega
    · rw [toggled_succ, if_neg (by omega)]
      rfl

theorem Client.Toggled.doRecieveMotor (name : Name) (on : ℤ) :
    (d.doRecieveMotor name on).Toggled l (m + 1) := by
  simp only [Client.doRecieveMotor, Client.motorSet, h.motor]
  rcases Nat.mod_two_eq_zero_or_one m with hm | hm
  · rw [hm, if_pos rfl]
    refine ⟨h.led, h.ledPin, ?_, ?_, ?_⟩
    · show 1 = (m + 1) % 2
      omega
    · rw [toggled_succ, if_pos hm]
      rfl
    · rw [if_neg m.succ_ne_zero]
      rfl
  · rw [hm, if_neg (by decide)]
    refine ⟨h.led, h.ledPin, ?_, ?_, ?_⟩
    · show 0 = (m + 1) % 2
      omega
    · rw [toggled_succ, if_neg (by omega)]
      rfl
    · -- it is not the first request, so the pin was written before
      have hpos : m ≠ 0 := by omega
      rw [if_neg m.succ_ne_zero, ← if_neg (t := none) (e := some Level.LOW) hpos]
      exact h.motorLow

end Serve

theorem sent_doRecieveLed (d : Client) (name : Name) (on : ℤ) :
    (d.doRecieveLed name on).m_keyChain = d.m_keyChain ∧
      (d.doRecieveLed name on).outputs = d.outputs ∧
      (d.doRecieveLed name on).sent = d.sent ++ [Client.reply d.m_keyChain name (bytes "1")] := by
  simp only [Client.doRecieveLed, Client.ledSet]
  split <;> exact ⟨rfl, rfl, rfl⟩

theorem sent_doRecieveMotor (d : Client) (name : Name) (on : ℤ) :
    (d.doRecieveMotor name on).m_keyChain = d.m_keyChain ∧
      (d.doRecieveMotor name on).outputs = d.outputs ∧
      (d.doRecieveMotor name on).sent =
        d.sent ++ [Client.reply d.m_keyChain name (bytes "1")] := by
  simp only [Client.doRecieveMotor, Client.motorSet]
  split <;> exact ⟨rfl, rfl, rfl⟩

/-- The client after some requests. -/
structure Client.After (d : Client) (kc : KeyChain) (es : List ClientEvent) : Prop where
  keyChain : d.m_keyChain = kc
  outputs : ∀ pin, d.outputs pin = true ↔ pin = 2 ∨ pin = 3
  devices : d.Toggled (leds es) (motors es)
  sent : d.sent = es.flatMap fun e => e.replies kc

theorem asks_of_request {e : ClientEvent} {r : Request} (hr : e.request = .ok r) (s : Request) :
    e.asks s = decide (r = s) := by
  rw [ClientEvent.asks, hr]
  simp only [Except.toOption, Option.some.injEq]

theorem countP_append_asks {es : List ClientEvent} {e : ClientEvent} {r s : Request}
    (hr : e.request = .ok r) :
    (es ++ [e]).countP (fun e => e.asks s) =
      es.countP (fun e => e.asks s) + if r = s then 1 else 0 := by
  rw [List.countP_append, List.countP_singleton, asks_of_request hr]
  simp only [decide_eq_true_eq]

/-- Serving one more request. -/
theorem Client.After.serve {d : Client} {kc : KeyChain} {es : List ClientEvent}
    (h : d.After kc es) {e : ClientEvent} {r : Request} (hr : e.request = .ok r) :
    (d.serve e.word e.interest.name r).After kc (es ++ [e]) := by
  have hleds : leds (es ++ [e]) = leds es + if r = .led then 1 else 0 := countP_append_asks hr
  have hmotors : motors (es ++ [e]) = motors es + if r = .motor then 1 else 0 :=
    countP_append_asks hr
  have hsent : ((es ++ [e]).flatMap fun e => e.replies kc) = d.sent ++ e.replies kc := by
    rw [List.flatMap_append, List.flatMap_singleton, h.sent]
  have hkey := h.keyChain
  subst hkey
  cases r with
  | nothing =>
    refine ⟨rfl, h.outputs, by rw [hleds, hmotors]; exact h.devices, ?_⟩
    rw [hsent, ClientEvent.replies, asks_of_request hr, asks_of_request hr, asks_of_request hr]
    exact (List.append_nil _).symm
  | getTemp =>
    refine ⟨rfl, h.outputs, ?_, ?_⟩
    · rw [hleds, hmotors]
      exact ⟨h.devices.led, h.devices.ledPin, h.devices.motor, h.devices.motorPin,
        h.devices.motorLow⟩
    · rw [hsent, ClientEvent.replies, asks_of_request hr]
      rfl
  | motor =>
    obtain ⟨hkc, houtputs, hput⟩ := sent_doRecieveMotor d e.interest.name 0
    refine ⟨hkc, fun pin => (Eq.congr_left (congrFun houtputs pin)).trans (h.outputs pin), by
      rw [hleds, hmotors]; exact h.devices.doRecieveMotor e.interest.name 0, ?_⟩
    rw [hsent, ClientEvent.replies, asks_of_request hr, asks_of_request hr, asks_of_request hr]
    exact hput
  | led =>
    obtain ⟨hkc, houtputs, hput⟩ := sent_doRecieveLed d e.interest.name 0
    refine ⟨hkc, fun pin => (Eq.congr_left (congrFun houtputs pin)).trans (h.outputs pin), by
      rw [hleds, hmotors]; exact h.devices.doRecieveLed e.interest.name 0, ?_⟩
    rw [hsent, ClientEvent.replies, asks_of_request hr, asks_of_request hr, asks_of_request hr]
    exact hput

theorem after_new (kc : KeyChain) : (Client.new kc).After kc [] := by
  refine ⟨rfl, fun pin => ?_, ⟨rfl, rfl, rfl, rfl, rfl⟩, rfl⟩
  simp only [Client.new, Client.pinMode, Function.update_apply]
  by_cases h3 : pin = 3
  · simp [h3]
  · by_cases h2 : pin = 2
    · simp [h2]
    · simp [h2, h3]

/-- **The client toggles.**  Whatever interests arrive, one of two things is the case.  Either each
of them is a request; then the flags of the LED and the motor are set exactly when the requests for
them are odd in number, whichever values these ask for, the levels last written to the pins say the
same, and each request for a device got the constant reply and each request for the temperature the
temperature, signed, under its own name.  Or one of them cannot be read; then the first of these
has made the program end with an exception, or read past the end of its name. -/
theorem client_run (kc : KeyChain) (es : List ClientEvent) :
    (∀ e ∈ es, ∃ r, e.request = .ok r) ∧
        (∃ d, exec clientStep (.ok (Client.new kc)) es = .ok d ∧ d.After kc es) ∨
      ∃ pre e post f, es = pre ++ e :: post ∧ (∀ e' ∈ pre, ∃ r, e'.request = .ok r) ∧
        e.request = .error f ∧ exec clientStep (.ok (Client.new kc)) es = .error f := by
  induction es using List.reverseRecOn with
  | nil => exact Or.inl ⟨fun e he => absurd he List.not_mem_nil, _, rfl, after_new kc⟩
  | append_singleton es e ih =>
    rw [exec_append, exec_cons, exec_nil]
    rcases ih with ⟨hall, d, hd, hafter⟩ | ⟨pre, e', post, f, rfl, hpre, hf, hd⟩
    · rw [hd, clientStep, ok_bind, onInterest_eq]
      cases hr : e.request with
      | error f =>
        refine Or.inr ⟨es, e, [], f, rfl, hall, hr, ?_⟩
        rw [show requestOf e.interest.name = .error f from hr]
        rfl
      | ok r =>
        refine Or.inl ⟨fun e' he' => ?_, _, ?_, hafter.serve hr⟩
        · rcases List.mem_append.mp he' with he' | he'
          · exact hall e' he'
          · exact ⟨r, List.mem_singleton.mp he' ▸ hr⟩
        · rw [show requestOf e.interest.name = .ok r from hr]
          rfl
    · rw [hd]
      exact Or.inr ⟨pre, e', post ++ [e], f, by simp, hpre, hf, rfl⟩

end Nacapp.Rpi
