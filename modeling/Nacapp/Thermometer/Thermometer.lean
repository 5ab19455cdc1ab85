import Nacapp.Lib.Transitions
import Nacapp.Node.Answers

/-!
# The thermometer

`Thermometer` (`thermometer/src/thermometer.cpp`) answers requests for the temperature with
samples that `ndn::gep::Producer` encrypts and signs, and hands out the encrypted content
keys.  The producer is not part of the repository, so it is a parameter `P : ProducerLib`.

A request for the temperature first asks the producer for the content key of its timeslot.
The sample is produced when the encrypted keys come, in a callback the producer may make
before `createContentKey` returns or at any time later, and also at once when a key of that
name is already stored.  The Data of a request is shared by all of these, so it is kept in
`requests`, at the position of the request.

A put goes to the node `n`, which has no processors here; what it signs and sets stays in the
Data (`NodeImpl.afterPut`).
-/

namespace Nacapp

/-- The Data behind the pointer after a put, on a node without processors. -/
def NodeImpl.afterPut {σ : Type} (n : NodeImpl σ) (d : Data) : Data :=
  if d.contentType = ContentType_Nack then d else defaultFreshness (n.signIfUnsigned d)

namespace NodeImpl

variable {σ : Type} (n : NodeImpl σ) {d : Data}

theorem afterPut_of_ne_nack (h : d.contentType ≠ ContentType_Nack) :
    n.afterPut d = defaultFreshness (n.signIfUnsigned d) := if_neg h

@[simp] theorem name_afterPut (d : Data) : (n.afterPut d).name = d.name := by
  rw [afterPut]
  split
  · rfl
  · exact n.name_defaultFreshness_signIfUnsigned d

@[simp] theorem contentType_afterPut (d : Data) : (n.afterPut d).contentType = d.contentType := by
  rw [afterPut]
  split
  · rfl
  · exact n.contentType_defaultFreshness_signIfUnsigned d

end NodeImpl

/-- `time::system_clock::TimePoint`. -/
abbrev TimePoint := ℤ

/-- The calls on `ndn::gep::Producer`, over its state. -/
structure ProducerLib where
  State : Type
  /-- The name of the content key, and the encrypted keys if the callback is made before the
  call returns.  The flag says whether there is a callback. -/
  createContentKey : State → TimePoint → Bool → State × Name × Option (List Data)
  /-- The Data with the sample in it. -/
  produce : State → Data → TimePoint → Bytes → State × Data

/-- Samples are signed when they are returned. -/
def ProducerLib.SignsSamples (P : ProducerLib) : Prop :=
  ∀ st d timeslot content, (P.produce st d timeslot content).2.Verifies

/-- A request for the temperature: the interest, the timeslot, and the Data made for it. -/
structure SampleRequest where
  interest : Interest
  timeslot : TimePoint
  data : Data

structure Thermometer (P : ProducerLib) where
  producer : P.State
  ckeys : NameMap Data := ∅
  requests : List SampleRequest := []
  /-- How often the sensor was read. -/
  readings : ℕ := 0

/-- A sample that is put: the interest it answers, the Data as it was produced, and the Data
as it is put. -/
structure Sample where
  interest : Interest
  produced : Data
  data : Data

/-- `Thermometer::registerPrefixes`. -/
def registerThermometer {σ : Type} (n : NodeImpl σ)
    (onGetContentKey onGetTemperature : InterestHandler σ) : NodeImpl σ :=
  (n.routeHandler [Component.of "C-KEY"] onGetContentKey).routeHandler [] onGetTemperature

/-- The node of a thermometer has no processors, like that of a manager service. -/
theorem withoutProcessors_registerThermometer {σ : Type} {n : NodeImpl σ}
    (hn : n.WithoutProcessors) (onGetContentKey onGetTemperature : InterestHandler σ) :
    (registerThermometer n onGetContentKey onGetTemperature).WithoutProcessors :=
  (hn.routeHandler _ _).routeHandler _ _

/-- What the thermometer takes from outside: reading an ISO time string, the sensor, and the
node it puts Data on. -/
structure ThermometerEnv (σ : Type) where
  fromIsoString : Bytes → Except Exn TimePoint
  getTemp : ℕ → ℤ
  node : NodeImpl σ

namespace Thermometer

variable {P : ProducerLib} {σ : Type} (E : ThermometerEnv σ) (t : Thermometer P)

/-! ## Content keys -/

/-- `searchCKey`, with the name it is stored under: the key of that name, or the first whose
name extends it. -/
def searchCKey (ckey : Name) : Option (Name × Data) :=
  match t.ckeys[ckey]? with
  | some d => some (ckey, d)
  | none => t.ckeys.toList.find? fun entry => ckey.isPrefixOf entry.1

/-- `m_ckeys.insert`, for one key after the other: a name that is there keeps its key. -/
def insertCKeys (ckeys : NameMap Data) (keys : List Data) : NameMap Data :=
  keys.foldl (fun ckeys key => ckeys.insertIfNew key.name key) ckeys

/-! ## Samples -/

/-- `doProduce`, for the request at an index. -/
def doProduce (index : ℕ) : Thermometer P × List Sample :=
  match t.requests[index]? with
  | none => (t, [])
  | some r =>
    let content := bytes (toString (E.getTemp t.readings)) ++ [0]
    let (producer, produced) := P.produce t.producer r.data r.timeslot content
    let data := produced.setName r.interest.name
    ({ t with
        producer := producer
        readings := t.readings + 1
        requests := t.requests.set index { r with data := E.node.afterPut data } },
      [⟨r.interest, produced, data⟩])

/-- `onKeyEncrypted`, the callback of the request at an index. -/
def onKeyEncrypted (index : ℕ) (keys : List Data) : Thermometer P × List Sample :=
  ({ t with ckeys := insertCKeys t.ckeys keys } : Thermometer P).doProduce E index

/-- The slashes are removed from the time expression. -/
def readTime (timeExpr : Bytes) : Except Exn TimePoint :=
  E.fromIsoString (timeExpr.filter (· ≠ '/'.toUInt8))

/-- `parseTimeSlot`: a time in the future is cut to now. -/
def parseTimeSlot (timeExpr : Bytes) (now : TimePoint) : Except Exn TimePoint :=
  (readTime E timeExpr).map fun timeslot => min timeslot now

/-- The callback of `createContentKey`, when it is made before the call returns. -/
def callBack (index : ℕ) (encrypted : Option (List Data)) : Thermometer P × List Sample :=
  match encrypted with
  | some keys => t.onKeyEncrypted E index keys
  | none => (t, [])

/-- A key of the name is stored already: the sample is produced at once. -/
def produceIfStored (index : ℕ) (kname : Name) : Thermometer P × List Sample :=
  if (t.searchCKey kname).isSome then t.doProduce E index else (t, [])

/-- `onGetTemperature` after the timeslot is known. -/
def askForSample (interest : Interest) (data : Data) (timeslot : TimePoint) :
    Thermometer P × List Sample :=
  let index := t.requests.length
  let (producer, kname, encrypted) := P.createContentKey t.producer timeslot true
  let t : Thermometer P :=
    { t with producer := producer, requests := t.requests ++ [⟨interest, timeslot, data⟩] }
  let (t, samples) := t.callBack E index encrypted
  let (t, samples') := t.produceIfStored E index kname
  (t, samples ++ samples')

/-- `onGetTemperature`, at the time `now`.  It returns `true`, whatever was put. -/
def onGetTemperature (interest : Interest) (args : Name) (data : Data) (now : TimePoint) :
    Thermometer P × List Sample × Except Exn Bool :=
  let timeslot : Except Exn TimePoint := match args with
    | [] => .ok now
    | arg :: _ => parseTimeSlot E arg.toUri now
  match timeslot with
  | .error e => (t, [], .error e)
  | .ok timeslot =>
    let (t, samples) := t.askForSample E interest data timeslot
    (t, samples, .ok true)

/-- `onGetContentKey`.  The key is the one that is stored, so what a put sets stays in it. -/
def onGetContentKey (args : Name) (data : Data) : Thermometer P × HandlerRun :=
  match args with
  | [] => (t, ⟨[], data.setContentType ContentType_Nack, .ok false⟩)
  | arg :: _ =>
    match readTime E arg.toUri with
    | .error e => (t, ⟨[], data, .error e⟩)
    | .ok timeslot =>
      let (producer, keyName, _) := P.createContentKey t.producer timeslot false
      let t : Thermometer P := { t with producer := producer }
      match t.searchCKey keyName with
      | none => (t, ⟨[], data, .ok false⟩)
      | some (stored, key) =>
        ({ t with ckeys := t.ckeys.insert stored (E.node.afterPut key) },
          ⟨[key], data, .ok false⟩)

end Thermometer

/-! ## The thermometer as a state machine -/

/-- What happens to a thermometer: a request, or the callback of an earlier request for the
temperature. -/
inductive ThermometerEvent where
  | temperature (interest : Interest) (args : Name) (now : TimePoint)
  | contentKey (interest : Interest) (args : Name)
  | keysEncrypted (index : ℕ) (keys : List Data)

namespace Thermometer

variable {P : ProducerLib} {σ : Type} (E : ThermometerEnv σ)

/-- The thermometer after an event, and the samples it puts. -/
def react (t : Thermometer P) : ThermometerEvent → Thermometer P × List Sample
  | .temperature interest args now =>
    let (t, samples, _) := t.onGetTemperature E interest args (Data.empty.setName interest.name) now
    (t, samples)
  | .contentKey interest args =>
    ((t.onGetContentKey E args (Data.empty.setName interest.name)).1, [])
  | .keysEncrypted index keys => t.onKeyEncrypted E index keys

/-- The samples put in a run of events. -/
def samples (t : Thermometer P) (events : List ThermometerEvent) : List Sample :=
  Transitions.emitted (fun t event => (react E t event).1) (fun t event => (react E t event).2) t
    events

/-! ## Where samples come from -/

variable {E} {t : Thermometer P}

/-- **A sample is what the producer made, under the name of the interest.** -/
def OfProducer (P : ProducerLib) (x : Sample) : Prop :=
  (∃ st d timeslot content, x.produced = (P.produce st d timeslot content).2) ∧
    x.data = x.produced.setName x.interest.name

theorem ofProducer_of_mem_doProduce {index : ℕ} {x : Sample}
    (hx : x ∈ (t.doProduce E index).2) : OfProducer P x := by
  unfold doProduce at hx
  split at hx
  · exact absurd hx List.not_mem_nil
  · rw [List.mem_singleton.mp hx]
    exact ⟨⟨_, _, _, _, rfl⟩, rfl⟩

theorem ofProducer_of_mem_callBack {index : ℕ} {encrypted : Option (List Data)} {x : Sample}
    (hx : x ∈ (t.callBack E index encrypted).2) : OfProducer P x := by
  cases encrypted with
  | none => exact absurd hx List.not_mem_nil
  | some keys => exact ofProducer_of_mem_doProduce hx

theorem ofProducer_of_mem_produceIfStored {index : ℕ} {kname : Name} {x : Sample}
    (hx : x ∈ (t.produceIfStored E index kname).2) : OfProducer P x := by
  unfold produceIfStored at hx
  split at hx
  · exact ofProducer_of_mem_doProduce hx
  · exact absurd hx List.not_mem_nil

theorem ofProducer_of_mem_askForSample {interest : Interest} {data : Data} {timeslot : TimePoint}
    {x : Sample} (hx : x ∈ (t.askForSample E interest data timeslot).2) : OfProducer P x := by
  rcases List.mem_append.mp hx with hx | hx
  · exact ofProducer_of_mem_callBack hx
  · exact ofProducer_of_mem_produceIfStored hx

theorem ofProducer_of_mem_react {event : ThermometerEvent} {x : Sample}
    (hx : x ∈ (react E t event).2) : OfProducer P x := by
  cases event with
  | temperature interest args now =>
    unfold react onGetTemperature at hx
    dsimp only at hx
    split at hx
    · exact absurd hx List.not_mem_nil
    · exact ofProducer_of_mem_askForSample hx
  | contentKey interest args => exact absurd hx List.not_mem_nil
  | keysEncrypted index keys => exact ofProducer_of_mem_doProduce hx

/-- Every sample of a run is what the producer made. -/
theorem ofProducer_of_mem_samples {events : List ThermometerEvent} {x : Sample}
    (hx : x ∈ samples E t events) : OfProducer P x := by
  have hall : ∀ y ∈ samples E t events, OfProducer P y := by
    refine (Transitions.forall_mem_emitted_iff _ _).mpr ?_
    rw [Transitions.stepsMeet_iff]
    exact fun _ _ _ _ y hy => ofProducer_of_mem_react hy
  exact hall x hx

end Thermometer

/-! ## A producer of this kind -/

/-- A producer that names a sample after its timeslot, and signs it. -/
def plainProducer : ProducerLib where
  State := Unit
  createContentKey _ timeslot _ := ((), [⟨bytes (toString timeslot)⟩], none)
  produce _ d timeslot content :=
    ((), (KeyChain.mk (bytes "producer")).sign
      ((d.setName [⟨bytes (toString timeslot)⟩]).setContent content))

theorem plainProducer_signsSamples : plainProducer.SignsSamples :=
  fun _ _ _ _ => KeyChain.sign_verifies _ _

end Nacapp
