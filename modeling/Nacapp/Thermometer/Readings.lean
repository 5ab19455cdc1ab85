import Nacapp.Thermometer.Callbacks

/-!
# What is in the samples

`doProduce` reads the sensor and has the producer encrypt what it read, for the timeslot of the
request.  It is called from three places, and the requests it serves may have waited for their keys
in any order.

`samples_readings`: the samples of a run carry the readings of the sensor, one each, in the order
in which they were taken: none is left out, and none is used twice.  Each is produced for the
timeslot of a request for the temperature of the run, which is not later than the time of this
request, and is put under the name of its interest.
-/

namespace Nacapp

/-- What a request asks for: the interest it answers, and the timeslot. -/
abbrev Ask := Interest × TimePoint

def SampleRequest.ask (r : SampleRequest) : Ask := (r.interest, r.timeslot)

namespace Thermometer

open Transitions

variable {P : ProducerLib} {σ : Type} {E : ThermometerEnv σ} {t : Thermometer P}

/-! ## Requests and samples -/

/-- What an event asks for. -/
def asksOf (E : ThermometerEnv σ) : ThermometerEvent → List Ask
  | .temperature interest args now =>
    ((timeslotOf E args now).toOption.map fun timeslot => (interest, timeslot)).toList
  | _ => []

/-- What the sensor shows, as it is written into a sample. -/
def contentOf (E : ThermometerEnv σ) (reading : ℕ) : Bytes :=
  bytes (toString (E.getTemp reading)) ++ [0]

/-- The sample holds the reading, and is made for what was asked. -/
structure SampleOf (E : ThermometerEnv σ) (P : ProducerLib) (reading : ℕ) (ask : Ask) (x : Sample) :
    Prop where
  produced : ∃ st d, x.produced = (P.produce st d ask.2 (contentOf E reading)).2
  interest : x.interest = ask.1
  data : x.data = x.produced.setName ask.1.name

/-- Some samples are put, one for each reading that is taken, while `new` is asked for. -/
structure Reads (E : ThermometerEnv σ) (t : Thermometer P) (new : List Ask) (t' : Thermometer P)
    (xs : List Sample) : Prop where
  readings : t'.readings = t.readings + xs.length
  asks : t'.requests.map SampleRequest.ask = t.requests.map SampleRequest.ask ++ new
  samples : ∀ (i : ℕ) x, xs[i]? = some x →
    ∃ ask ∈ t'.requests.map SampleRequest.ask, SampleOf E P (t.readings + i) ask x

theorem Reads.refl (t : Thermometer P) : Reads E t [] t [] where
  readings := rfl
  asks := (List.append_nil _).symm
  samples i x h := absurd h (by simp)

/-- What reads on, reads in turn. -/
theorem Reads.trans {t' t'' : Thermometer P} {new new' : List Ask} {xs ys : List Sample}
    (h : Reads E t new t' xs) (h' : Reads E t' new' t'' ys) :
    Reads E t (new ++ new') t'' (xs ++ ys) where
  readings := by
    rw [h'.readings, h.readings, List.length_append, Nat.add_assoc]
  asks := by rw [h'.asks, h.asks, List.append_assoc]
  samples i x hx := by
    by_cases hi : i < xs.length
    · rw [List.getElem?_append_left hi] at hx
      obtain ⟨ask, hask, hsample⟩ := h.samples i x hx
      exact ⟨ask, h'.asks ▸ List.mem_append_left _ hask, hsample⟩
    · rw [List.getElem?_append_right (not_lt.mp hi)] at hx
      obtain ⟨ask, hask, hsample⟩ := h'.samples _ x hx
      refine ⟨ask, hask, ?_⟩
      have hreading : t'.readings + (i - xs.length) = t.readings + i := by
        rw [h.readings]
        omega
      rwa [hreading] at hsample

/-! ## The parts of an event -/

theorem reads_doProduce (t : Thermometer P) (index : ℕ) :
    Reads E t [] (t.doProduce E index).1 (t.doProduce E index).2 := by
  have hasks : (t.doProduce E index).1.requests.map SampleRequest.ask =
      t.requests.map SampleRequest.ask :=
    map_requests_doProduce (fun _ _ => rfl) index
  refine ⟨?_, hasks.trans (List.append_nil _).symm, fun i x hx => ?_⟩
  · rw [doProduce]
    split
    · rfl
    · rfl
  · rw [hasks]
    rw [doProduce] at hx
    split at hx
    · exact absurd hx (by simp)
    · rename_i r hr
      obtain ⟨rfl, rfl⟩ : i = 0 ∧ _ = x := by
        rcases i with _ | i
        · exact ⟨rfl, Option.some.inj hx⟩
        · exact absurd hx (by simp)
      exact ⟨r.ask, List.mem_map_of_mem (List.mem_of_getElem? hr),
        ⟨⟨_, _, rfl⟩, rfl, rfl⟩⟩

theorem reads_onKeyEncrypted (t : Thermometer P) (index : ℕ) (keys : List Data) :
    Reads E t [] (t.onKeyEncrypted E index keys).1 (t.onKeyEncrypted E index keys).2 := by
  have h := reads_doProduce (E := E) { t with ckeys := insertCKeys t.ckeys keys } index
  exact ⟨h.readings, h.asks, h.samples⟩

theorem reads_called (t : Thermometer P) (interest : Interest) (data : Data)
    (timeslot : TimePoint) :
    Reads E t [(interest, timeslot)] (t.called E interest data timeslot).1
      (t.called E interest data timeslot).2 := by
  have hasked : Reads E t [(interest, timeslot)] (t.asked interest data timeslot) [] :=
    ⟨rfl, List.map_append, fun i x h => absurd h (by simp)⟩
  rw [called]
  cases (P.createContentKey t.producer timeslot true).2.2 with
  | none => exact hasked
  | some keys => exact hasked.trans (reads_onKeyEncrypted _ _ keys)

theorem reads_askForSample (t : Thermometer P) (interest : Interest) (data : Data)
    (timeslot : TimePoint) :
    Reads E t [(interest, timeslot)] (t.askForSample E interest data timeslot).1
      (t.askForSample E interest data timeslot).2 := by
  have hcalled := reads_called (E := E) t interest data timeslot
  rw [askForSample_eq]
  dsimp only
  rw [produceIfStored]
  split
  · exact hcalled.trans (reads_doProduce _ _)
  · exact hcalled.trans (.refl _)

theorem reads_onGetContentKey (t : Thermometer P) (args : Name) (data : Data) :
    Reads E t [] (t.onGetContentKey E args data).1 [] := by
  have hsame {t' : Thermometer P} (hreadings : t'.readings = t.readings)
      (hrequests : t'.requests = t.requests) : Reads E t [] t' [] :=
    ⟨hreadings, by rw [hrequests, List.append_nil], fun i x h => absurd h (by simp)⟩
  cases args with
  | nil => exact hsame rfl rfl
  | cons arg args =>
    rw [onGetContentKey]
    cases readTime E arg.toUri with
    | error e => exact hsame rfl rfl
    | ok timeslot =>
      dsimp only
      split
      · exact hsame rfl rfl
      · exact hsame rfl rfl

/-- **One event.** -/
theorem reads_react (t : Thermometer P) (event : ThermometerEvent) :
    Reads E t (asksOf E event) (react E t event).1 (react E t event).2 := by
  cases event with
  | temperature interest args now =>
    rw [react_temperature, asksOf]
    cases timeslotOf E args now with
    | error e => exact .refl t
    | ok timeslot => exact reads_askForSample t interest _ timeslot
  | contentKey interest args => exact reads_onGetContentKey t args _
  | keysEncrypted index keys => exact reads_onKeyEncrypted t index keys

/-! ## Runs -/

/-- The thermometer after a run of events. -/
def after (E : ThermometerEnv σ) (t : Thermometer P) (events : List ThermometerEvent) :
    Thermometer P :=
  exec (fun t event => (react E t event).1) t events

theorem reads_run (t : Thermometer P) (events : List ThermometerEvent) :
    Reads E t (events.flatMap (asksOf E)) (after E t events) (samples E t events) := by
  induction events generalizing t with
  | nil => exact .refl t
  | cons event events ih => exact (reads_react t event).trans (ih _)

/-- What is asked for is not in the future. -/
theorem timeslotOf_le {args : Name} {now timeslot : TimePoint}
    (h : timeslotOf E args now = .ok timeslot) : timeslot ≤ now := by
  cases args with
  | nil => exact (Except.ok.inj h).symm.le
  | cons arg args =>
    unfold timeslotOf parseTimeSlot at h
    dsimp only at h
    cases hread : readTime E arg.toUri with
    | error e =>
      rw [hread] at h
      exact absurd h (by intro h; cases h)
    | ok read =>
      rw [hread] at h
      rw [← Except.ok.inj h]
      exact min_le_right read now

/-- **The samples of a run** carry the readings of the sensor, one each and in order.  The sample
that carries a reading was asked for in the run, with a timeslot that was not in the future; the
producer made it for this timeslot, and it is put under the name of the interest that asked. -/
theorem samples_readings (E : ThermometerEnv σ) (st : P.State) (events : List ThermometerEvent) :
    (after E ({ producer := st } : Thermometer P) events).readings =
        (samples E ({ producer := st } : Thermometer P) events).length ∧
      ∀ (i : ℕ) x, (samples E ({ producer := st } : Thermometer P) events)[i]? = some x →
        ∃ interest args now timeslot, .temperature interest args now ∈ events ∧
          timeslotOf E args now = .ok timeslot ∧ timeslot ≤ now ∧
          (∃ st' d, x.produced =
            (P.produce st' d timeslot (bytes (toString (E.getTemp i)) ++ [0])).2) ∧
          x.data = x.produced.setName interest.name ∧ x.interest = interest := by
  have hreads := reads_run (E := E) ({ producer := st } : Thermometer P) events
  refine ⟨hreads.readings.trans (Nat.zero_add _), fun i x hx => ?_⟩
  obtain ⟨⟨interest, timeslot⟩, hask, hsample⟩ := hreads.samples i x hx
  rw [hreads.asks, show ({ producer := st } : Thermometer P).requests = [] from rfl] at hask
  obtain ⟨event, hevent, hask⟩ := List.mem_flatMap.mp hask
  cases event with
  | temperature interest' args now =>
    obtain ⟨timeslot', hts, heq⟩ := Option.map_eq_some_iff.mp (Option.mem_toList.mp hask)
    obtain ⟨rfl, rfl⟩ := Prod.mk.inj heq
    have hts' : timeslotOf E args now = .ok timeslot' := by
      cases hread : timeslotOf E args now with
      | error e =>
        rw [hread] at hts
        exact absurd hts (by simp [Except.toOption])
      | ok read =>
        rw [hread] at hts
        rw [Option.some.inj hts]
    have hproduced := hsample.produced
    rw [show ({ producer := st } : Thermometer P).readings + i = i from Nat.zero_add i] at hproduced
    exact ⟨interest', args, now, timeslot', hevent, hts', timeslotOf_le hts', hproduced,
      hsample.data, hsample.interest⟩
  | contentKey interest' args => exact absurd hask List.not_mem_nil
  | keysEncrypted index keys => exact absurd hask List.not_mem_nil

end Thermometer
end Nacapp
