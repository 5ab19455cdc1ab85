import Nacapp.Thermometer.Callbacks

/-!
# What the thermometer answers, and what it loses

A sample is put in the callback of `createContentKey`, and again when the key is found after
the call, whether or not the callback was made before.  And the callback that brings the key
is the one that was given when the key was created: `onGetContentKey` creates keys without a
callback, and a second request for an hour whose key is on its way has no callback of its own.

* `answered_once_iff`: no request is answered twice, exactly when no callback brings a key
  before `createContentKey` returns.
* `nothing_lost_iff`: when no callback is pending, every request has been answered and every
  content key is found, exactly when no key was there at the start, and no step of the run
  loses one (`Lossless`).

Both are read off the cache that the thermometer is (`simulates_callbackCache`).
-/

namespace Nacapp
namespace Thermometer

open Transitions

/-! ## Runs -/

section Runs

variable {P : ProducerLib} {σ : Type} (E : ThermometerEnv σ) (V : KeyView P)

/-- The thermometer after a run from its start, and the callbacks that are still owed. -/
def Watched.run (st : P.State) (events : List ThermometerEvent) : Watched P :=
  exec (Watched.step E V) (watch st) events

/-- The callbacks of a run are those that are owed. -/
def Delivered (st : P.State) (events : List ThermometerEvent) : Prop :=
  StepsMeet (Watched.step E V) (Watched.Delivers V) (watch st) events

/-- The positions of the requests answered in a run, once for each put. -/
def answered (st : P.State) (events : List ThermometerEvent) : List ℕ :=
  emitted (Watched.step E V) (fun w => answeredBy E w.thermometer) (watch st) events

variable {E V}

theorem cache_watch (st : P.State) :
    (watch st : Watched P).cache V = CallbackCache.start (V.made st) := by
  have hnone : ∀ n, ¬ (({ producer := st } : Thermometer P).searchCKey n).isSome := by
    intro n h
    obtain ⟨k, hk, -⟩ := (searchCKey_isSome_iff n).mp h
    exact Std.ExtTreeMap.not_mem_empty hk
  have hstored : ((watch st : Watched P).cache V).stored = ∅ :=
    Set.eq_empty_of_forall_notMem fun n hn => hnone n hn.2
  rw [CallbackCache.start]
  rw [← hstored]
  rfl

/-- Where the thermometer is as a cache, in which every request is sound. -/
theorem sound_watch (st : P.State) :
    ∃ answered, CallbackCache.Sound ((watch st : Watched P).cache V) answered := by
  rw [cache_watch]
  exact ⟨_, CallbackCache.sound_start _⟩

/-- **A run of the thermometer is a run of the cache.** -/
theorem run_cache (hV : V.CreatesOnce) {st : P.State} {events : List ThermometerEvent}
    (hdelivered : Delivered E V st events) :
    let es := translated (Watched.step E V) (cacheEvent V E) (watch st) events
    StepsMeet CallbackCache.step CallbackCache.Valid (CallbackCache.start (V.made st)) es ∧
      (Watched.run E V st events).cache V =
        exec CallbackCache.step (CallbackCache.start (V.made st)) es ∧
      answered E V st events =
        emitted CallbackCache.step CallbackCache.out (CallbackCache.start (V.made st)) es := by
  intro es
  have hsim := simulates_callbackCache (E := E) hV
  rw [← cache_watch]
  refine ⟨?_, hsim.run (sound_watch st) hdelivered⟩
  exact (hsim.stepsMeet_iff (sound_watch st) hdelivered _).mpr
    (hdelivered.mono fun _ _ h => valid_cacheEvent hV h)

/-- Conditions on the steps of the cache are conditions on those of the thermometer. -/
theorem stepsMeet_cache_iff (hV : V.CreatesOnce) {st : P.State}
    {events : List ThermometerEvent} (hdelivered : Delivered E V st events)
    (C : CallbackCache.State Name → CallbackCache.Event Name → Prop) :
    StepsMeet CallbackCache.step C (CallbackCache.start (V.made st))
        (translated (Watched.step E V) (cacheEvent V E) (watch st) events) ↔
      StepsMeet (Watched.step E V) (fun w event => C (w.cache V) (cacheEvent V E w event))
        (watch st) events := by
  rw [← cache_watch]
  exact (simulates_callbackCache hV).stepsMeet_iff (sound_watch st) hdelivered C

end Runs

/-! ## A producer of this kind -/

/-- The content key of an hour. -/
def hourKey (timeslot : TimePoint) : Name :=
  [Component.of "C-KEY", ⟨bytes (toString (timeslot / 3600))⟩]

/-- A producer that remembers the names of its content keys.  It encrypts a key for one
consumer, before `createContentKey` returns or later. -/
def hourlyProducer (early : Bool) : ProducerLib where
  State := List Name
  createContentKey st timeslot callback :=
    if hourKey timeslot ∈ st then (st, hourKey timeslot, none)
    else (hourKey timeslot :: st, hourKey timeslot,
      if early && callback then
        some [Data.empty.setName (hourKey timeslot ++ [Component.of "FOR"])] else none)
  produce st d _ content := (st, (KeyChain.mk (bytes "producer")).sign (d.setContent content))

def hourlyKeys (early : Bool) : KeyView (hourlyProducer early) where
  keyName := hourKey
  created (st : List Name) n := decide (n ∈ st)

theorem hourlyProducer_of_mem {early callback : Bool} {st : List Name} {timeslot : TimePoint}
    (h : hourKey timeslot ∈ st) :
    (hourlyProducer early).createContentKey st timeslot callback =
      (st, hourKey timeslot, none) := if_pos h

theorem hourlyProducer_of_not_mem {early callback : Bool} {st : List Name} {timeslot : TimePoint}
    (h : hourKey timeslot ∉ st) :
    (hourlyProducer early).createContentKey st timeslot callback =
      (hourKey timeslot :: st, hourKey timeslot,
        if early && callback then
          some [Data.empty.setName (hourKey timeslot ++ [Component.of "FOR"])] else none) :=
  if_neg h

/-- The one key of an hour that a callback brings. -/
theorem eq_of_mem_hourlyProducer {early callback : Bool} {st : List Name} {timeslot : TimePoint}
    {keys : List Data} (hkeys : ((hourlyProducer early).createContentKey st timeslot
      callback).2.2 = some keys) {d : Data} (hd : d ∈ keys) :
    d = Data.empty.setName (hourKey timeslot ++ [Component.of "FOR"]) := by
  by_cases h : hourKey timeslot ∈ st
  · rw [hourlyProducer_of_mem h] at hkeys
    exact absurd hkeys (by simp)
  · rw [hourlyProducer_of_not_mem h] at hkeys
    obtain ⟨-, heq⟩ := Option.ite_none_right_eq_some.mp hkeys
    rw [← Option.some.inj heq] at hd
    exact List.mem_singleton.mp hd

theorem hourlyKeys_createsOnce (early : Bool) : (hourlyKeys early).CreatesOnce where
  name := fun (st : List Name) timeslot callback => by
    by_cases h : hourKey timeslot ∈ st
    · rw [hourlyProducer_of_mem h]
      rfl
    · rw [hourlyProducer_of_not_mem h]
      rfl
  created := fun (st : List Name) timeslot callback n => by
    refine Iff.trans ?_ (or_congr_right decide_eq_true_iff.symm)
    by_cases h : hourKey timeslot ∈ st
    · rw [hourlyProducer_of_mem h]
      exact decide_eq_true_iff.trans (or_iff_right_of_imp fun heq => heq ▸ h).symm
    · rw [hourlyProducer_of_not_mem h]
      exact decide_eq_true_iff.trans List.mem_cons
  quiet := fun (st : List Name) timeslot callback h => by
    rw [hourlyProducer_of_mem (of_decide_eq_true h)]
  named := fun {st : List Name} {timeslot callback keys} hkeys d hd => by
    rw [eq_of_mem_hourlyProducer hkeys hd]
    exact List.prefix_append _ _
  produce st d timeslot content n _ := rfl
  prefixFree ts ts' h := h.eq_of_length rfl

section Runs

variable {P : ProducerLib} {σ : Type} {E : ThermometerEnv σ} {V : KeyView P}

/-! ## Answered once -/

/-- The callback brings no key before `createContentKey` returns. -/
def KeysComeLater (E : ThermometerEnv σ) (w : Watched P) : ThermometerEvent → Prop
  | .temperature _ args now => ∀ timeslot, timeslotOf E args now = .ok timeslot →
      ∀ keys ∈ (P.createContentKey w.thermometer.producer timeslot true).2.2, keys = []
  | _ => True

theorem notEarly_iff (w : Watched P) (event : ThermometerEvent) :
    CallbackCache.NotEarly (w.cache V) (cacheEvent V E w event) ↔ KeysComeLater E w event := by
  cases event with
  | temperature interest args now =>
    unfold cacheEvent KeysComeLater CallbackCache.NotEarly
    dsimp only
    cases timeslotOf E args now with
    | error e => simp
    | ok timeslot =>
      simp only [Except.ok.injEq, forall_eq']
      cases (P.createContentKey w.thermometer.producer timeslot true).2.2 with
      | none => simp
      | some keys => simp
  | contentKey interest args =>
    refine iff_of_true (fun k => ?_) trivial
    unfold cacheEvent
    dsimp only
    split
    · simp
    · split
      · simp
      · simp
  | keysEncrypted index keys =>
    refine iff_of_true (fun k => ?_) trivial
    rw [cacheEvent]
    simp

/-- **No request is answered twice** in a run, exactly when no callback of the run brings a key
before `createContentKey` returns. -/
theorem answered_once_iff (hV : V.CreatesOnce) (st : P.State) (events : List ThermometerEvent)
    (hdelivered : Delivered E V st events) :
    (answered E V st events).Nodup ↔
      StepsMeet (Watched.step E V) (KeysComeLater E) (watch st) events := by
  obtain ⟨hvalid, -, hanswered⟩ := run_cache hV hdelivered
  rw [hanswered, CallbackCache.nodup_emitted_iff _ hvalid, stepsMeet_cache_iff hV hdelivered]
  simp only [notEarly_iff]

/-! ## Nothing is lost -/

/-- The step loses nothing: a key that was created before is found when it is asked for again,
a C-KEY request creates no key, and every callback brings one. -/
def Lossless (E : ThermometerEnv σ) (V : KeyView P) (w : Watched P) : ThermometerEvent → Prop
  | .temperature _ args now => ∀ timeslot, timeslotOf E args now = .ok timeslot →
      (V.created w.thermometer.producer (V.keyName timeslot) = true →
        (w.thermometer.searchCKey (V.keyName timeslot)).isSome) ∧
      (P.createContentKey w.thermometer.producer timeslot true).2.2 ≠ some []
  | .contentKey _ args => ∀ arg ∈ args.head?, ∀ timeslot, readTime E arg.toUri = .ok timeslot →
      V.created w.thermometer.producer (V.keyName timeslot) = true
  | .keysEncrypted _ keys => keys ≠ []

theorem mem_made_cache {w : Watched P} (timeslot : TimePoint) :
    V.keyName timeslot ∈ (w.cache V).made ↔
      V.created w.thermometer.producer (V.keyName timeslot) = true := and_iff_right ⟨_, rfl⟩

theorem mem_stored_cache {w : Watched P} (timeslot : TimePoint) :
    V.keyName timeslot ∈ (w.cache V).stored ↔
      (w.thermometer.searchCKey (V.keyName timeslot)).isSome := and_iff_right ⟨_, rfl⟩

theorem lossless_iff (w : Watched P) (event : ThermometerEvent) :
    CallbackCache.Lossless (w.cache V) (cacheEvent V E w event) ↔ Lossless E V w event := by
  cases event with
  | temperature interest args now =>
    unfold cacheEvent Lossless
    dsimp only
    cases timeslotOf E args now with
    | error e => simp [CallbackCache.Lossless]
    | ok timeslot =>
      simp only [Except.ok.injEq, forall_eq']
      cases (P.createContentKey w.thermometer.producer timeslot true).2.2 with
      | none => simp [CallbackCache.Lossless, mem_made_cache, mem_stored_cache]
      | some keys => simp [CallbackCache.Lossless, mem_made_cache, mem_stored_cache]
  | contentKey interest args =>
    cases args with
    | nil => simp [cacheEvent, Lossless, CallbackCache.Lossless]
    | cons arg args =>
      unfold cacheEvent Lossless
      simp only [List.head?_cons, Option.mem_def, Option.some.injEq, forall_eq']
      cases readTime E arg.toUri with
      | error e => simp [CallbackCache.Lossless]
      | ok timeslot => simp [CallbackCache.Lossless, mem_made_cache]
  | keysEncrypted index keys => simp [cacheEvent, Lossless, CallbackCache.Lossless]

/-- Every request was answered, and every key that was created is found. -/
structure Complete (V : KeyView P) (t : Thermometer P) (answered : List ℕ) : Prop where
  requests : ∀ index, index < t.requests.length → index ∈ answered
  ckeys : ∀ timeslot, V.created t.producer (V.keyName timeslot) = true →
    (t.searchCKey (V.keyName timeslot)).isSome

theorem complete_cache_iff (w : Watched P) (answered : List ℕ) :
    CallbackCache.Complete (w.cache V) answered ↔ Complete V w.thermometer answered := by
  have hlength : (w.cache V).requests.length = w.thermometer.requests.length := length_cacheOf _ _
  constructor
  · intro h
    refine ⟨fun index hlt => h.requests index (hlength ▸ hlt), fun timeslot hcreated => ?_⟩
    exact (mem_stored_cache timeslot).mp (h.made ((mem_made_cache timeslot).mpr hcreated))
  · intro h
    refine ⟨fun index hlt => h.requests index (hlength ▸ hlt), ?_⟩
    rintro _ ⟨⟨timeslot, rfl⟩, hcreated⟩
    exact (mem_stored_cache timeslot).mpr (h.ckeys timeslot hcreated)

/-- **Nothing is lost**: when no callback is pending, every request has been answered and every
content key that was created is found, exactly when no key was there at the start and no step
of the run loses one. -/
theorem nothing_lost_iff (hV : V.CreatesOnce) (st : P.State) (events : List ThermometerEvent)
    (hdelivered : Delivered E V st events) (hquiet : (Watched.run E V st events).owed = []) :
    Complete V (Watched.run E V st events).thermometer (answered E V st events) ↔
      (∀ timeslot, V.created st (V.keyName timeslot) = false) ∧
        StepsMeet (Watched.step E V) (Lossless E V) (watch st) events := by
  obtain ⟨hvalid, hcache, hanswered⟩ := run_cache hV hdelivered
  have hmade : V.made st = ∅ ↔ ∀ timeslot, V.created st (V.keyName timeslot) = false := by
    rw [KeyView.made]
    rw [Set.eq_empty_iff_forall_notMem]
    constructor
    · intro h timeslot
      exact Bool.eq_false_iff.mpr fun hcreated => h _ ⟨⟨timeslot, rfl⟩, hcreated⟩
    · rintro h _ ⟨⟨timeslot, rfl⟩, hcreated⟩
      exact Bool.false_ne_true ((h timeslot).symm.trans hcreated)
  rw [← complete_cache_iff, hcache, hanswered,
    CallbackCache.complete_iff _ hvalid (by rw [← hcache]; exact hquiet), hmade,
    stepsMeet_cache_iff hV hdelivered]
  simp only [lossless_iff]

end Runs

/-! ## On an hour that is asked for twice -/

/-- A thermometer at a constant temperature, that reads one time. -/
def steadyEnv : ThermometerEnv Unit where
  fromIsoString s := if s = bytes "19700101T000000" then .ok 0 else .error .other
  getTemp _ := 21
  node := NodeImpl.ofPrefix [Component.of "T"] ⟨bytes "thermometer"⟩

/-- The start, when there are no keys. -/
def noKeys (early : Bool) : (hourlyProducer early).State := ([] : List Name)

/-- The encrypted key of the first hour. -/
def firstHourKey : Data := Data.empty.setName (hourKey 0 ++ [Component.of "FOR"])

theorem hourlyProducer_late : ∀ (st : (hourlyProducer false).State) (timeslot : TimePoint)
    (callback : Bool),
    ((hourlyProducer false).createContentKey st timeslot callback).2.2 = none := by
  intro (st : List Name) timeslot callback
  by_cases h : hourKey timeslot ∈ st
  · rw [hourlyProducer_of_mem h]
  · rw [hourlyProducer_of_not_mem h]
    rfl

/-- A request that is answered when its keys come is answered once. -/
theorem answered_once_when_keys_come_later :
    (answered steadyEnv (hourlyKeys false) (noKeys false)
      [.temperature ⟨[Component.of "T"], []⟩ [] 0, .keysEncrypted 0 [firstHourKey],
        .temperature ⟨[Component.of "T"], []⟩ [] 60]).Nodup := by
  refine (answered_once_iff (hourlyKeys_createsOnce false) (noKeys false) _ ?_).mpr ?_
  · refine ⟨trivial, ⟨by decide +kernel, fun r hr d hd => ?_⟩, trivial, trivial⟩
    have htimeslot : ((((watch (noKeys false)).step steadyEnv (hourlyKeys false)
        (.temperature ⟨[Component.of "T"], []⟩ [] 0)).thermometer.requests)[0]?.map
          SampleRequest.timeslot) = some 0 := by
      decide +kernel
    rw [hr] at htimeslot
    rw [List.mem_singleton.mp hd, Option.some.inj htimeslot]
    exact List.prefix_append _ _
  · refine stepsMeet_iff.mpr fun pre event post _ => ?_
    cases event with
    | temperature interest args now =>
      intro timeslot _ keys hkeys
      rw [hourlyProducer_late] at hkeys
      exact absurd hkeys (by simp)
    | contentKey interest args => trivial
    | keysEncrypted index keys => trivial

/-- The first request of an hour is answered twice when its keys come at once. -/
theorem answered_twice_when_keys_come_early :
    ¬ ∀ (P : ProducerLib) (V : KeyView P), V.CreatesOnce → ∀ (E : ThermometerEnv Unit)
      (st : P.State) (events : List ThermometerEvent), Delivered E V st events →
        (answered E V st events).Nodup := by
  intro h
  have hnodup := h (hourlyProducer true) (hourlyKeys true) (hourlyKeys_createsOnce true) steadyEnv
    (noKeys true) [.temperature ⟨[Component.of "T"], []⟩ [] 0] ⟨trivial, trivial⟩
  have htwice : answered steadyEnv (hourlyKeys true) (noKeys true)
      [.temperature ⟨[Component.of "T"], []⟩ [] 0] = [0, 0] := by
    decide +kernel
  rw [htwice] at hnodup
  exact List.not_nodup_pair 0 hnodup

/-- A sample that is asked for again, of a key that came at once, is not lost. -/
theorem nothing_lost_when_keys_come_early :
    let events : List ThermometerEvent := [.temperature ⟨[Component.of "T"], []⟩ [] 0,
      .contentKey ⟨[Component.of "T"], []⟩ [Component.of "19700101T000000"],
      .temperature ⟨[Component.of "T"], []⟩ [] 60]
    Complete (hourlyKeys true)
      (Watched.run steadyEnv (hourlyKeys true) (noKeys true) events).thermometer
      (answered steadyEnv (hourlyKeys true) (noKeys true) events) := by
  intro events
  refine (nothing_lost_iff (hourlyKeys_createsOnce true) (noKeys true) events ?_
    (by decide +kernel)).mpr ⟨fun _ => rfl, fun timeslot hts => ?_, fun arg harg timeslot hts => ?_,
      fun timeslot hts => ?_, trivial⟩
  · exact ⟨trivial, trivial, trivial, trivial⟩
  · obtain rfl : 0 = timeslot := Except.ok.inj hts
    exact ⟨fun h => Bool.noConfusion h, by decide +kernel⟩
  · obtain rfl : Component.of "19700101T000000" = arg := Option.some.inj harg
    have hread : readTime steadyEnv (Component.of "19700101T000000").toUri = .ok 0 := by
      decide +kernel
    obtain rfl : 0 = timeslot := Except.ok.inj (hread.symm.trans hts)
    decide +kernel
  · obtain rfl : 60 = timeslot := Except.ok.inj hts
    exact ⟨fun _ => by decide +kernel, by decide +kernel⟩

/-- A request for the content key of an hour loses the key, and the sample that is asked for
afterwards. -/
theorem lost_after_key_request :
    ¬ ∀ (P : ProducerLib) (V : KeyView P), V.CreatesOnce → ∀ (E : ThermometerEnv Unit)
      (st : P.State) (events : List ThermometerEvent),
        (∀ timeslot, V.created st (V.keyName timeslot) = false) → Delivered E V st events →
        (Watched.run E V st events).owed = [] →
          Complete V (Watched.run E V st events).thermometer (answered E V st events) := by
  intro h
  have hcomplete := h (hourlyProducer true) (hourlyKeys true) (hourlyKeys_createsOnce true)
    steadyEnv (noKeys true)
    [.contentKey ⟨[Component.of "T"], []⟩ [Component.of "19700101T000000"],
      .temperature ⟨[Component.of "T"], []⟩ [] 0]
    (fun _ => rfl) ⟨trivial, trivial, trivial⟩ (by decide +kernel)
  have hanswered : answered steadyEnv (hourlyKeys true) (noKeys true)
      [.contentKey ⟨[Component.of "T"], []⟩ [Component.of "19700101T000000"],
        .temperature ⟨[Component.of "T"], []⟩ [] 0] = [] := by
    decide +kernel
  have hmem := hcomplete.requests 0 (by decide +kernel)
  rw [hanswered] at hmem
  exact List.not_mem_nil hmem

end Thermometer
end Nacapp
