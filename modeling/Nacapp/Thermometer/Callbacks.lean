import Nacapp.Lib.CallbackCache
import Nacapp.Thermometer.Thermometer

/-!
# The callbacks of the producer

`createContentKey` returns the name of the content key of the hour.  If the producer has no
such key yet, it creates one and owes the callback it was given the encrypted keys, before it
returns or later; if it has one, nothing more happens.  This is documented behaviour of a
library, so it is stated apart, as `V.CreatesOnce` for a view `V` of the producer's keys.

A run is watched together with the callbacks that are owed (`Watched`); a run is one of the
thermometer when its callbacks are those that are owed (`Delivers`).  The thermometer is then
a cache that is filled by callbacks (`simulates_callbackCache`): the items are the content keys
of the hours, and a stored item is one that `searchCKey` finds.
-/

namespace Nacapp

open Transitions

/-! ## What the producer promises -/

/-- What is read off a producer: the name of the content key of an hour, and whether there is
a content key of a name. -/
structure KeyView (P : ProducerLib) where
  keyName : TimePoint → Name
  created : P.State → Name → Bool

namespace KeyView

variable {P : ProducerLib} (V : KeyView P)

/-- Content keys are created once, under names none of which is a prefix of another, and the
keys that are delivered are named under the content key.  A callback is made for a key that is
created by the call.  Producing a sample under a key that is there creates no other. -/
structure CreatesOnce : Prop where
  name : ∀ st ts callback, (P.createContentKey st ts callback).2.1 = V.keyName ts
  created : ∀ st ts callback n, V.created (P.createContentKey st ts callback).1 n = true ↔
    n = V.keyName ts ∨ V.created st n = true
  quiet : ∀ st ts callback, V.created st (V.keyName ts) = true →
    (P.createContentKey st ts callback).2.2 = none
  named : ∀ {st ts callback keys}, (P.createContentKey st ts callback).2.2 = some keys →
    ∀ d ∈ keys, V.keyName ts <+: d.name
  produce : ∀ st d ts content n, V.created st (V.keyName ts) = true →
    V.created (P.produce st d ts content).1 n = V.created st n
  prefixFree : ∀ ts ts', V.keyName ts <+: V.keyName ts' → V.keyName ts = V.keyName ts'

/-- The names of the content keys of hours that there are. -/
def made (st : P.State) : Set Name :=
  {n | (∃ timeslot, V.keyName timeslot = n) ∧ V.created st n = true}

variable {V}

theorem CreatesOnce.made_createContentKey (hV : V.CreatesOnce) (st : P.State)
    (timeslot : TimePoint) (callback : Bool) :
    V.made (P.createContentKey st timeslot callback).1 =
      insert (V.keyName timeslot) (V.made st) := by
  ext n
  unfold made
  rw [Set.mem_ofPred_eq, hV.created, Set.mem_insert_iff, Set.mem_ofPred_eq]
  constructor
  · rintro ⟨hname, rfl | hn⟩
    · exact Or.inl rfl
    · exact Or.inr ⟨hname, hn⟩
  · rintro (rfl | ⟨hname, hn⟩)
    · exact ⟨⟨_, rfl⟩, Or.inl rfl⟩
    · exact ⟨hname, Or.inr hn⟩

end KeyView

namespace Thermometer

variable {P : ProducerLib} {σ : Type} (E : ThermometerEnv σ) (t : Thermometer P)

/-! ## Which request is answered -/

/-- The timeslot of a request for the temperature. -/
def timeslotOf (args : Name) (now : TimePoint) : Except Exn TimePoint :=
  match args with
  | [] => .ok now
  | arg :: _ => parseTimeSlot E arg.toUri now

/-- The thermometer after `createContentKey` in `askForSample`. -/
def asked (interest : Interest) (data : Data) (timeslot : TimePoint) : Thermometer P :=
  { t with
    producer := (P.createContentKey t.producer timeslot true).1
    requests := t.requests ++ [⟨interest, timeslot, data⟩] }

/-- The thermometer after the callback that is made before `createContentKey` returns, if one
is, with the sample it puts. -/
def called (interest : Interest) (data : Data) (timeslot : TimePoint) :
    Thermometer P × List Sample :=
  (t.asked interest data timeslot).callBack E t.requests.length
    (P.createContentKey t.producer timeslot true).2.2

/-- The positions of the requests whose samples an event puts, in the order of the puts. -/
def answeredBy : ThermometerEvent → List ℕ
  | .temperature interest args now =>
    match timeslotOf E args now with
    | .error _ => []
    | .ok timeslot =>
      let created := P.createContentKey t.producer timeslot true
      let called := (t.called E interest (Data.empty.setName interest.name) timeslot).1
      (if created.2.2.isSome then [t.requests.length] else []) ++
        if (called.searchCKey created.2.1).isSome then [t.requests.length] else []
  | .contentKey _ _ => []
  | .keysEncrypted index _ => if index < t.requests.length then [index] else []

variable {E} {t}

/-! ## The parts of an event -/

theorem searchCKey_isSome_iff (n : Name) :
    (t.searchCKey n).isSome ↔ ∃ k, k ∈ t.ckeys ∧ n <+: k := by
  rw [searchCKey]
  cases hn : t.ckeys[n]? with
  | some d =>
    refine iff_of_true rfl ⟨n, ?_, List.prefix_rfl⟩
    exact Std.ExtTreeMap.mem_iff_isSome_getElem?.mpr (hn ▸ rfl)
  | none =>
    rw [List.find?_isSome]
    constructor
    · rintro ⟨⟨k, d⟩, hmem, hprefix⟩
      refine ⟨k, ?_, List.isPrefixOf_iff_prefix.mp hprefix⟩
      rw [Std.ExtTreeMap.mem_toList_iff_getElem?_eq_some] at hmem
      exact Std.ExtTreeMap.mem_iff_isSome_getElem?.mpr (hmem ▸ rfl)
    · rintro ⟨k, hk, hprefix⟩
      obtain ⟨d, hd⟩ := Option.isSome_iff_exists.mp (Std.ExtTreeMap.mem_iff_isSome_getElem?.mp hk)
      exact ⟨(k, d), Std.ExtTreeMap.mem_toList_iff_getElem?_eq_some.mpr hd,
        List.isPrefixOf_iff_prefix.mpr hprefix⟩

/-- The key that is found is stored, and its name extends the one that is searched for. -/
theorem of_searchCKey {n stored : Name} {key : Data}
    (h : t.searchCKey n = some (stored, key)) : t.ckeys[stored]? = some key ∧ n <+: stored := by
  rw [searchCKey] at h
  split at h
  · rename_i d hd
    obtain ⟨rfl, rfl⟩ := Prod.mk.inj (Option.some.inj h)
    exact ⟨hd, List.prefix_rfl⟩
  · have hmem := List.mem_of_find?_eq_some h
    have hprefix := List.find?_some h
    exact ⟨Std.ExtTreeMap.mem_toList_iff_getElem?_eq_some.mp hmem,
      List.isPrefixOf_iff_prefix.mp hprefix⟩

theorem mem_insertCKeys {ckeys : NameMap Data} {keys : List Data} {k : Name} :
    k ∈ insertCKeys ckeys keys ↔ k ∈ ckeys ∨ ∃ d ∈ keys, d.name = k := by
  rw [insertCKeys]
  induction keys generalizing ckeys with
  | nil => simp
  | cons key keys ih =>
    rw [List.foldl_cons, ih, Std.ExtTreeMap.mem_insertIfNew, Std.LawfulEqCmp.compare_eq_iff_eq]
    simp only [List.mem_cons, exists_eq_or_imp]
    rw [or_comm (a := key.name = k), or_assoc]

theorem doProduce_ckeys (index : ℕ) : (t.doProduce E index).1.ckeys = t.ckeys := by
  rw [doProduce]
  split
  · rfl
  · rfl

/-- Producing a sample changes the Data of its request, and nothing else of the requests. -/
theorem map_requests_doProduce {α : Type} {f : SampleRequest → α}
    (hf : ∀ r data, f { r with data := data } = f r) (index : ℕ) :
    (t.doProduce E index).1.requests.map f = t.requests.map f := by
  rw [doProduce]
  split
  · rfl
  · rename_i r hr
    refine List.ext_getElem? fun i => ?_
    by_cases hi : index = i
    · subst hi
      have hlt := (List.getElem?_eq_some_iff.mp hr).1
      rw [List.map_set, List.getElem?_set_self (by rwa [List.length_map]), List.getElem?_map, hr,
        hf]
      rfl
    · simp [List.getElem?_set_ne hi]

theorem length_requests_doProduce (index : ℕ) :
    (t.doProduce E index).1.requests.length = t.requests.length := by
  have h := congrArg List.length (map_requests_doProduce (E := E) (t := t) (f := fun _ => ())
    (fun _ _ => rfl) index)
  rwa [List.length_map, List.length_map] at h

/-- Producing a sample creates no key, and no key goes. -/
theorem doProduce_created {V : KeyView P} (hV : V.CreatesOnce) {index : ℕ}
    (hcreated : ∀ r, t.requests[index]? = some r →
      V.created t.producer (V.keyName r.timeslot) = true) (n : Name) :
    V.created (t.doProduce E index).1.producer n = V.created t.producer n := by
  rw [doProduce]
  split
  · rfl
  · rename_i r hr
    exact hV.produce _ _ _ _ n (hcreated r hr)

theorem react_temperature (interest : Interest) (args : Name) (now : TimePoint) :
    react E t (.temperature interest args now) =
      match timeslotOf E args now with
      | .error _ => (t, [])
      | .ok timeslot =>
        t.askForSample E interest (Data.empty.setName interest.name) timeslot := by
  cases args with
  | nil => rfl
  | cons arg args =>
    unfold react onGetTemperature timeslotOf
    dsimp only
    cases parseTimeSlot E arg.toUri now with
    | error e => rfl
    | ok timeslot => rfl

/-- A request for the temperature, after its timeslot is known. -/
theorem askForSample_eq (interest : Interest) (data : Data) (timeslot : TimePoint) :
    t.askForSample E interest data timeslot =
      let called := t.called E interest data timeslot
      let last := called.1.produceIfStored E t.requests.length
        (P.createContentKey t.producer timeslot true).2.1
      (last.1, called.2 ++ last.2) := rfl

/-! ## The samples and the requests they answer -/

/-- The interest of the request at an index. -/
def interestAt (t : Thermometer P) (index : ℕ) : Option Interest :=
  t.requests[index]?.map SampleRequest.interest

theorem interestAt_doProduce (index i : ℕ) :
    (t.doProduce E index).1.interestAt i = t.interestAt i := by
  have h := congrArg (·[i]?) (map_requests_doProduce (E := E) (t := t)
    (f := SampleRequest.interest) (fun _ _ => rfl) index)
  rwa [List.getElem?_map, List.getElem?_map] at h

theorem samples_doProduce (index : ℕ) :
    (t.doProduce E index).2.map (fun x => some x.interest) =
      (if index < t.requests.length then [index] else []).map t.interestAt := by
  rw [doProduce]
  split
  · rename_i hr
    rw [if_neg (not_lt.mpr (List.getElem?_eq_none_iff.mp hr))]
    rfl
  · rename_i r hr
    rw [if_pos (List.getElem?_eq_some_iff.mp hr).1]
    unfold interestAt
    rw [List.map_singleton, List.map_singleton, hr]
    rfl

theorem samples_onKeyEncrypted (index : ℕ) (keys : List Data) :
    (t.onKeyEncrypted E index keys).2.map (fun x => some x.interest) =
      (if index < t.requests.length then [index] else []).map
        (t.onKeyEncrypted E index keys).1.interestAt := by
  refine (samples_doProduce index).trans ?_
  exact List.map_congr_left fun i _ => (interestAt_doProduce index i).symm

theorem samples_called (interest : Interest) (data : Data) (timeslot : TimePoint) :
    (t.called E interest data timeslot).2.map (fun x => some x.interest) =
      (if (P.createContentKey t.producer timeslot true).2.2.isSome then [t.requests.length]
        else []).map (t.called E interest data timeslot).1.interestAt := by
  rw [called]
  cases (P.createContentKey t.producer timeslot true).2.2 with
  | none => rfl
  | some keys =>
    have hlt : t.requests.length < (t.asked interest data timeslot).requests.length := by
      rw [asked]
      simp
    refine (samples_onKeyEncrypted t.requests.length keys).trans ?_
    rw [if_pos hlt]
    rfl

theorem lt_length_called (interest : Interest) (data : Data) (timeslot : TimePoint) :
    t.requests.length < (t.called E interest data timeslot).1.requests.length := by
  have hasked : (t.called E interest data timeslot).1.requests.length =
      (t.asked interest data timeslot).requests.length := by
    rw [called]
    cases (P.createContentKey t.producer timeslot true).2.2 with
    | none => rfl
    | some keys => exact length_requests_doProduce _
  rw [hasked]
  rw [asked]
  simp

/-- **The samples an event puts** are those of the requests it answers, in this order. -/
theorem samples_react (event : ThermometerEvent) :
    (react E t event).2.map (fun x => some x.interest) =
      (answeredBy E t event).map (react E t event).1.interestAt := by
  cases event with
  | temperature interest args now =>
    rw [react_temperature]
    rw [answeredBy]
    dsimp only
    cases timeslotOf E args now with
    | error e => rfl
    | ok timeslot =>
      dsimp only
      rw [askForSample_eq]
      unfold produceIfStored
      dsimp only
      split
      · rw [List.map_append, List.map_append, samples_called, samples_doProduce,
          if_pos (lt_length_called interest _ timeslot)]
        refine congrArg₂ (· ++ ·) ?_ ?_
        · exact List.map_congr_left fun i _ => (interestAt_doProduce _ i).symm
        · exact List.map_congr_left fun i _ => (interestAt_doProduce _ i).symm
      · rw [List.append_nil, List.append_nil, samples_called]
  | contentKey interest args => rfl
  | keysEncrypted index keys => exact samples_onKeyEncrypted index keys

/-! ## The callbacks that are owed -/

/-- A thermometer, and the requests whose callbacks the producer still owes. -/
structure Watched (P : ProducerLib) where
  thermometer : Thermometer P
  owed : List ℕ

/-- A thermometer that was just started, with a producer that may have run before. -/
def watch (st : P.State) : Watched P := ⟨{ producer := st }, []⟩

namespace Watched

variable (V : KeyView P) (E) (w : Watched P)

/-- The requests that are owed a callback after an event: a new one, when the key is created
by it and the callback was not made yet; and no longer the one whose callback is made. -/
def owedAfter : ThermometerEvent → List ℕ
  | .temperature _ args now =>
    match timeslotOf E args now with
    | .error _ => w.owed
    | .ok timeslot =>
      let encrypted := (P.createContentKey w.thermometer.producer timeslot true).2.2
      if V.created w.thermometer.producer (V.keyName timeslot) ∨ encrypted.isSome then w.owed
      else w.owed ++ [w.thermometer.requests.length]
  | .contentKey _ _ => w.owed
  | .keysEncrypted index _ => w.owed.erase index

def step (event : ThermometerEvent) : Watched P :=
  ⟨(react E w.thermometer event).1, owedAfter E V w event⟩

/-- A callback is one that is owed, and brings keys under the name of the content key. -/
def Delivers : ThermometerEvent → Prop
  | .keysEncrypted index keys => index ∈ w.owed ∧
      ∀ r, w.thermometer.requests[index]? = some r → ∀ d ∈ keys, V.keyName r.timeslot <+: d.name
  | _ => True

end Watched

/-! ## The thermometer as a cache -/

section Cache

variable (V : KeyView P)

/-- The cache that a thermometer is: its items are the content keys of the hours. -/
def cacheOf (t : Thermometer P) (owed : List ℕ) : CallbackCache.State Name where
  requests := t.requests.map fun r => V.keyName r.timeslot
  made := V.made t.producer
  stored := {n | (∃ timeslot, V.keyName timeslot = n) ∧ (t.searchCKey n).isSome}
  owed := owed

variable {V}

/-- The content keys of all requests were created. -/
def Created (V : KeyView P) (t : Thermometer P) : Prop :=
  ∀ (index : ℕ) r, t.requests[index]? = some r →
    V.created t.producer (V.keyName r.timeslot) = true

theorem created_iff_cacheOf (owed : List ℕ) :
    Created V t ↔ ∀ (index : ℕ) n, (cacheOf V t owed).requests[index]? = some n →
      n ∈ (cacheOf V t owed).made := by
  rw [cacheOf]
  simp only [List.getElem?_map, Option.map_eq_some_iff]
  constructor
  · rintro h index _ ⟨r, hr, rfl⟩
    exact ⟨⟨_, rfl⟩, h index r hr⟩
  · intro h index r hr
    exact (h index _ ⟨r, hr, rfl⟩).2

theorem cacheOf_doProduce (hV : V.CreatesOnce) (h : Created V t) (owed : List ℕ) (index : ℕ) :
    cacheOf V (t.doProduce E index).1 owed = cacheOf V t owed := by
  have hrequests := map_requests_doProduce (E := E) (t := t)
    (f := fun r => V.keyName r.timeslot) (fun _ _ => rfl) index
  have hsearch : ∀ n, ((t.doProduce E index).1.searchCKey n).isSome ↔ (t.searchCKey n).isSome := by
    intro n
    rw [searchCKey_isSome_iff, searchCKey_isSome_iff, doProduce_ckeys]
  rw [cacheOf]
  simp only [KeyView.made, doProduce_created hV (h index), hsearch]
  exact congrArg (CallbackCache.State.mk · _ _ _) hrequests

theorem Created.asked (hV : V.CreatesOnce) (h : Created V t) (interest : Interest) (data : Data)
    (timeslot : TimePoint) : Created V (t.asked interest data timeslot) := by
  intro index r hr
  refine (hV.created _ _ _ _).mpr ?_
  have hr : (t.requests ++ [⟨interest, timeslot, data⟩])[index]? = some r := hr
  rw [List.getElem?_append] at hr
  split at hr
  · exact Or.inr (h index r hr)
  · rw [List.mem_singleton.mp (List.mem_of_getElem? hr)]
    exact Or.inl rfl

theorem cacheOf_asked (hV : V.CreatesOnce) (interest : Interest) (data : Data)
    (timeslot : TimePoint) (owed : List ℕ) :
    cacheOf V (t.asked interest data timeslot) owed =
      { cacheOf V t owed with
        requests := (cacheOf V t owed).requests ++ [V.keyName timeslot]
        made := insert (V.keyName timeslot) (cacheOf V t owed).made } := by
  unfold cacheOf asked
  rw [hV.made_createContentKey, List.map_append]
  rfl

/-- The keys of an hour make the content key of that hour one that is found, and no other. -/
theorem cacheOf_insertCKeys (hV : V.CreatesOnce) {timeslot : TimePoint} {keys : List Data}
    (hnamed : ∀ d ∈ keys, V.keyName timeslot <+: d.name) (owed : List ℕ) :
    cacheOf V { t with ckeys := insertCKeys t.ckeys keys } owed =
      { cacheOf V t owed with
        stored := {n | n ∈ (cacheOf V t owed).stored ∨
          (!keys.isEmpty) = true ∧ n = V.keyName timeslot} } := by
  unfold cacheOf
  congr 1
  ext n
  simp only [Set.mem_ofPred_eq, searchCKey_isSome_iff, mem_insertCKeys]
  constructor
  · rintro ⟨⟨timeslot', rfl⟩, k, hk | ⟨d, hd, rfl⟩, hfound⟩
    · exact Or.inl ⟨⟨_, rfl⟩, k, hk, hfound⟩
    · -- the names of two hours that are prefixes of one name are the same
      have hsame : V.keyName timeslot' = V.keyName timeslot := by
        rcases List.prefix_or_prefix_of_prefix hfound (hnamed d hd) with h | h
        · exact hV.prefixFree _ _ h
        · exact (hV.prefixFree _ _ h).symm
      refine Or.inr ⟨?_, hsame⟩
      cases keys with
      | nil => exact absurd hd List.not_mem_nil
      | cons d keys => rfl
  · rintro (⟨hname, k, hk, hfound⟩ | ⟨hfull, rfl⟩)
    · exact ⟨hname, k, Or.inl hk, hfound⟩
    · cases keys with
      | nil => exact absurd hfull Bool.false_ne_true
      | cons d keys =>
        exact ⟨⟨_, rfl⟩, d.name, Or.inr ⟨d, List.mem_cons_self, rfl⟩,
          hnamed d List.mem_cons_self⟩

/-- What a put does to a stored key changes nothing that is searched for. -/
theorem searchCKey_isSome_insert {stored : Name} {key key' : Data} {n : Name}
    (hsearch : t.searchCKey n = some (stored, key)) (n' : Name) :
    (({ t with ckeys := t.ckeys.insert stored key' } : Thermometer P).searchCKey n').isSome ↔
      (t.searchCKey n').isSome := by
  have hmem : stored ∈ t.ckeys :=
    Std.ExtTreeMap.mem_iff_isSome_getElem?.mpr (Option.isSome_of_eq_some (of_searchCKey hsearch).1)
  rw [searchCKey_isSome_iff, searchCKey_isSome_iff]
  refine exists_congr fun k => and_congr_left fun _ => ?_
  rw [Std.ExtTreeMap.mem_insert, Std.LawfulEqCmp.compare_eq_iff_eq]
  constructor
  · rintro (rfl | hk)
    · exact hmem
    · exact hk
  · exact Or.inr

theorem cacheOf_onGetContentKey (hV : V.CreatesOnce) (args : Name) (data : Data)
    (owed : List ℕ) :
    cacheOf V (t.onGetContentKey E args data).1 owed =
      match args with
      | [] => cacheOf V t owed
      | arg :: _ =>
        match readTime E arg.toUri with
        | .error _ => cacheOf V t owed
        | .ok timeslot =>
          { cacheOf V t owed with
            made := insert (V.keyName timeslot) (cacheOf V t owed).made } := by
  unfold onGetContentKey
  cases args with
  | nil => rfl
  | cons arg args =>
    dsimp only
    cases readTime E arg.toUri with
    | error e => rfl
    | ok timeslot =>
      dsimp only
      have hcreate : cacheOf V { t with producer := (P.createContentKey t.producer timeslot
          false).1 } owed = { cacheOf V t owed with
            made := insert (V.keyName timeslot) (cacheOf V t owed).made } := by
        rw [cacheOf]
        rw [hV.made_createContentKey]
        rfl
      split
      · exact hcreate
      · rename_i stored key hsearch
        rw [← hcreate]
        unfold cacheOf
        simp only [searchCKey_isSome_insert hsearch]

/-- **A callback** brings the content key of the hour of its request, if it brings any key. -/
theorem cacheOf_onKeyEncrypted (hV : V.CreatesOnce) (h : Created V t) {timeslot : TimePoint}
    {keys : List Data} (hnamed : ∀ d ∈ keys, V.keyName timeslot <+: d.name) (owed : List ℕ)
    (index : ℕ) :
    cacheOf V (t.onKeyEncrypted E index keys).1 owed =
      { cacheOf V t owed with
        stored := {n | n ∈ (cacheOf V t owed).stored ∨
          (!keys.isEmpty) = true ∧ n = V.keyName timeslot} } := by
  have hinsert : Created V { t with ckeys := insertCKeys t.ckeys keys } := h
  rw [← cacheOf_insertCKeys hV hnamed]
  exact cacheOf_doProduce hV hinsert owed index

/-- **A request for the temperature** is a request for the content key of its hour. -/
theorem cacheOf_called (hV : V.CreatesOnce) (h : Created V t) (interest : Interest) (data : Data)
    (timeslot : TimePoint) (owed : List ℕ) :
    cacheOf V (t.called E interest data timeslot).1 owed =
      { requests := (cacheOf V t owed).requests ++ [V.keyName timeslot]
        made := insert (V.keyName timeslot) (cacheOf V t owed).made
        stored := {n | n ∈ (cacheOf V t owed).stored ∨
          ((P.createContentKey t.producer timeslot true).2.2.map fun keys => !keys.isEmpty) =
            some true ∧ n = V.keyName timeslot}
        owed := owed } := by
  rw [called]
  cases hkeys : (P.createContentKey t.producer timeslot true).2.2 with
  | none =>
    rw [show (t.asked interest data timeslot).callBack E t.requests.length none =
      (t.asked interest data timeslot, []) from rfl, cacheOf_asked hV]
    simp only [Option.map_none, reduceCtorEq, false_and, or_false]
    rfl
  | some keys =>
    rw [show (t.asked interest data timeslot).callBack E t.requests.length (some keys) =
      (t.asked interest data timeslot).onKeyEncrypted E t.requests.length keys from rfl,
      cacheOf_onKeyEncrypted hV (h.asked hV interest data timeslot) (hV.named hkeys),
      cacheOf_asked hV]
    simp only [Option.map_some, Option.some.injEq]
    rfl

theorem Created.called (hV : V.CreatesOnce) (h : Created V t) (interest : Interest) (data : Data)
    (timeslot : TimePoint) : Created V (t.called E interest data timeslot).1 := by
  rw [created_iff_cacheOf []]
  have hasked := (created_iff_cacheOf []).mp (h.asked hV interest data timeslot)
  rw [cacheOf_asked hV] at hasked
  rw [cacheOf_called hV h]
  exact hasked

theorem cacheOf_askForSample (hV : V.CreatesOnce) (h : Created V t) (interest : Interest)
    (data : Data) (timeslot : TimePoint) (owed : List ℕ) :
    cacheOf V (t.askForSample E interest data timeslot).1 owed =
      cacheOf V (t.called E interest data timeslot).1 owed := by
  rw [askForSample_eq]
  unfold produceIfStored
  dsimp only
  split
  · exact cacheOf_doProduce hV (h.called hV interest data timeslot) owed _
  · rfl

/-- What an event is to the cache. -/
def cacheEvent (V : KeyView P) (E : ThermometerEnv σ) (w : Watched P) :
    ThermometerEvent → CallbackCache.Event Name
  | .temperature _ args now =>
    match timeslotOf E args now with
    | .error _ => .idle
    | .ok timeslot =>
      .request (V.keyName timeslot)
        ((P.createContentKey w.thermometer.producer timeslot true).2.2.map fun keys =>
          !keys.isEmpty)
  | .contentKey _ args =>
    match args with
    | [] => .idle
    | arg :: _ =>
      match readTime E arg.toUri with
      | .error _ => .idle
      | .ok timeslot => .touch (V.keyName timeslot)
  | .keysEncrypted index keys => .deliver index (!keys.isEmpty)

/-- The cache of a watched thermometer. -/
def Watched.cache (V : KeyView P) (w : Watched P) : CallbackCache.State Name :=
  cacheOf V w.thermometer w.owed

theorem valid_cacheEvent (hV : V.CreatesOnce) {w : Watched P} {event : ThermometerEvent}
    (hdelivers : w.Delivers V event) :
    CallbackCache.Valid (w.cache V) (cacheEvent V E w event) := by
  cases event with
  | temperature interest args now =>
    unfold cacheEvent
    dsimp only
    split
    · trivial
    · rintro ⟨-, hcreated⟩
      rw [hV.quiet _ _ _ hcreated]
      rfl
  | contentKey interest args =>
    unfold cacheEvent
    dsimp only
    split
    · trivial
    · split
      · trivial
      · trivial
  | keysEncrypted index keys => exact hdelivers.1

theorem length_cacheOf (t : Thermometer P) (owed : List ℕ) :
    (cacheOf V t owed).requests.length = t.requests.length := List.length_map _

/-- The callback was made before the call returned. -/
theorem map_ne_none_iff {encrypted : Option (List Data)} :
    (encrypted.map fun keys => !keys.isEmpty) ≠ none ↔ encrypted.isSome := by
  rw [← Option.isSome_iff_ne_none, Option.isSome_map]

/-- What a request is for. -/
theorem getElem?_requests_cacheOf {index : ℕ} {r : SampleRequest}
    (hr : t.requests[index]? = some r) (owed : List ℕ) (n : Name) :
    (cacheOf V t owed).requests[index]? = some n ↔ n = V.keyName r.timeslot := by
  rw [cacheOf]
  rw [List.getElem?_map, hr, Option.map_some, Option.some.injEq, eq_comm]

theorem cache_step (hV : V.CreatesOnce) {w : Watched P}
    (h : Created V w.thermometer) (hlt : ∀ i ∈ w.owed, i < w.thermometer.requests.length)
    {event : ThermometerEvent} (hdelivers : w.Delivers V event) :
    (w.step E V event).cache V = CallbackCache.step (w.cache V) (cacheEvent V E w event) := by
  cases event with
  | temperature interest args now =>
    unfold Watched.cache Watched.step Watched.owedAfter cacheEvent
    rw [react_temperature]
    dsimp only
    cases timeslotOf E args now with
    | error e => rfl
    | ok timeslot =>
      dsimp only
      have hmade : V.keyName timeslot ∈ V.made w.thermometer.producer ↔
          V.created w.thermometer.producer (V.keyName timeslot) = true :=
        and_iff_right ⟨_, rfl⟩
      rw [cacheOf_askForSample hV h, cacheOf_called hV h]
      unfold CallbackCache.step
      dsimp only
      congr 1
      rw [length_cacheOf, show (cacheOf V w.thermometer w.owed).made =
        V.made w.thermometer.producer from rfl]
      simp only [hmade, map_ne_none_iff]
      rfl
  | contentKey interest args =>
    unfold Watched.cache Watched.step Watched.owedAfter cacheEvent
    rw [show (react E w.thermometer (.contentKey interest args)).1 =
      (w.thermometer.onGetContentKey E args (Data.empty.setName interest.name)).1 from rfl,
      cacheOf_onGetContentKey hV]
    cases args with
    | nil => rfl
    | cons arg args =>
      dsimp only
      cases readTime E arg.toUri with
      | error e => rfl
      | ok timeslot => rfl
  | keysEncrypted index keys =>
    obtain ⟨r, hr⟩ : ∃ r, w.thermometer.requests[index]? = some r :=
      ⟨_, List.getElem?_eq_getElem (hlt index hdelivers.1)⟩
    show cacheOf V (w.thermometer.onKeyEncrypted E index keys).1 _ = _
    rw [cacheOf_onKeyEncrypted hV h (hdelivers.2 _ hr)]
    simp only [← getElem?_requests_cacheOf hr w.owed]
    rfl

/-- After a call the key of its hour is found, if it was stored or the callback had it. -/
theorem searchCKey_called_isSome_iff (hV : V.CreatesOnce) (h : Created V t) (interest : Interest)
    (data : Data) (timeslot : TimePoint) (owed : List ℕ) :
    ((t.called E interest data timeslot).1.searchCKey (V.keyName timeslot)).isSome ↔
      V.keyName timeslot ∈ (cacheOf V t owed).stored ∨
        ((P.createContentKey t.producer timeslot true).2.2.map fun keys => !keys.isEmpty) =
          some true := by
  have hstored := congrArg (V.keyName timeslot ∈ CallbackCache.State.stored ·)
    (cacheOf_called (E := E) hV h interest data timeslot owed)
  refine ((and_iff_right ⟨_, rfl⟩).symm.trans hstored.to_iff).trans ?_
  exact or_congr_right (and_iff_left rfl)

theorem answeredBy_eq (hV : V.CreatesOnce) {w : Watched P}
    (h : Created V w.thermometer) (hlt : ∀ i ∈ w.owed, i < w.thermometer.requests.length)
    {event : ThermometerEvent} (hdelivers : w.Delivers V event) :
    answeredBy E w.thermometer event =
      CallbackCache.out (w.cache V) (cacheEvent V E w event) := by
  cases event with
  | temperature interest args now =>
    unfold answeredBy cacheEvent
    dsimp only
    cases timeslotOf E args now with
    | error e => rfl
    | ok timeslot =>
      have hfound := searchCKey_called_isSome_iff (E := E) hV h interest
        (Data.empty.setName interest.name) timeslot w.owed
      rw [CallbackCache.out]
      dsimp only
      rw [hV.name, show (w.cache V).requests.length = w.thermometer.requests.length from
        length_cacheOf _ _]
      classical
      exact congrArg₂ (· ++ ·) (if_congr map_ne_none_iff.symm rfl rfl) (if_congr hfound rfl rfl)
  | contentKey interest args =>
    unfold answeredBy cacheEvent
    cases args with
    | nil => rfl
    | cons arg args =>
      dsimp only
      cases readTime E arg.toUri with
      | error e => rfl
      | ok timeslot => rfl
  | keysEncrypted index keys => exact if_pos (hlt index hdelivers.1)

/-- **The thermometer is a cache that is filled by callbacks.** -/
theorem simulates_callbackCache (hV : V.CreatesOnce) :
    Transitions.Simulation (Watched.step E V) (fun w => answeredBy E w.thermometer)
      CallbackCache.step CallbackCache.out (Watched.cache V) (cacheEvent V E)
      (fun w => ∃ answered, CallbackCache.Sound (w.cache V) answered) (Watched.Delivers V) := by
  have hsound : ∀ w : Watched P, (∃ answered, CallbackCache.Sound (w.cache V) answered) →
      Created V w.thermometer ∧ ∀ i ∈ w.owed, i < w.thermometer.requests.length := by
    rintro w ⟨answered, h⟩
    refine ⟨(created_iff_cacheOf w.owed).mpr h.requests, fun i hi => ?_⟩
    have := h.owed_lt i hi
    rwa [show (w.cache V).requests.length = w.thermometer.requests.length from
      length_cacheOf _ _] at this
  have hstate : ∀ w event, (∃ answered, CallbackCache.Sound (w.cache V) answered) →
      w.Delivers V event →
      (w.step E V event).cache V = CallbackCache.step (w.cache V) (cacheEvent V E w event) := by
    intro w event h hdelivers
    obtain ⟨hcreated, hlt⟩ := hsound w h
    exact cache_step hV hcreated hlt hdelivers
  refine ⟨?_, hstate, ?_⟩
  · rintro w event ⟨answered, h⟩ hdelivers
    rw [hstate w event ⟨answered, h⟩ hdelivers]
    exact ⟨_, CallbackCache.sound_step h (valid_cacheEvent hV hdelivers)⟩
  · intro w event h hdelivers
    obtain ⟨hcreated, hlt⟩ := hsound w h
    exact answeredBy_eq hV hcreated hlt hdelivers

end Cache

end Thermometer
end Nacapp
