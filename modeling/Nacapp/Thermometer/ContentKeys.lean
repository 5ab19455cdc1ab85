import Nacapp.Node.Parsing
import Nacapp.Thermometer.Answers

/-!
# Asking for a content key

A C-KEY request is answered from `m_ckeys`, which the callbacks of requests for the temperature
fill.  The thermometer is run here behind its node: what happens is that an interest arrives, or
that a callback of the producer is made.  Every step of this kind is an event of the thermometer
(`serve_eq`).

* `filed_run`: every key is stored under its own name.
* `servesKeys_iff`: every C-KEY request of a run is answered by a Nack, or by a stored key of the
  hour it asks for, exactly when a key of that hour is stored whenever the request names a time.
  When `searchCKey` finds none, the handler puts nothing and returns `false`, so the node sends
  the empty Data it made for the handler.
-/

namespace Nacapp

/-! ## What the producer promises -/

/-- The encrypted keys are Data, not Nacks. -/
def ProducerLib.EncryptsKeys (P : ProducerLib) : Prop :=
  ∀ st ts callback keys, (P.createContentKey st ts callback).2.2 = some keys →
    ∀ d ∈ keys, d.contentType ≠ ContentType_Nack

/-- Content keys are named after their hours, and none of these names is a prefix of another. -/
structure KeyView.NamesHours {P : ProducerLib} (V : KeyView P) : Prop where
  name : ∀ st ts callback, (P.createContentKey st ts callback).2.1 = V.keyName ts
  prefixFree : ∀ ts ts', V.keyName ts <+: V.keyName ts' → V.keyName ts = V.keyName ts'

theorem KeyView.CreatesOnce.namesHours {P : ProducerLib} {V : KeyView P} (hV : V.CreatesOnce) :
    V.NamesHours := ⟨hV.name, hV.prefixFree⟩

/-- The encrypted keys that are delivered in an event. -/
def ThermometerEvent.keys : ThermometerEvent → List Data
  | .temperature _ _ _ => []
  | .contentKey _ _ => []
  | .keysEncrypted _ keys => keys

namespace Thermometer

open Transitions

/-! ## The thermometer behind its node -/

section Node

variable {P : ProducerLib} {σ : Type} (E : ThermometerEnv σ)

/-- `onGetTemperature`, as a handler.  It returns before the Data it was handed is looked at
again. -/
def handleTemperature (t : Thermometer P) (interest : Interest) (args : Name) (data : Data)
    (now : TimePoint) : Thermometer P × HandlerRun :=
  let (t', samples, outcome) := t.onGetTemperature E interest args data now
  let handed := (t'.requests[t.requests.length]?.map SampleRequest.data).getD data
  (t', ⟨samples.map Sample.data, handed, outcome⟩)

/-- The node of the thermometer at a time: a node with its name and key, after
`registerPrefixes`. -/
def node (P : ProducerLib) (now : TimePoint) : NodeImpl (Thermometer P) :=
  registerThermometer (NodeImpl.ofPrefix E.node.nodePrefix E.node.keychain)
    (fun t _ args data => t.onGetContentKey E args data)
    (fun t interest args data => t.handleTemperature E interest args data now)

/-- The face calls back for an interest, once for each filter it lies under, or the producer makes
a callback. -/
inductive Input where
  | interest (i : Interest) (now : TimePoint)
  | keysEncrypted (index : ℕ) (keys : List Data)

/-- The encrypted keys that are delivered. -/
def Input.keys : Input → List Data
  | .interest _ _ => []
  | .keysEncrypted _ keys => keys

/-- The thermometer after an input. -/
def serve (t : Thermometer P) : Input → Thermometer P
  | .interest i now => ((node E P now).onInterest i t).1
  | .keysEncrypted index keys => (t.onKeyEncrypted E index keys).1

/-- The thermometer after a run. -/
def run (st : P.State) (inputs : List Input) : Thermometer P :=
  exec (serve E) { producer := st } inputs

/-- The packets a request brings. -/
def replies (t : Thermometer P) (i : Interest) (now : TimePoint) : List Packet :=
  NodeImpl.packets ((node E P now).onInterest i t).2

end Node

section Steps

variable {P : ProducerLib} {σ : Type} {E : ThermometerEnv σ} {V : KeyView P}

/-- The path of the requests for content keys. -/
def ckeyPath : Name := [Component.of "C-KEY"]

theorem getElem?_handlers_node (now : TimePoint) (path : Name) :
    (node E P now).handlers[path]? =
      if [] = path then some fun t i args data => t.handleTemperature E i args data now
      else if ckeyPath = path then some fun t _ args data => t.onGetContentKey E args data
      else none := by
  rw [node, registerThermometer, NodeImpl.getElem?_handlers_routeHandler,
    NodeImpl.getElem?_handlers_routeHandler]
  exact if_congr Iff.rfl rfl (if_congr Iff.rfl rfl Std.ExtTreeMap.getElem?_empty)

theorem validate_node (now : TimePoint) (path : Name) (i : Interest) :
    (node E P now).validate path i = .ok () := rfl

theorem withoutProcessors_node (now : TimePoint) : (node E P now).WithoutProcessors :=
  withoutProcessors_registerThermometer NodeImpl.withoutProcessors_ofPrefix _ _

/-- **A step behind the node** is an event of the thermometer, or changes nothing. -/
theorem serve_eq (t : Thermometer P) (input : Input) :
    serve E t input = t ∨
      ∃ event, event.keys = input.keys ∧ serve E t input = (react E t event).1 := by
  cases input with
  | keysEncrypted index keys => exact Or.inr ⟨.keysEncrypted index keys, rfl, rfl⟩
  | interest i now =>
    have hserve := NodeImpl.fst_onInterest (node E P now) i t
    rw [← serve] at hserve
    cases hparse : (node E P now).parseInterestName i with
    | error e =>
      rw [hparse] at hserve
      exact Or.inl hserve
    | ok parts =>
      simp only [hparse, validate_node, getElem?_handlers_node] at hserve
      by_cases hroot : [] = parts.path
      · rw [if_pos hroot] at hserve
        exact Or.inr ⟨.temperature i parts.args now, rfl, hserve⟩
      · rw [if_neg hroot] at hserve
        by_cases hckey : ckeyPath = parts.path
        · rw [if_pos hckey] at hserve
          exact Or.inr ⟨.contentKey i parts.args, rfl, hserve⟩
        · rw [if_neg hckey] at hserve
          exact Or.inl hserve

/-! ## What is stored -/

/-- Every key is stored under its own name, and none is a Nack. -/
def Filed (ckeys : NameMap Data) : Prop :=
  ∀ k (d : Data), ckeys[k]? = some d → d.name = k ∧ d.contentType ≠ ContentType_Nack

theorem Filed.insertCKeys {ckeys : NameMap Data} (h : Filed ckeys) {keys : List Data}
    (hkeys : ∀ d ∈ keys, d.contentType ≠ ContentType_Nack) : Filed (insertCKeys ckeys keys) := by
  rw [Thermometer.insertCKeys]
  induction keys generalizing ckeys with
  | nil => exact h
  | cons key keys ih =>
    rw [List.foldl_cons]
    refine ih ?_ fun d hd => hkeys d (List.mem_cons_of_mem _ hd)
    intro k d hd
    rw [Std.ExtTreeMap.getElem?_insertIfNew] at hd
    split at hd
    · rename_i hnew
      rw [← Option.some.inj hd]
      exact ⟨Std.LawfulEqCmp.compare_eq_iff_eq.mp hnew.1, hkeys key List.mem_cons_self⟩
    · exact h k d hd

theorem Filed.insert_afterPut {ckeys : NameMap Data} (h : Filed ckeys) {stored : Name} {key : Data}
    (hkey : ckeys[stored]? = some key) (n : NodeImpl σ) :
    Filed (ckeys.insert stored (n.afterPut key)) := by
  obtain ⟨hname, htype⟩ := h stored key hkey
  intro k d hd
  rw [Std.ExtTreeMap.getElem?_insert] at hd
  split at hd
  · rename_i hk
    rw [← Option.some.inj hd, NodeImpl.name_afterPut, NodeImpl.contentType_afterPut]
    exact ⟨hname.trans (Std.LawfulEqCmp.compare_eq_iff_eq.mp hk), htype⟩
  · exact h k d hd

theorem filed_onKeyEncrypted {t : Thermometer P} (h : Filed t.ckeys) (index : ℕ) {keys : List Data}
    (hkeys : ∀ d ∈ keys, d.contentType ≠ ContentType_Nack) :
    Filed (t.onKeyEncrypted E index keys).1.ckeys := by
  rw [onKeyEncrypted, doProduce_ckeys]
  exact h.insertCKeys hkeys

theorem filed_askForSample (hP : P.EncryptsKeys) {t : Thermometer P} (h : Filed t.ckeys)
    (interest : Interest) (data : Data) (timeslot : TimePoint) :
    Filed (t.askForSample E interest data timeslot).1.ckeys := by
  have hcalled : Filed (t.called E interest data timeslot).1.ckeys := by
    rw [called]
    cases hkeys : (P.createContentKey t.producer timeslot true).2.2 with
    | none => exact h
    | some keys =>
      exact filed_onKeyEncrypted (t := t.asked interest data timeslot) h _ (hP _ _ _ _ hkeys)
  rw [askForSample_eq]
  dsimp only
  rw [produceIfStored]
  split
  · rw [doProduce_ckeys]
    exact hcalled
  · exact hcalled

theorem filed_onGetContentKey {t : Thermometer P} (h : Filed t.ckeys) (args : Name) (data : Data) :
    Filed (t.onGetContentKey E args data).1.ckeys := by
  cases args with
  | nil => exact h
  | cons arg args =>
    rw [onGetContentKey]
    cases readTime E arg.toUri with
    | error e => exact h
    | ok timeslot =>
      dsimp only
      split
      · exact h
      · rename_i stored key hsearch
        exact h.insert_afterPut (of_searchCKey hsearch).1 E.node

/-- What is stored stays filed in every event. -/
theorem filed_react (hP : P.EncryptsKeys) {t : Thermometer P} (h : Filed t.ckeys)
    {event : ThermometerEvent} (hkeys : ∀ d ∈ event.keys, d.contentType ≠ ContentType_Nack) :
    Filed (react E t event).1.ckeys := by
  cases event with
  | temperature interest args now =>
    rw [react_temperature]
    cases timeslotOf E args now with
    | error e => exact h
    | ok timeslot => exact filed_askForSample hP h interest _ timeslot
  | contentKey interest args => exact filed_onGetContentKey h args _
  | keysEncrypted index keys => exact filed_onKeyEncrypted h index hkeys

/-- **Every key is stored under its own name**, in every state of a run. -/
theorem filed_run (hP : P.EncryptsKeys) (st : P.State) {inputs : List Input}
    (hkeys : ∀ input ∈ inputs, ∀ d ∈ input.keys, d.contentType ≠ ContentType_Nack) :
    Filed (run E st inputs).ckeys := by
  refine invariant (I := fun t : Thermometer P => Filed t.ckeys) (fun input hinput t h => ?_) ?_
  · rcases serve_eq (E := E) t input with heq | ⟨event, hevent, heq⟩
    · rw [heq]
      exact h
    · rw [heq]
      exact filed_react hP h (hevent ▸ hkeys input hinput)
  · intro k d hd
    exact absurd (Std.ExtTreeMap.getElem?_empty.symm.trans hd) (by simp)

/-! ## What a request is answered with -/

/-- The name of a request for a content key is split into the path and the arguments. -/
theorem parseInterestName_ckey {now : TimePoint} {i : Interest} {args : Name}
    (h : i.name = E.node.nodePrefix ++ (ckeyPath ++ args)) :
    (node E P now).parseInterestName i = .ok ⟨E.node.nodePrefix, ckeyPath, args⟩ := by
  have hkeys : ∀ p ∈ (node E P now).handlers.keys, [] = p ∨ ckeyPath = p := by
    intro p hp
    rw [Std.ExtTreeMap.mem_keys, Std.ExtTreeMap.mem_iff_isSome_getElem?,
      getElem?_handlers_node] at hp
    by_contra hnot
    rw [not_or] at hnot
    rw [if_neg hnot.1, if_neg hnot.2] at hp
    exact Bool.false_ne_true hp
  have hmem : ckeyPath ∈ (node E P now).handlers.keys := by
    rw [Std.ExtTreeMap.mem_keys, Std.ExtTreeMap.mem_iff_isSome_getElem?, getElem?_handlers_node,
      if_neg (by decide), if_pos rfl]
    rfl
  have hselected : (node E P now).selectedPath (ckeyPath ++ args) = ckeyPath :=
    NodeImpl.selectedPath_append _ hmem (by decide)
      (fun p hp hne _ => ((hkeys p hp).resolve_left hne.symm).symm) args
  have hparse := (node E P now).parseInterestName_eq h
  rw [hselected, List.drop_left] at hparse
  exact hparse

theorem reached_ckey {now : TimePoint} {i : Interest} {args : Name} (t : Thermometer P)
    (h : i.name = E.node.nodePrefix ++ (ckeyPath ++ args)) :
    (node E P now).reached i t =
      some (ckeyPath, (t.onGetContentKey E args (Data.empty.setName i.name)).2) := by
  rw [NodeImpl.reached, parseInterestName_ckey h]
  simp only [validate_node, getElem?_handlers_node]
  rw [if_neg (by decide), if_true]
  rfl

/-- The time that a request for a content key asks for, if it names one. -/
def requestedTimeslot (E : ThermometerEnv σ) : Name → Option TimePoint
  | [] => none
  | arg :: _ => (readTime E arg.toUri).toOption

/-- The packet is a Nack, or Data that says it is one. -/
def IsNack : Packet → Prop
  | .nack _ => True
  | .data d => d.contentType = ContentType_Nack

/-- The packet is a key that is stored, as it is put: its name extends the name of the content
key of the hour, and of no other. -/
def IsKeyOf (E : ThermometerEnv σ) (V : KeyView P) (t : Thermometer P) (timeslot : TimePoint) :
    Packet → Prop
  | .nack _ => False
  | .data d => (∃ key, t.ckeys[d.name]? = some key ∧ d = E.node.afterPut key) ∧
      V.keyName timeslot <+: d.name ∧
        ∀ timeslot', V.keyName timeslot' <+: d.name → V.keyName timeslot' = V.keyName timeslot

theorem replies_eq {t : Thermometer P} {i : Interest} {now : TimePoint} {args : Name}
    (h : i.name = E.node.nodePrefix ++ (ckeyPath ++ args)) :
    replies E t i now = (node E P now).answerPackets ckeyPath i
      (t.onGetContentKey E args (Data.empty.setName i.name)).2 :=
  (node E P now).packets_onInterest_of_reached (reached_ckey t h)

/-- A put of Data that is not a Nack. -/
theorem sendData_node {now : TimePoint} {d : Data} (h : d.contentType ≠ ContentType_Nack)
    (path : Name) (i : Interest) :
    (node E P now).sendData path i d = .ok (.data (E.node.afterPut d), true) := by
  rw [E.node.afterPut_of_ne_nack h]
  exact NodeImpl.sendData_of_process _ h
    (NodeImpl.process_of_withoutProcessors (withoutProcessors_node now) path d) i

/-- Without a time the request is answered by a Nack. -/
theorem replies_of_no_timeslot {t : Thermometer P} {i : Interest} {now : TimePoint} {args : Name}
    (h : i.name = E.node.nodePrefix ++ (ckeyPath ++ args))
    (hnone : requestedTimeslot E args = none) : ∃ p, replies E t i now = [p] ∧ IsNack p := by
  rw [replies_eq h]
  cases args with
  | nil =>
    have hsend := NodeImpl.sendData_nack (node E P now)
      (d := (Data.empty.setName i.name).setContentType ContentType_Nack) rfl ckeyPath i
    exact ⟨.nack i, NodeImpl.answerPackets_of_returns _ rfl rfl hsend, trivial⟩
  | cons arg args =>
    rw [onGetContentKey]
    rw [requestedTimeslot] at hnone
    cases hread : readTime E arg.toUri with
    | error e => exact ⟨_, NodeImpl.answerPackets_of_throws _ rfl rfl, rfl⟩
    | ok timeslot =>
      rw [hread] at hnone
      exact absurd hnone (Option.some_ne_none timeslot)

/-- The run of the handler, when the request names a time. -/
theorem onGetContentKey_of_timeslot (hV : V.NamesHours) {t : Thermometer P} {args : Name}
    {timeslot : TimePoint} (hts : requestedTimeslot E args = some timeslot) (data : Data) :
    (t.onGetContentKey E args data).2 =
      match t.searchCKey (V.keyName timeslot) with
      | none => ⟨[], data, .ok false⟩
      | some (_, key) => ⟨[key], data, .ok false⟩ := by
  cases args with
  | nil => exact absurd hts (by simp [requestedTimeslot])
  | cons arg args =>
    rw [requestedTimeslot] at hts
    rw [onGetContentKey]
    cases hread : readTime E arg.toUri with
    | error e =>
      rw [hread] at hts
      exact absurd hts (by simp [Except.toOption])
    | ok timeslot' =>
      rw [hread] at hts
      obtain rfl : timeslot' = timeslot := Option.some.inj hts
      have hsame : ∀ producer, ({ t with producer := producer } : Thermometer P).searchCKey
          (V.keyName timeslot') = t.searchCKey (V.keyName timeslot') := fun _ => rfl
      dsimp only
      rw [hV.name, hsame]
      rcases t.searchCKey (V.keyName timeslot') with _ | ⟨stored, key⟩
      · rfl
      · rfl

/-- A key that is found is sent. -/
theorem replies_of_found (hV : V.NamesHours) {t : Thermometer P} (ht : Filed t.ckeys) {i : Interest}
    {now : TimePoint} {args : Name} (h : i.name = E.node.nodePrefix ++ (ckeyPath ++ args))
    {timeslot : TimePoint} (hts : requestedTimeslot E args = some timeslot) {stored : Name}
    {key : Data} (hsearch : t.searchCKey (V.keyName timeslot) = some (stored, key)) :
    replies E t i now = [.data (E.node.afterPut key)] := by
  have hkey := (ht stored key (of_searchCKey hsearch).1).2
  rw [replies_eq h, onGetContentKey_of_timeslot hV hts, hsearch]
  exact NodeImpl.answerPackets_of_put _ rfl rfl (sendData_node hkey _ _)

/-- When no key is found, the Data that was made for the handler is sent. -/
theorem replies_of_not_found (hV : V.NamesHours) {t : Thermometer P} {i : Interest}
    {now : TimePoint} {args : Name} (h : i.name = E.node.nodePrefix ++ (ckeyPath ++ args))
    {timeslot : TimePoint} (hts : requestedTimeslot E args = some timeslot)
    (hsearch : t.searchCKey (V.keyName timeslot) = none) :
    replies E t i now = [.data (E.node.afterPut (Data.empty.setName i.name))] := by
  have hblob : (Data.empty.setName i.name).contentType ≠ ContentType_Nack :=
    show ContentType_Blob ≠ ContentType_Nack by decide
  rw [replies_eq h, onGetContentKey_of_timeslot hV hts, hsearch]
  exact NodeImpl.answerPackets_of_returns _ rfl rfl (sendData_node hblob _ _)

/-- The key that is found is one of the hour, as it is put. -/
theorem isKeyOf_of_searchCKey (hV : V.NamesHours) {t : Thermometer P} (ht : Filed t.ckeys)
    {timeslot : TimePoint} {stored : Name} {key : Data}
    (hsearch : t.searchCKey (V.keyName timeslot) = some (stored, key)) :
    IsKeyOf E V t timeslot (.data (E.node.afterPut key)) := by
  obtain ⟨hkey, hprefix⟩ := of_searchCKey hsearch
  have hname : (E.node.afterPut key).name = stored :=
    (NodeImpl.name_afterPut _ key).trans (ht stored key hkey).1
  refine ⟨⟨key, hname.symm ▸ hkey, rfl⟩, hname.symm ▸ hprefix, ?_⟩
  intro timeslot' hother
  rw [hname] at hother
  rcases List.prefix_or_prefix_of_prefix hother hprefix with hle | hle
  · exact hV.prefixFree _ _ hle
  · exact (hV.prefixFree _ _ hle).symm

/-- What is a key of the hour would be found. -/
theorem IsKeyOf.isSome_searchCKey {t : Thermometer P} {timeslot : TimePoint} {d : Data}
    (h : IsKeyOf E V t timeslot (.data d)) : (t.searchCKey (V.keyName timeslot)).isSome := by
  obtain ⟨⟨key, hkey, -⟩, hprefix, -⟩ := h
  have hmem : d.name ∈ t.ckeys :=
    Std.ExtTreeMap.mem_iff_isSome_getElem?.mpr (Option.isSome_of_eq_some hkey)
  exact (searchCKey_isSome_iff _).mpr ⟨d.name, hmem, hprefix⟩

/-- **A request is answered** by Nacks and by stored keys of the hour it asks for, exactly when
such a key is stored. -/
theorem replies_iff (hV : V.NamesHours) {t : Thermometer P} (ht : Filed t.ckeys) {i : Interest}
    {now : TimePoint} {args : Name} (h : i.name = E.node.nodePrefix ++ (ckeyPath ++ args)) :
    (∀ p ∈ replies E t i now, IsNack p ∨
        ∃ timeslot, requestedTimeslot E args = some timeslot ∧ IsKeyOf E V t timeslot p) ↔
      ∀ timeslot, requestedTimeslot E args = some timeslot →
        ∃ k, k ∈ t.ckeys ∧ V.keyName timeslot <+: k := by
  cases hts : requestedTimeslot E args with
  | none =>
    obtain ⟨p, hp, hnack⟩ : ∃ p, replies E t i now = [p] ∧ IsNack p :=
      replies_of_no_timeslot h hts
    rw [hp]
    refine iff_of_true (fun q hq => ?_) fun timeslot hne => absurd hne (by simp)
    rw [List.mem_singleton.mp hq]
    exact Or.inl hnack
  | some timeslot =>
    simp only [Option.some.injEq, exists_eq_left', forall_eq']
    rw [← searchCKey_isSome_iff]
    cases hsearch : t.searchCKey (V.keyName timeslot) with
    | none =>
      refine iff_of_false (fun hall => ?_) Bool.false_ne_true
      rw [replies_of_not_found hV h hts hsearch] at hall
      rcases hall _ List.mem_cons_self with hnack | hkey
      · have hblob : (E.node.afterPut (Data.empty.setName i.name)).contentType =
            ContentType_Blob := NodeImpl.contentType_afterPut _ _
        exact absurd (hblob.symm.trans hnack) (by decide)
      · have hfound := hkey.isSome_searchCKey
        rw [hsearch] at hfound
        exact Bool.false_ne_true hfound
    | some found =>
      refine iff_of_true (fun p hp => ?_) rfl
      rw [replies_of_found hV ht h hts hsearch] at hp
      rw [List.mem_singleton.mp hp]
      exact Or.inr (isKeyOf_of_searchCKey hV ht hsearch)

/-! ## Runs -/

/-- In every state of the run a key is stored under its own name, and every request for a content
key is answered by Nacks and by stored keys of the hour it asks for. -/
structure ServesKeys (E : ThermometerEnv σ) (V : KeyView P) (st : P.State) (inputs : List Input) :
    Prop where
  filed : ∀ pre, pre <+: inputs → ∀ k (d : Data), (run E st pre).ckeys[k]? = some d → d.name = k
  answered : ∀ pre i now post args, inputs = pre ++ .interest i now :: post →
    i.name = E.node.nodePrefix ++ (ckeyPath ++ args) →
      ∀ p ∈ replies E (run E st pre) i now, IsNack p ∨
        ∃ timeslot, requestedTimeslot E args = some timeslot ∧ IsKeyOf E V (run E st pre) timeslot p

/-- If the input is a request for the content key of an hour, such a key is stored. -/
def KeyStored (E : ThermometerEnv σ) (V : KeyView P) (t : Thermometer P) : Input → Prop
  | .interest i _ => ∀ args timeslot, i.name = E.node.nodePrefix ++ (ckeyPath ++ args) →
      requestedTimeslot E args = some timeslot → ∃ k, k ∈ t.ckeys ∧ V.keyName timeslot <+: k
  | .keysEncrypted _ _ => True

/-- **Content keys are served**: in every run every request for a content key is answered by a
Nack or by a stored key of the hour it asks for, and every key is stored under its own name,
exactly when a key of the hour is stored whenever one is asked for. -/
theorem servesKeys_iff (hV : V.NamesHours) (hP : P.EncryptsKeys) (st : P.State)
    {inputs : List Input}
    (hkeys : ∀ input ∈ inputs, ∀ d ∈ input.keys, d.contentType ≠ ContentType_Nack) :
    ServesKeys E V st inputs ↔
      StepsMeet (serve E) (KeyStored E V) { producer := st } inputs := by
  have hfiled : ∀ pre, pre <+: inputs → Filed (run E st pre).ckeys := fun pre hpre =>
    filed_run hP st fun input hinput => hkeys input (hpre.subset hinput)
  rw [stepsMeet_iff]
  constructor
  · intro h pre input post heq
    cases input with
    | keysEncrypted index keys => trivial
    | interest i now =>
      intro args timeslot hname hts
      have ht := hfiled pre (heq ▸ List.prefix_append _ _)
      exact (replies_iff hV ht hname).mp (h.answered pre i now post args heq hname) timeslot hts
  · intro h
    refine ⟨fun pre hpre k d hd => (hfiled pre hpre k d hd).1, ?_⟩
    intro pre i now post args heq hname
    have ht := hfiled pre (heq ▸ List.prefix_append _ _)
    exact (replies_iff hV ht hname).mpr fun timeslot hts =>
      h pre (.interest i now) post heq args timeslot hname hts

end Steps

/-! ## On the first hour -/

theorem hourlyProducer_encryptsKeys (early : Bool) : (hourlyProducer early).EncryptsKeys := by
  intro (st : List Name) timeslot callback keys hkeys d hd
  rw [eq_of_mem_hourlyProducer hkeys hd]
  exact show ContentType_Blob ≠ ContentType_Nack by decide

/-- The request for the content key of the first hour. -/
def firstHourRequest : Interest :=
  ⟨[Component.of "T", Component.of "C-KEY", Component.of "19700101T000000"], []⟩

/-- After a request for the temperature, whose keys come at once, the content key is served. -/
theorem servesKeys_after_temperature :
    ServesKeys steadyEnv (hourlyKeys true) (noKeys true)
      [.interest ⟨[Component.of "T"], []⟩ 0, .interest firstHourRequest 0] := by
  refine (servesKeys_iff (hourlyKeys_createsOnce true).namesHours
    (hourlyProducer_encryptsKeys true) (noKeys true) ?_).mpr ⟨?_, ?_, trivial⟩
  · intro input hinput d hd
    rcases List.mem_pair.mp hinput with rfl | rfl
    · exact absurd hd List.not_mem_nil
    · exact absurd hd List.not_mem_nil
  · intro args timeslot hname
    have hlength := congrArg List.length hname
    simp [steadyEnv, NodeImpl.ofPrefix, ckeyPath] at hlength
  · intro args timeslot hname hts
    have hcut : [Component.of "T", Component.of "C-KEY"] ++ [Component.of "19700101T000000"] =
        [Component.of "T", Component.of "C-KEY"] ++ args := hname
    obtain rfl := List.append_cancel_left hcut
    have hread : requestedTimeslot steadyEnv [Component.of "19700101T000000"] = some 0 := by
      decide +kernel
    obtain rfl : 0 = timeslot := Option.some.inj (hread.symm.trans hts)
    rw [← searchCKey_isSome_iff]
    decide +kernel

/-- When nothing has been asked for before, the request is answered by a Data that is no key. -/
theorem empty_data_for_unknown_key :
    ¬ ∀ (P : ProducerLib) (V : KeyView P), V.NamesHours → P.EncryptsKeys →
      ∀ (E : ThermometerEnv Unit) (st : P.State) (inputs : List Input),
        (∀ input ∈ inputs, ∀ d ∈ input.keys, d.contentType ≠ ContentType_Nack) →
          ServesKeys E V st inputs := by
  intro h
  have hserves := h (hourlyProducer true) (hourlyKeys true)
    (hourlyKeys_createsOnce true).namesHours (hourlyProducer_encryptsKeys true) steadyEnv
    (noKeys true) [.interest firstHourRequest 0] fun input hinput d hd => by
      rw [List.mem_singleton.mp hinput] at hd
      exact absurd hd List.not_mem_nil
  have hblob : (replies steadyEnv (run steadyEnv (noKeys true) []) firstHourRequest 0).any
      (fun p => match p with
        | .nack _ => false
        | .data d => d.contentType == ContentType_Blob) = true := by
    decide +kernel
  obtain ⟨p, hp, htype⟩ := List.any_eq_true.mp hblob
  have hempty : ∀ k, (run steadyEnv (noKeys true) []).ckeys[k]? = none :=
    fun _ => Std.ExtTreeMap.getElem?_empty
  have hanswer := hserves.answered [] firstHourRequest 0 [] [Component.of "19700101T000000"] rfl rfl
  rcases hanswer p hp with hnack | ⟨timeslot, -, hkey⟩
  · cases p with
    | nack i => exact Bool.false_ne_true htype
    | data d => exact absurd ((beq_iff_eq.mp htype).symm.trans hnack) (by decide)
  · cases p with
    | nack i => exact hkey
    | data d =>
      obtain ⟨⟨key, hstored, -⟩, -⟩ := hkey
      exact absurd ((hempty d.name).symm.trans hstored) (by simp)

end Thermometer
end Nacapp
