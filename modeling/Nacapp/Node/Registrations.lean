import Nacapp.Node.NodeImpl

/-!
# Registering a path again

A route lives in three maps: the handler, the validators and the processors of its path.
`route` always writes the first, and writes the other two only for lists that are not
empty, so a registration that brings no validators leaves those of an earlier one in
force.

* `Pipeline`: what the handling of an interest runs through, the lists of the node and of
  the path put together; `handleInterest_eq` says that the node runs the one in force.
* `handlingCalls`: the calls of one handling, in order, and what is sent in between.
* `LeftBehind`: the lists of a path that a history of registrations leaves in force.
* `handling_registered_iff`: for which interests the leftovers make no difference.
-/

namespace Nacapp

/-- One call of `route`. -/
structure Registration (σ : Type) where
  uri : Bytes
  handler : InterestHandler σ
  validators : List InterestValidator := []
  processors : List DataProcessor := []

/-- What an interest for a path runs through. -/
structure Pipeline (σ : Type) where
  validators : List InterestValidator
  handler : Option (InterestHandler σ)
  processors : List DataProcessor

/-- What the handling of an interest calls and sends. -/
inductive Call (σ : Type) where
  | validator (validator : InterestValidator)
  | handler (handler : InterestHandler σ)
  | processor (processor : DataProcessor) (data : Data)
  | sent (p : Packet)

namespace Registration

variable {σ : Type}

/-- The path, `none` where the URI does not parse. -/
def path (r : Registration σ) : Option Name := Name.ofUri r.uri

end Registration

namespace NodeImpl

variable {σ : Type} (n : NodeImpl σ)

/-! ## Histories of registrations -/

/-- The node after one call of `route`; where the call throws, it has changed nothing. -/
def register (n : NodeImpl σ) (r : Registration σ) : NodeImpl σ :=
  (n.route r.uri r.handler r.validators r.processors).getD n

/-- The node after the calls of `route`. -/
def registered (rs : List (Registration σ)) : NodeImpl σ := rs.foldl register n

theorem register_of_path {r : Registration σ} {p : Name} (h : r.path = some p) :
    n.register r = n.routeName p r.handler r.validators r.processors := by
  rw [register, route, show Name.ofUri r.uri = some p from h]
  rfl

theorem register_of_path_eq_none {r : Registration σ} (h : r.path = none) :
    n.register r = n := by
  rw [register, route, show Name.ofUri r.uri = none from h]
  rfl

/-- A registration leaves everything but the three maps alone. -/
theorem register_eq (r : Registration σ) :
    ∃ handlers validators processors,
      n.register r = { n with handlers, validators, processors } := by
  cases h : r.path with
  | none => exact ⟨n.handlers, n.validators, n.processors, n.register_of_path_eq_none h⟩
  | some p => exact ⟨_, _, _, n.register_of_path h⟩

@[simp] theorem register_nodePrefix (r : Registration σ) :
    (n.register r).nodePrefix = n.nodePrefix := by
  obtain ⟨_, _, _, h⟩ := n.register_eq r
  rw [h]

theorem registered_common (rs : List (Registration σ)) :
    (n.registered rs).commonValidators = n.commonValidators ∧
      (n.registered rs).commonProcessors = n.commonProcessors := by
  induction rs generalizing n with
  | nil => exact ⟨rfl, rfl⟩
  | cons r rs ih =>
    obtain ⟨_, _, _, h⟩ := n.register_eq r
    show ((n.register r).registered rs).commonValidators = _ ∧
      ((n.register r).registered rs).commonProcessors = _
    rw [h]
    exact ih _

theorem registered_append (rs ts : List (Registration σ)) :
    n.registered (rs ++ ts) = (n.registered rs).registered ts := List.foldl_append

/-! ## What a history leaves in force -/

/-- A map that is written for lists that are not empty, after these writes. -/
def leftBehind {α : Type*} (m : NameMap (List α)) (writes : List (Option Name × List α)) :
    NameMap (List α) :=
  writes.foldl (fun m w => match w.1 with
    | some p => if w.2.length > 0 then m.insert p w.2 else m
    | none => m) m

section LeftBehind

variable {α : Type*} (m : NameMap (List α)) (p : Name)

theorem leftBehind_append (ws us : List (Option Name × List α)) :
    leftBehind m (ws ++ us) = leftBehind (leftBehind m ws) us := List.foldl_append

theorem leftBehind_cons (w : Option Name × List α) (ws : List (Option Name × List α)) :
    leftBehind m (w :: ws) = leftBehind (leftBehind m [w]) ws := rfl

theorem getElem?_leftBehind_singleton (q : Option Name) (l : List α) :
    (leftBehind m [(q, l)])[p]? = if q = some p ∧ l ≠ [] then some l else m[p]? := by
  cases q with
  | none => simp [leftBehind]
  | some q =>
    cases l with
    | nil => simp [leftBehind]
    | cons a l =>
      have hinsert : leftBehind m [(some q, a :: l)] = m.insert q (a :: l) := rfl
      rw [hinsert, Std.ExtTreeMap.getElem?_insert]
      simp

theorem getElem?_leftBehind_of_forall_ne {ws : List (Option Name × List α)}
    (h : ∀ w ∈ ws, w.1 ≠ some p) : (leftBehind m ws)[p]? = m[p]? := by
  induction ws generalizing m with
  | nil => rfl
  | cons w ws ih =>
    obtain ⟨q, l⟩ := w
    rw [leftBehind_cons, ih _ fun u hu => h u (List.mem_cons_of_mem _ hu),
      getElem?_leftBehind_singleton, if_neg fun hq => h _ List.mem_cons_self hq.1]

/-- **Nothing is left behind** exactly when nothing was there and nothing was written. -/
theorem getD_leftBehind_eq_nil_iff (ws : List (Option Name × List α)) :
    (leftBehind m ws)[p]?.getD [] = [] ↔
      m[p]?.getD [] = [] ∧ ∀ w ∈ ws, w.1 = some p → w.2 = [] := by
  induction ws generalizing m with
  | nil => simp [leftBehind]
  | cons w ws ih =>
    obtain ⟨q, l⟩ := w
    rw [leftBehind_cons, ih, getElem?_leftBehind_singleton]
    by_cases hq : q = some p <;> by_cases hl : l = [] <;> simp [hq, hl]

/-- What is in force after the last write of the path. -/
theorem getD_leftBehind_last (ws us : List (Option Name × List α)) (l : List α)
    (hus : ∀ w ∈ us, w.1 ≠ some p) :
    (leftBehind m (ws ++ (some p, l) :: us))[p]?.getD [] =
      if l = [] then (leftBehind m ws)[p]?.getD [] else l := by
  rw [leftBehind_append, leftBehind_cons, getElem?_leftBehind_of_forall_ne _ p hus,
    getElem?_leftBehind_singleton]
  by_cases hl : l = [] <;> simp [hl]

end LeftBehind

theorem validators_register (r : Registration σ) :
    (n.register r).validators = leftBehind n.validators [(r.path, r.validators)] := by
  cases h : r.path with
  | none =>
    rw [n.register_of_path_eq_none h]
    rfl
  | some p =>
    rw [n.register_of_path h]
    rfl

theorem processors_register (r : Registration σ) :
    (n.register r).processors = leftBehind n.processors [(r.path, r.processors)] := by
  cases h : r.path with
  | none =>
    rw [n.register_of_path_eq_none h]
    rfl
  | some p =>
    rw [n.register_of_path h]
    rfl

theorem handlers_register (r : Registration σ) (p : Name) :
    (n.register r).handlers[p]? = if r.path = some p then some r.handler else n.handlers[p]? := by
  cases h : r.path with
  | none => rw [n.register_of_path_eq_none h, if_neg (by simp)]
  | some q =>
    rw [n.register_of_path h]
    show (n.handlers.insert q r.handler)[p]? = _
    rw [Std.ExtTreeMap.getElem?_insert]
    simp

theorem validators_registered (rs : List (Registration σ)) :
    (n.registered rs).validators =
      leftBehind n.validators (rs.map fun r => (r.path, r.validators)) := by
  induction rs generalizing n with
  | nil => rfl
  | cons r rs ih =>
    rw [List.map_cons, leftBehind_cons, ← validators_register]
    exact ih _

theorem processors_registered (rs : List (Registration σ)) :
    (n.registered rs).processors =
      leftBehind n.processors (rs.map fun r => (r.path, r.processors)) := by
  induction rs generalizing n with
  | nil => rfl
  | cons r rs ih =>
    rw [List.map_cons, leftBehind_cons, ← processors_register]
    exact ih _

theorem handlers_registered_of_forall_ne {rs : List (Registration σ)} {p : Name}
    (h : ∀ r ∈ rs, r.path ≠ some p) : (n.registered rs).handlers[p]? = n.handlers[p]? := by
  induction rs generalizing n with
  | nil => rfl
  | cons r rs ih =>
    have htail := ih (n.register r) fun q hq => h q (List.mem_cons_of_mem _ hq)
    rw [handlers_register, if_neg (h r List.mem_cons_self)] at htail
    exact htail

/-- The handler of the last registration is the one in force. -/
theorem handlers_registered_last (pre post : List (Registration σ)) {r : Registration σ}
    {p : Name} (hr : r.path = some p) (hpost : ∀ q ∈ post, q.path ≠ some p) :
    (n.registered (pre ++ r :: post)).handlers[p]? = some r.handler := by
  rw [registered_append]
  show (((n.registered pre).register r).registered post).handlers[p]? = _
  rw [handlers_registered_of_forall_ne _ hpost, handlers_register, if_pos hr]

/-! ## The calls of one handling -/

/-- The validators called, up to the first that throws. -/
def validatorCalls (i : Interest) : List InterestValidator → List (Call σ)
  | [] => []
  | v :: vs =>
    .validator v :: match v i with
      | .ok () => validatorCalls i vs
      | .error _ => []

/-- The processors called on a Data, up to the first that throws. -/
def processorCalls : List DataProcessor → Data → List (Call σ)
  | [], _ => []
  | q :: qs, d =>
    .processor q d :: match q d with
      | .ok d => processorCalls qs d
      | .error _ => []

/-- The Data put over a run of the handler, if none of the puts throws: its puts, and the
Data it was given when it returned `false` and nothing but Nacks was put. -/
def offered (run : HandlerRun) : List Data :=
  run.puts ++
    if run.outcome = .ok false ∧ ∀ d ∈ run.puts, d.contentType = ContentType_Nack then [run.data]
    else []

/-- The calls of the puts.  The first that throws is the last. -/
def putCalls (n : NodeImpl σ) (qs : List DataProcessor) (i : Interest) :
    List Data → List (Call σ)
  | [] => []
  | d :: ds =>
    if d.contentType = ContentType_Nack then .sent (.nack i) :: n.putCalls qs i ds
    else processorCalls qs d ++ match qs.foldlM (fun d q => q d) d with
      | .ok d => .sent (.data (defaultFreshness (n.signIfUnsigned d))) :: n.putCalls qs i ds
      | .error _ => []

/-- The calls of a handling that runs through the pipeline. -/
def handlingCalls (pipeline : Pipeline σ) (i : Interest) (args : Name) (s : σ) :
    List (Call σ) :=
  validatorCalls i pipeline.validators ++
    match pipeline.validators.forM (fun v => v i), pipeline.handler with
    | .ok (), some handler =>
      .handler handler :: n.putCalls pipeline.processors i
        (offered (handler s i args (Data.empty.setName i.name)).2)
    | _, _ => []

/-- The pipeline in force for a path. -/
def inForce (path : Name) : Pipeline σ where
  validators := n.commonValidators ++ n.validators[path]?.getD []
  handler := n.handlers[path]?
  processors := n.commonProcessors ++ n.processors[path]?.getD []

/-- The calls of handling an interest. -/
def handling (i : Interest) (parts : ParsedName) (s : σ) : List (Call σ) :=
  n.handlingCalls (n.inForce parts.path) i parts.args s

/-! ## The node runs the pipeline in force -/

theorem validate_eq (path : Name) (i : Interest) :
    n.validate path i = (n.inForce path).validators.forM fun v => v i := by
  show _ = List.forM (n.commonValidators ++ n.validators[path]?.getD []) _
  rw [validate, List.forM_eq_forM, List.forM_append]
  cases n.validators[path]? with
  | none => rfl
  | some vs => rfl

theorem process_eq (path : Name) (d : Data) :
    n.process path d = (n.inForce path).processors.foldlM (fun d q => q d) d := by
  rw [process, inForce, List.foldlM_append]
  cases n.processors[path]? with
  | none => rfl
  | some qs => rfl

/-- The events among the calls. -/
def callEvents (path args : Name) (calls : List (Call σ)) : List NodeEvent :=
  calls.filterMap fun
    | .handler _ => some (.handled path args)
    | .sent p => some (.sent p)
    | .validator _ => none
    | .processor _ _ => none

theorem callEvents_append (path args : Name) (cs ds : List (Call σ)) :
    callEvents path args (cs ++ ds) = callEvents path args cs ++ callEvents path args ds :=
  List.filterMap_append ..

theorem callEvents_validatorCalls (path args : Name) (i : Interest)
    (vs : List InterestValidator) :
    callEvents path args (validatorCalls i vs : List (Call σ)) = [] := by
  induction vs with
  | nil => rfl
  | cons v vs ih =>
    rw [validatorCalls]
    cases v i with
    | error e => rfl
    | ok u => exact ih

theorem callEvents_processorCalls (path args : Name) (qs : List DataProcessor) (d : Data) :
    callEvents path args (processorCalls qs d : List (Call σ)) = [] := by
  induction qs generalizing d with
  | nil => rfl
  | cons q qs ih =>
    rw [processorCalls]
    cases q d with
    | error e => rfl
    | ok d => exact ih d

/-- A put is one step of `putCalls`. -/
theorem callEvents_putCalls_cons (path args : Name) (i : Interest) (d : Data) (ds : List Data) :
    callEvents path args (n.putCalls (n.inForce path).processors i (d :: ds)) =
      match n.sendData path i d with
      | .error _ => []
      | .ok (p, _) =>
        .sent p :: callEvents path args (n.putCalls (n.inForce path).processors i ds) := by
  rw [putCalls, sendData]
  split
  · rfl
  · rw [callEvents_append, callEvents_processorCalls, List.nil_append, process_eq]
    cases List.foldlM (fun d q => q d) d (n.inForce path).processors with
    | error e => rfl
    | ok d => rfl

/-- The puts of the handler, and those that follow unless one of them threw. -/
theorem callEvents_putCalls_append (path args : Name) (i : Interest) (ds es : List Data) :
    callEvents path args (n.putCalls (n.inForce path).processors i (ds ++ es)) =
      (n.issuePuts path i ds).1 ++
        if (n.issuePuts path i ds).2.2 = none then
          callEvents path args (n.putCalls (n.inForce path).processors i es)
        else [] := by
  induction ds with
  | nil => rw [List.nil_append, issuePuts, if_pos rfl, List.nil_append]
  | cons d ds ih =>
    rw [List.cons_append, callEvents_putCalls_cons, issuePuts]
    rcases n.sendData path i d with e | ⟨p, sent⟩
    · rfl
    · simp only [ih, List.cons_append]

/-- Nothing is sent but Nacks exactly when the flag stays down. -/
theorem issuePuts_sent_eq_false_iff (path : Name) (i : Interest) (ds : List Data)
    (h : (n.issuePuts path i ds).2.2 = none) :
    (n.issuePuts path i ds).2.1 = false ↔ ∀ d ∈ ds, d.contentType = ContentType_Nack := by
  induction ds with
  | nil => simp [issuePuts]
  | cons d ds ih =>
    rw [issuePuts] at h ⊢
    by_cases hnack : d.contentType = ContentType_Nack
    · rw [sendData, if_pos hnack] at h ⊢
      simpa [hnack] using ih h
    · rw [sendData, if_neg hnack] at h ⊢
      cases hproc : n.process path d with
      | error e =>
        rw [hproc] at h
        exact absurd h (by simp [bind, Except.bind])
      | ok d' => simp [hnack, bind, Except.bind, pure, Except.pure]

theorem callEvents_putCalls_offered (path args : Name) (i : Interest) (run : HandlerRun) :
    callEvents path args (n.putCalls (n.inForce path).processors i (offered run)) =
      (n.answer path i run).1 := by
  rw [offered, callEvents_putCalls_append, answer]
  have hflag := n.issuePuts_sent_eq_false_iff path i run.puts
  rcases hputs : n.issuePuts path i run.puts with ⟨events, sent, _ | e⟩
  · rw [hputs] at hflag
    have hflag := hflag rfl
    rcases hout : run.outcome with e | async
    · simp [putCalls, callEvents]
    · cases async with
      | true => simp [putCalls, callEvents]
      | false =>
        cases sent with
        | true =>
          have hsome : ¬ ∀ d ∈ run.puts, d.contentType = ContentType_Nack :=
            fun h => Bool.noConfusion (hflag.mpr h)
          rw [if_pos rfl, if_neg fun h => hsome h.2]
          simp [putCalls, callEvents]
        | false =>
          rw [if_pos rfl, if_pos ⟨rfl, hflag.mp rfl⟩, callEvents_putCalls_cons]
          rcases n.sendData path i run.data with e | ⟨p, sent'⟩
          · simp
          · simp [putCalls, callEvents]
  · simp

/-- **The calls are those of the node**: what `handleInterest` does is what the calls of the
handling leave to see. -/
theorem callEvents_handling (i : Interest) (parts : ParsedName) (s : σ) :
    callEvents parts.path parts.args (n.handling i parts s) =
      (n.handleInterest i parts s).2.1 := by
  rw [handling, handlingCalls, callEvents_append, callEvents_validatorCalls, List.nil_append,
    handleInterest, validate_eq]
  cases List.forM (n.inForce parts.path).validators fun v => v i with
  | error e => rfl
  | ok u =>
    have hhandler : (n.inForce parts.path).handler = n.handlers[parts.path]? := rfl
    rw [hhandler]
    cases n.handlers[parts.path]? with
    | none => rfl
    | some handler =>
      exact congrArg (NodeEvent.handled parts.path parts.args :: ·)
        (n.callEvents_putCalls_offered _ _ _ _)

/-! ## Where two pipelines part -/

/-- None of the validators throws. -/
def acceptedBy (i : Interest) (vs : List InterestValidator) : Bool := (vs.forM fun v => v i).isOk

/-- None of the processors throws. -/
def processedBy (d : Data) (qs : List DataProcessor) : Bool :=
  (qs.foldlM (fun d (q : DataProcessor) => q d) d).isOk

theorem acceptedBy_cons (i : Interest) (v : InterestValidator) (vs : List InterestValidator) :
    acceptedBy i (v :: vs) = ((v i).isOk && acceptedBy i vs) := by
  rw [acceptedBy, acceptedBy, List.forM_eq_forM, List.forM_cons]
  cases v i with
  | error e => rfl
  | ok u => rfl

theorem acceptedBy_append (i : Interest) (us vs : List InterestValidator) :
    acceptedBy i (us ++ vs) = (acceptedBy i us && acceptedBy i vs) := by
  induction us with
  | nil => rfl
  | cons u us ih => rw [List.cons_append, acceptedBy_cons, acceptedBy_cons, ih, Bool.and_assoc]

theorem validatorCalls_append (i : Interest) (us vs : List InterestValidator) :
    (validatorCalls i (us ++ vs) : List (Call σ)) =
      validatorCalls i us ++ if acceptedBy i us then validatorCalls i vs else [] := by
  induction us with
  | nil => rfl
  | cons u us ih =>
    rw [List.cons_append, validatorCalls, validatorCalls, acceptedBy_cons]
    cases u i with
    | error e => rfl
    | ok _ => exact congrArg (Call.validator u :: ·) ih

theorem processorCalls_append (qs ps : List DataProcessor) (d : Data) :
    (processorCalls (qs ++ ps) d : List (Call σ)) =
      processorCalls qs d ++ match qs.foldlM (fun d q => q d) d with
        | .ok d => processorCalls ps d
        | .error _ => [] := by
  induction qs generalizing d with
  | nil => rfl
  | cons q qs ih =>
    rw [List.cons_append, processorCalls, processorCalls, List.foldlM_cons]
    cases q d with
    | error e => rfl
    | ok d => exact congrArg (Call.processor q _ :: ·) (ih d)

/-- The calls of a handling, once the validators are through. -/
theorem handlingCalls_of_accepted {pipeline : Pipeline σ} {i : Interest}
    (h : acceptedBy i pipeline.validators = true) {handler : InterestHandler σ}
    (hhandler : pipeline.handler = some handler) (args : Name) (s : σ) :
    n.handlingCalls pipeline i args s = validatorCalls i pipeline.validators ++
      .handler handler :: n.putCalls pipeline.processors i
        (offered (handler s i args (Data.empty.setName i.name)).2) := by
  rw [acceptedBy] at h
  rw [handlingCalls, hhandler]
  cases hval : List.forM pipeline.validators fun v => v i with
  | error e =>
    rw [hval] at h
    exact absurd h (by simp [Except.isOk, Except.toBool])
  | ok u => rfl

theorem handlingCalls_of_not_accepted {pipeline : Pipeline σ} {i : Interest}
    (h : acceptedBy i pipeline.validators = false) (args : Name) (s : σ) :
    n.handlingCalls pipeline i args s = validatorCalls i pipeline.validators := by
  rw [acceptedBy] at h
  rw [handlingCalls]
  cases hval : List.forM pipeline.validators fun v => v i with
  | error e => rw [List.append_nil]
  | ok u =>
    rw [hval] at h
    exact absurd h (by simp [Except.isOk, Except.toBool])

/-- The first Data put that is not a Nack. -/
def firstPut (ds : List Data) : Option Data := ds.find? fun d => d.contentType ≠ ContentType_Nack

/-- Processors more or less make a difference unless the first Data put that is not a Nack
is stopped before them, or there is none. -/
theorem putCalls_append_eq_iff {ps qs : List DataProcessor} (hqs : qs ≠ []) (i : Interest)
    (ds : List Data) :
    n.putCalls (ps ++ qs) i ds = n.putCalls ps i ds ↔
      ∀ d, firstPut ds = some d → processedBy d ps = false := by
  induction ds with
  | nil => simp [putCalls, firstPut]
  | cons d ds ih =>
    rw [putCalls, putCalls, firstPut]
    by_cases hnack : d.contentType = ContentType_Nack
    · rw [if_pos hnack, if_pos hnack, List.find?_cons_of_neg (by simp [hnack]), List.cons_inj_right]
      exact ih
    · rw [if_neg hnack, if_neg hnack, List.find?_cons_of_pos (by simp [hnack]),
        processorCalls_append, List.foldlM_append]
      simp only [Option.some_inj, forall_eq', processedBy]
      cases hps : List.foldlM (fun d (q : DataProcessor) => q d) d ps with
      | error e =>
        refine iff_of_true ?_ rfl
        show (processorCalls ps d ++ []) ++ [] = processorCalls ps d ++ []
        rw [List.append_nil]
      | ok d' =>
        obtain ⟨q, qs, rfl⟩ := List.exists_cons_of_ne_nil hqs
        refine iff_of_false (fun h => ?_) Bool.noConfusion
        -- the one calls `q` where the other sends the packet
        rw [List.append_assoc] at h
        have htail : processorCalls (q :: qs) d' ++ _ = _ :: _ := List.append_cancel_left h
        rw [processorCalls, List.cons_append] at htail
        exact absurd (List.cons.inj htail).1 (by simp)

/-- A validator that only one of two pipelines has is called where the other calls the
handler. -/
theorem handlingCalls_append_cons_ne {us vs : List InterestValidator} {v : InterestValidator}
    {ps qs : List DataProcessor} {i : Interest} (hus : acceptedBy i us = true)
    (handler : InterestHandler σ) (args : Name) (s : σ) :
    n.handlingCalls ⟨us ++ v :: vs, some handler, qs⟩ i args s ≠
      n.handlingCalls ⟨us ++ [], some handler, ps⟩ i args s := by
  intro h
  have hright := n.handlingCalls_of_accepted
    (show acceptedBy i (Pipeline.mk (us ++ []) (some handler) ps).validators = true by
      rw [List.append_nil]
      exact hus) rfl args s
  rw [hright] at h
  cases hws : acceptedBy i (us ++ v :: vs) with
  | false =>
    rw [handlingCalls_of_not_accepted _ hws, validatorCalls_append, hus, if_pos rfl,
      List.append_nil, List.append_cancel_left_eq, validatorCalls] at h
    exact absurd (List.cons.inj h).1 (by simp)
  | true =>
    rw [handlingCalls_of_accepted _ hws rfl, validatorCalls_append, hus, if_pos rfl,
      List.append_nil, List.append_assoc, List.append_cancel_left_eq, validatorCalls,
      List.cons_append] at h
    exact absurd (List.cons.inj h).1 (by simp)

/-- **Where two pipelines part.**  The second has the lists of the first, or lists where
the first has none. -/
theorem handlingCalls_eq_iff {us vs vs' : List InterestValidator}
    {ps qs qs' : List DataProcessor} (hvs : vs' = vs ∨ vs = [] ∧ vs' ≠ [])
    (hqs : qs' = qs ∨ qs = [] ∧ qs' ≠ []) (handler : InterestHandler σ) (i : Interest)
    (args : Name) (s : σ) :
    n.handlingCalls ⟨us ++ vs', some handler, ps ++ qs'⟩ i args s =
        n.handlingCalls ⟨us ++ vs, some handler, ps ++ qs⟩ i args s ↔
      (acceptedBy i us = true → vs' = vs ∧
        (acceptedBy i vs = true → qs' = qs ∨
          ∀ d, firstPut (offered (handler s i args (Data.empty.setName i.name)).2) = some d →
            processedBy d ps = false)) := by
  cases hus : acceptedBy i us with
  | false =>
    have hrejected (ws : List InterestValidator) : acceptedBy i (us ++ ws) = false := by
      rw [acceptedBy_append, hus, Bool.false_and]
    rw [handlingCalls_of_not_accepted _ (hrejected vs'),
      handlingCalls_of_not_accepted _ (hrejected vs), validatorCalls_append,
      validatorCalls_append, hus]
    simp
  | true =>
    simp only [true_imp_iff]
    have haccepted (ws : List InterestValidator) :
        acceptedBy i (us ++ ws) = acceptedBy i ws := by
      rw [acceptedBy_append, hus, Bool.true_and]
    rcases hvs with rfl | ⟨rfl, hne⟩
    · cases hws : acceptedBy i vs' with
      | false =>
        rw [handlingCalls_of_not_accepted _ ((haccepted vs').trans hws),
          handlingCalls_of_not_accepted _ ((haccepted vs').trans hws)]
        simp
      | true =>
        rw [handlingCalls_of_accepted _ ((haccepted vs').trans hws) rfl,
          handlingCalls_of_accepted _ ((haccepted vs').trans hws) rfl,
          List.append_cancel_left_eq, List.cons_inj_right]
        simp only [true_and, true_imp_iff]
        rcases hqs with rfl | ⟨rfl, hne⟩
        · simp
        · rw [List.append_nil, putCalls_append_eq_iff _ hne]
          simp [hne]
    · refine iff_of_false (fun h => ?_) fun h => hne h.1
      obtain ⟨v, vs, rfl⟩ := List.exists_cons_of_ne_nil hne
      exact n.handlingCalls_append_cons_ne hus handler args s h

/-! ## The last registration of a path -/

/-- A node before its first route. -/
def unrouted (nodePrefix : Name) (keychain : KeyChain) (validators : List InterestValidator)
    (processors : List DataProcessor) : NodeImpl σ :=
  { nodePrefix, keychain, commonValidators := validators, commonProcessors := processors }

/-- What an interest for the path runs through when this registration alone counts. -/
def pipelineOf (r : Registration σ) : Pipeline σ where
  validators := n.commonValidators ++ r.validators
  handler := some r.handler
  processors := n.commonProcessors ++ r.processors

/-- The registration brings a list of its own, or no earlier one of its path did. -/
def Replaces {α : Type*} (part : Registration σ → List α) (pre : List (Registration σ))
    (r : Registration σ) : Prop :=
  part r ≠ [] ∨ ∀ q ∈ pre, q.path = r.path → part q = []

/-- The list in force after the last registration of a path: the one it brings, or what it
leaves behind. -/
theorem getD_leftBehind_registrations {α : Type*} (part : Registration σ → List α)
    (pre post : List (Registration σ)) {r : Registration σ} {p : Name} (hr : r.path = some p)
    (hpost : ∀ q ∈ post, q.path ≠ some p) :
    ∃ l, (leftBehind ∅ ((pre ++ r :: post).map fun q => (q.path, part q)))[p]?.getD [] = l ∧
      (l = part r ∨ part r = [] ∧ l ≠ []) ∧ (l = part r ↔ Replaces part pre r) := by
  refine ⟨_, rfl, ?_⟩
  have hmap : ∀ w ∈ post.map fun q => (q.path, part q), w.1 ≠ some p := by
    intro w hw
    obtain ⟨q, hq, rfl⟩ := List.mem_map.mp hw
    exact hpost q hq
  have hleft := getD_leftBehind_eq_nil_iff ∅ p (pre.map fun q => (q.path, part q))
  have hnone : (leftBehind ∅ (pre.map fun q => (q.path, part q)))[p]?.getD [] = [] ↔
      ∀ q ∈ pre, q.path = r.path → part q = [] := by
    rw [hleft, hr]
    simp
  rw [List.map_append, List.map_cons, hr, getD_leftBehind_last _ _ _ _ _ hmap, Replaces, ← hnone]
  by_cases hnil : part r = []
  · rw [if_pos hnil, hnil]
    by_cases hlist : (leftBehind ∅ (pre.map fun q => (q.path, part q)))[p]?.getD [] = []
    · simp [hlist]
    · simp [hlist]
  · simp [hnil]

/-- **The last registration is the one in force**, for an interest, exactly when a common
validator throws, or the registration replaced the validators of the path and a validator
throws, or it replaced the processors as well, or nothing that is put gets as far as the
processors of the path. -/
theorem handling_registered_iff (nodePrefix : Name) (keychain : KeyChain)
    (validators : List InterestValidator) (processors : List DataProcessor)
    (pre post : List (Registration σ)) (r : Registration σ) (i : Interest) (parts : ParsedName)
    (s : σ) (hr : r.path = some parts.path) (hpost : ∀ q ∈ post, q.path ≠ some parts.path) :
    let n := (unrouted nodePrefix keychain validators processors).registered (pre ++ r :: post)
    n.handling i parts s = n.handlingCalls (n.pipelineOf r) i parts.args s ↔
      (acceptedBy i validators = true →
        Replaces Registration.validators pre r ∧
        (acceptedBy i r.validators = true →
          Replaces Registration.processors pre r ∨
          ∀ d, firstPut (offered (r.handler s i parts.args (Data.empty.setName i.name)).2) =
            some d → processedBy d processors = false)) := by
  intro n
  have hcommon : n.commonValidators = validators ∧ n.commonProcessors = processors :=
    (unrouted nodePrefix keychain validators processors).registered_common _
  obtain ⟨vs, hvs, hvscases, hvsiff⟩ :=
    getD_leftBehind_registrations Registration.validators pre post hr hpost
  obtain ⟨qs, hqs, hqscases, hqsiff⟩ :=
    getD_leftBehind_registrations Registration.processors pre post hr hpost
  have hinForce : n.inForce parts.path =
      ⟨validators ++ vs, some r.handler, processors ++ qs⟩ := by
    rw [inForce, hcommon.1, hcommon.2, handlers_registered_last _ pre post hr hpost,
      validators_registered, processors_registered, ← hvs, ← hqs]
    rfl
  rw [handling, hinForce, pipelineOf, hcommon.1, hcommon.2,
    handlingCalls_eq_iff _ hvscases hqscases, hvsiff, hqsiff]

/-- A path that is guarded by a validator which rejects every interest. -/
def guardedRoute : Registration Unit where
  uri := bytes "/A"
  handler := fun s _ _ data => (s, ⟨[], data, .ok false⟩)
  validators := [fun _ => .error (.string (bytes "rejected"))]

/-- The same path, registered without a validator. -/
def openRoute : Registration Unit := { guardedRoute with validators := [] }

/-- Registering a guard for an open path puts the guard in force. -/
theorem handling_guardedRoute :
    let n := (unrouted [Component.of "P"] ⟨bytes "node"⟩ [] []).registered
      ([openRoute] ++ guardedRoute :: [])
    n.handling ⟨[Component.of "P", Component.of "A"], []⟩
        ⟨[Component.of "P"], [Component.of "A"], []⟩ () =
      n.handlingCalls (n.pipelineOf guardedRoute)
        ⟨[Component.of "P", Component.of "A"], []⟩ [] () :=
  (handling_registered_iff [Component.of "P"] ⟨bytes "node"⟩ [] [] [openRoute] [] guardedRoute
    ⟨[Component.of "P", Component.of "A"], []⟩ ⟨[Component.of "P"], [Component.of "A"], []⟩ ()
    (by decide) (fun _ h => absurd h List.not_mem_nil)).mpr fun _ =>
      ⟨Or.inl (List.cons_ne_nil _ _), fun h => absurd h (by decide)⟩

/-- Registering the path again without the guard leaves the guard in force. -/
theorem handling_openRoute_ne :
    let n := (unrouted [Component.of "P"] ⟨bytes "node"⟩ [] []).registered
      ([guardedRoute] ++ openRoute :: [])
    ¬ n.handling ⟨[Component.of "P", Component.of "A"], []⟩
        ⟨[Component.of "P"], [Component.of "A"], []⟩ () =
      n.handlingCalls (n.pipelineOf openRoute)
        ⟨[Component.of "P", Component.of "A"], []⟩ [] () := by
  intro n h
  -- the one ends with the guard, the other calls the handler and sends
  exact absurd (congrArg List.length h) (by decide)

end NodeImpl
end Nacapp
