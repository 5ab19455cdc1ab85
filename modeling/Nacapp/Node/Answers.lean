import Nacapp.Node.NodeImpl

/-!
# What a node sends

Two questions about the answers of `NodeImpl`: whether a packet it signs leaves with a
signature over what is sent, and how many packets one interest brings.

`sendData` signs first and sets the default freshness period afterwards, so the
signature of a packet without a freshness period covers `-1` and the packet says `1000`
(`sendData_verifies_iff`).

An interest is answered from up to three places: the puts of the handler, the put of the
Data the handler was given, and `onFailed`.  Only the flag `*sent` links the first two,
a Nack does not set it, and nothing links the third (`answeredOnce_iff`).
-/

namespace Nacapp
namespace NodeImpl

variable {σ : Type} (n : NodeImpl σ)

/-! ## One put -/

/-- The put of this Data throws, because a processor does. -/
def rejects (path : Name) (d : Data) : Bool :=
  decide (d.contentType ≠ ContentType_Nack) && !(n.process path d).isOk

/-- Signing and freshness leave the name of a packet as it is. -/
@[simp] theorem name_defaultFreshness_signIfUnsigned (d : Data) :
    (defaultFreshness (n.signIfUnsigned d)).name = d.name := by
  rw [defaultFreshness, signIfUnsigned]
  split <;> split <;> rfl

/-- Signing and freshness leave the content type of a packet as it is. -/
@[simp] theorem contentType_defaultFreshness_signIfUnsigned (d : Data) :
    (defaultFreshness (n.signIfUnsigned d)).contentType = d.contentType := by
  rw [defaultFreshness, signIfUnsigned]
  split <;> split <;> rfl

/-- Signing and freshness leave the content of a packet as it is. -/
@[simp] theorem content_defaultFreshness_signIfUnsigned (d : Data) :
    (defaultFreshness (n.signIfUnsigned d)).content = d.content := by
  rw [defaultFreshness, signIfUnsigned]
  split <;> split <;> rfl

theorem sendData_nack {d : Data} (h : d.contentType = ContentType_Nack) (path : Name)
    (i : Interest) : n.sendData path i d = .ok (.nack i, false) := by
  rw [sendData, if_pos h]

theorem sendData_of_process {d p : Data} {path : Name} (h : d.contentType ≠ ContentType_Nack)
    (hp : n.process path d = .ok p) (i : Interest) :
    n.sendData path i d = .ok (.data (defaultFreshness (n.signIfUnsigned p)), true) := by
  rw [sendData, if_neg h, hp]
  rfl

theorem sendData_of_rejects {d : Data} {path : Name} (h : n.rejects path d = true)
    (i : Interest) : ∃ e, n.sendData path i d = .error e := by
  rw [rejects, Bool.and_eq_true, decide_eq_true_eq, Bool.not_eq_true'] at h
  obtain ⟨hnack, hp⟩ := h
  cases hproc : n.process path d with
  | error e =>
    refine ⟨e, ?_⟩
    rw [sendData, if_neg hnack, hproc]
    rfl
  | ok p =>
    rw [hproc] at hp
    exact absurd hp (by simp [Except.isOk, Except.toBool])

theorem sendData_of_not_rejects {d : Data} {path : Name} (h : n.rejects path d = false)
    (i : Interest) :
    ∃ p, n.sendData path i d = .ok (p, decide (d.contentType ≠ ContentType_Nack)) := by
  by_cases hnack : d.contentType = ContentType_Nack
  · exact ⟨.nack i, by rw [n.sendData_nack hnack]; simp [hnack]⟩
  · cases hproc : n.process path d with
    | error e =>
      rw [rejects, hproc] at h
      exact absurd h (by simp [hnack, Except.isOk, Except.toBool])
    | ok p =>
      refine ⟨.data (defaultFreshness (n.signIfUnsigned p)), ?_⟩
      rw [n.sendData_of_process hnack hproc, decide_eq_true hnack]

/-! ## Nodes without processors -/

/-- The node has no processors. -/
structure WithoutProcessors (n : NodeImpl σ) : Prop where
  common : n.commonProcessors = []
  ofPath : ∀ path : Name, n.processors[path]? = none

theorem process_of_withoutProcessors {n : NodeImpl σ} (hn : n.WithoutProcessors) (path : Name)
    (d : Data) : n.process path d = .ok d := by
  rw [process]
  rw [hn.common, hn.ofPath]
  rfl

theorem withoutProcessors_ofPrefix {nodePrefix : Name} {keychain : KeyChain} :
    (ofPrefix nodePrefix keychain : NodeImpl σ).WithoutProcessors where
  common := rfl
  ofPath _ := Std.ExtTreeMap.getElem?_empty

/-- A route that is registered with a handler alone brings none. -/
theorem WithoutProcessors.routeHandler {n : NodeImpl σ} (hn : n.WithoutProcessors) (path : Name)
    (handler : InterestHandler σ) : (n.routeHandler path handler).WithoutProcessors where
  common := hn.common
  ofPath := hn.ofPath

/-- Without processors no put throws. -/
theorem exists_sendData_of_withoutProcessors {n : NodeImpl σ} (hn : n.WithoutProcessors)
    (path : Name) (i : Interest) (d : Data) : ∃ sent, n.sendData path i d = .ok sent := by
  have haccepted : n.rejects path d = false := by
    rw [rejects]
    rw [process_of_withoutProcessors hn]
    simp [Except.isOk, Except.toBool]
  obtain ⟨p, hp⟩ := n.sendData_of_not_rejects haccepted i
  exact ⟨_, hp⟩

theorem issuePuts_of_withoutProcessors {n : NodeImpl σ} (hn : n.WithoutProcessors) (path : Name)
    (i : Interest) (ds : List Data) : (n.issuePuts path i ds).2.2 = none := by
  induction ds with
  | nil => rfl
  | cons d ds ih =>
    obtain ⟨⟨p, sent⟩, hp⟩ := exists_sendData_of_withoutProcessors hn path i d
    rw [issuePuts, hp]
    exact ih

/-- What leaves the node after a run of a handler is what the handler throws. -/
theorem answer_of_withoutProcessors {n : NodeImpl σ} (hn : n.WithoutProcessors) (path : Name)
    (i : Interest) (run : HandlerRun) :
    (n.answer path i run).2 = run.outcome.map fun _ => () := by
  have hputs := issuePuts_of_withoutProcessors hn path i run.puts
  rw [answer]
  rcases hissue : n.issuePuts path i run.puts with ⟨events, sent, thrown⟩
  rw [hissue] at hputs
  obtain rfl : thrown = none := hputs
  dsimp only
  cases run.outcome with
  | error e => rfl
  | ok async =>
    dsimp only
    split
    · obtain ⟨⟨p, sent'⟩, hp⟩ := exists_sendData_of_withoutProcessors hn path i run.data
      rw [hp]
      rfl
    · rfl

/-! ## The signature of a packet the node signs -/

/-- A Data the node signs verifies when it leaves exactly when its freshness period was
positive before the signing. -/
theorem verifies_defaultFreshness_sign_iff (d : Data) :
    (defaultFreshness (n.keychain.sign d)).Verifies ↔ 0 < d.freshnessPeriod := by
  rw [defaultFreshness, KeyChain.sign_freshnessPeriod]
  split
  · rename_i hle
    have hsig : ((n.keychain.sign d).setFreshnessPeriod 1000).signature =
        some ⟨n.keychain.signer, d.signedFields⟩ := rfl
    rw [Data.verifies_iff hsig]
    constructor
    · intro h
      have hfresh : d.freshnessPeriod = 1000 := congrArg SignedFields.freshnessPeriod h
      omega
    · intro h
      omega
  · rename_i hlt
    exact iff_of_true (n.keychain.sign_verifies d) (by omega)

/-- **The packets the node signs.**  Whatever the processors made of the Data, if it is
still unsigned the node signs it, and the packet handed to the face carries a signature
over its own name, meta-info and content exactly when the processors left it with a
positive freshness period. -/
theorem sendData_verifies_iff (path : Name) (i : Interest) {d p : Data}
    (hnack : d.contentType ≠ ContentType_Nack) (hp : n.process path d = .ok p)
    (hunsigned : p.signature = none) :
    ∃ out, n.sendData path i d = .ok (.data out, true) ∧
      (out.Verifies ↔ 0 < p.freshnessPeriod) := by
  refine ⟨_, n.sendData_of_process hnack hp i, ?_⟩
  rw [signIfUnsigned, hunsigned, Option.isNone_none, if_pos rfl]
  exact n.verifies_defaultFreshness_sign_iff p

/-- A node without routes, validators or processors. -/
def bareNode : NodeImpl Unit := { nodePrefix := [Component.of "P"], keychain := ⟨bytes "node"⟩ }

/-- A handler's content with a freshness period of four seconds is sent as it was signed. -/
theorem sendData_verifies_with_freshness :
    ∃ out, bareNode.sendData [] ⟨[Component.of "P"], []⟩
        ⟨[Component.of "P"], ContentType_Blob, 4000, bytes "21", none⟩ = .ok (.data out, true) ∧
      (out.Verifies ↔ (0 : ℤ) < 4000) :=
  bareNode.sendData_verifies_iff [] ⟨[Component.of "P"], []⟩ (by decide) rfl rfl

/-- A handler that only sets the content gets a packet sent that does not verify. -/
theorem sendData_content_only_not_verifies :
    ¬ ∀ out, bareNode.sendData [] ⟨[Component.of "P"], []⟩
        ((Data.empty.setName [Component.of "P"]).setContent (bytes "21")) =
          .ok (.data out, true) → out.Verifies :=
  fun h => absurd (h _ rfl) (by decide)

/-! ## Counting the packets of one interest -/

/-- The packets among the events. -/
def packets (events : List NodeEvent) : List Packet :=
  events.filterMap fun
    | .sent p => some p
    | .handled _ _ => none

@[simp] theorem packets_nil : packets [] = [] := rfl

@[simp] theorem packets_sent (p : Packet) (events : List NodeEvent) :
    packets (.sent p :: events) = p :: packets events := rfl

@[simp] theorem packets_handled (path args : Name) (events : List NodeEvent) :
    packets (.handled path args :: events) = packets events := rfl

@[simp] theorem packets_append (es fs : List NodeEvent) :
    packets (es ++ fs) = packets es ++ packets fs := List.filterMap_append ..

/-- The path and the run of the handler, when the interest gets that far: the name
parses, the validators accept and a handler is found. -/
def reached (i : Interest) (s : σ) : Option (Name × HandlerRun) :=
  match n.parseInterestName i with
  | .error _ => none
  | .ok parts =>
    match n.validate parts.path i with
    | .error _ => none
    | .ok () =>
      n.handlers[parts.path]?.map fun handler =>
        (parts.path, (handler s i parts.args (Data.empty.setName i.name)).2)

/-- The handler ends by returning `true`: no put threw, and it did not throw itself. -/
def ReturnsTrue (path : Name) (run : HandlerRun) : Prop :=
  (∀ d ∈ run.puts, n.rejects path d = false) ∧ run.outcome = .ok true

/-- One interest brings at most one packet, and exactly one when the handler returns
`false` or throws. -/
def AnsweredOnce (i : Interest) (s : σ) : Prop :=
  (packets (n.onInterest i s).2).length ≤ 1 ∧
    ∀ path run, n.reached i s = some (path, run) → ¬ n.ReturnsTrue path run →
      (packets (n.onInterest i s).2).length = 1

/-- The handler puts at most once before it ends, and not at all before it throws; what
it puts before it returns `false` is not a Nack.  A put that throws is the end of the
handler and sends nothing itself. -/
def PutsOnce (path : Name) (run : HandlerRun) : Prop :=
  match run.puts with
  | [] => True
  | [d] =>
    n.rejects path d = true ∨ run.outcome = .ok true ∨
      (run.outcome = .ok false ∧ d.contentType ≠ ContentType_Nack)
  | d :: _ :: _ => n.rejects path d = true

/-- The packets of a handler run, the one of `onFailed` included. -/
def answerCount (path : Name) (i : Interest) (run : HandlerRun) : ℕ :=
  match n.answer path i run with
  | (events, .ok ()) => (packets events).length
  | (events, .error _) => (packets events).length + 1

/-- The packets of a handler run, with that of `onFailed` when it ended by throwing. -/
def answerPackets (path : Name) (i : Interest) (run : HandlerRun) : List Packet :=
  match n.answer path i run with
  | (events, .ok ()) => packets events
  | (events, .error e) => packets events ++ [n.onFailed e.reason]

/-- A handler that throws before it puts anything is answered for by `onFailed`. -/
theorem answerPackets_of_throws {path : Name} {i : Interest} {run : HandlerRun} {e : Exn}
    (hputs : run.puts = []) (hout : run.outcome = .error e) :
    n.answerPackets path i run = [n.onFailed e.reason] := by
  rw [answerPackets, answer, hputs, hout]
  rfl

/-- A handler that puts nothing and returns `false` has the Data it was given put for it. -/
theorem answerPackets_of_returns {path : Name} {i : Interest} {run : HandlerRun} {p : Packet}
    {sent : Bool} (hputs : run.puts = []) (hout : run.outcome = .ok false)
    (hsend : n.sendData path i run.data = .ok (p, sent)) : n.answerPackets path i run = [p] := by
  rw [answerPackets, answer, hputs, hout, issuePuts]
  simp [hsend]

/-- After a put that counts as sent, nothing is put for the handler. -/
theorem answerPackets_of_put {path : Name} {i : Interest} {run : HandlerRun} {d : Data} {p : Packet}
    (hputs : run.puts = [d]) (hout : run.outcome = .ok false)
    (hsend : n.sendData path i d = .ok (p, true)) : n.answerPackets path i run = [p] := by
  rw [answerPackets, answer, hputs, hout, issuePuts, hsend, issuePuts]
  rfl

/-- What an interest brings that reaches a handler. -/
theorem packets_onInterest_of_reached {i : Interest} {s : σ} {path : Name} {run : HandlerRun}
    (h : n.reached i s = some (path, run)) :
    packets (n.onInterest i s).2 = n.answerPackets path i run := by
  rw [reached] at h
  rw [onInterest]
  cases hparse : n.parseInterestName i with
  | error e =>
    rw [hparse] at h
    exact absurd h (by simp)
  | ok parts =>
    rw [hparse] at h
    cases hval : n.validate parts.path i with
    | error e =>
      simp only [hval] at h
      exact absurd h (by simp)
    | ok u =>
      simp only [hval] at h
      obtain ⟨handler, hfind, hrun⟩ := Option.map_eq_some_iff.mp h
      obtain ⟨rfl, rfl⟩ := Prod.mk.inj hrun
      simp only [handleInterest, hval, hfind, answerPackets]
      rcases n.answer parts.path i _ with ⟨events, e | u⟩
      · simp
      · simp

/-- An interest that reaches no handler brings the packet of `onFailed`. -/
theorem packets_onInterest_of_not_reached {i : Interest} {s : σ} (h : n.reached i s = none) :
    ∃ reason, packets (n.onInterest i s).2 = [n.onFailed reason] := by
  rw [reached] at h
  rw [onInterest]
  cases hparse : n.parseInterestName i with
  | error e => exact ⟨_, rfl⟩
  | ok parts =>
    rw [hparse] at h
    cases hval : n.validate parts.path i with
    | error e =>
      simp only [handleInterest, hval]
      exact ⟨_, rfl⟩
    | ok u =>
      simp only [hval, Option.map_eq_none_iff] at h
      simp only [handleInterest, hval, h]
      exact ⟨_, rfl⟩

theorem length_packets_onInterest_of_reached {i : Interest} {s : σ} {path : Name}
    {run : HandlerRun} (h : n.reached i s = some (path, run)) :
    (packets (n.onInterest i s).2).length = n.answerCount path i run := by
  rw [n.packets_onInterest_of_reached h, answerPackets, answerCount]
  rcases n.answer path i run with ⟨events, e | u⟩
  · exact List.length_append
  · rfl

theorem length_packets_onInterest_of_not_reached {i : Interest} {s : σ}
    (h : n.reached i s = none) : (packets (n.onInterest i s).2).length = 1 := by
  obtain ⟨reason, hpackets⟩ := n.packets_onInterest_of_not_reached h
  rw [hpackets, List.length_singleton]

/-! ## The puts of a handler, counted -/

theorem answerCount_nil {path : Name} {i : Interest} {run : HandlerRun} (h : run.puts = []) :
    n.answerCount path i run = if run.outcome = .ok true then 0 else 1 := by
  rw [answerCount, answer, h, issuePuts]
  rcases hout : run.outcome with e | _ | _
  · rfl
  · rcases n.sendData path i run.data with e | ⟨p, sent⟩
    · simp
    · simp
  · rfl

theorem answerCount_rejects {path : Name} {i : Interest} {run : HandlerRun} {d : Data}
    {ds : List Data} (h : run.puts = d :: ds) (hd : n.rejects path d = true) :
    n.answerCount path i run = 1 := by
  obtain ⟨e, he⟩ := n.sendData_of_rejects hd i
  rw [answerCount, answer, h, issuePuts, he]
  rfl

theorem answerCount_singleton {path : Name} {i : Interest} {run : HandlerRun} {d : Data}
    (h : run.puts = [d]) (hd : n.rejects path d = false) :
    n.answerCount path i run =
      if run.outcome = .ok true ∨ run.outcome = .ok false ∧ d.contentType ≠ ContentType_Nack
      then 1 else 2 := by
  obtain ⟨p, hp⟩ := n.sendData_of_not_rejects hd i
  rw [answerCount, answer, h, issuePuts, hp, issuePuts]
  rcases hout : run.outcome with e | _ | _
  · simp
  · by_cases hnack : d.contentType = ContentType_Nack
    · -- a Nack does not set the flag, so the Data of the handler is put as well
      rcases n.sendData path i run.data with e | ⟨q, sent⟩
      · simp [hnack]
      · simp [hnack]
    · simp [hnack]
  · simp

/-- What the puts send, and `onFailed` if one of them throws, is all part of the count. -/
theorem length_packets_issuePuts_le (path : Name) (i : Interest) (run : HandlerRun) :
    (packets (n.issuePuts path i run.puts).1).length +
      (if (n.issuePuts path i run.puts).2.2.isSome then 1 else 0) ≤ n.answerCount path i run := by
  rw [answerCount, answer]
  rcases n.issuePuts path i run.puts with ⟨events, sent, _ | e⟩
  · rcases run.outcome with e | async
    · simp
    · rcases n.sendData path i run.data with e | ⟨q, sent'⟩
      · cases async <;> cases sent <;> simp
      · cases async <;> cases sent <;> simp
  · simp

/-- Two puts, the first of which succeeds, bring two packets at least. -/
theorem two_le_answerCount {path : Name} {i : Interest} {run : HandlerRun} {d d' : Data}
    {ds : List Data} (h : run.puts = d :: d' :: ds) (hd : n.rejects path d = false) :
    2 ≤ n.answerCount path i run := by
  obtain ⟨p, hp⟩ := n.sendData_of_not_rejects hd i
  have hle := n.length_packets_issuePuts_le path i run
  rw [h, issuePuts, hp, issuePuts] at hle
  rcases hd' : n.rejects path d' with _ | _
  · obtain ⟨p', hp'⟩ := n.sendData_of_not_rejects hd' i
    rw [hp'] at hle
    simp only [packets_sent, List.length_cons] at hle
    omega
  · obtain ⟨e, he⟩ := n.sendData_of_rejects hd' i
    rw [he] at hle
    simpa using hle

/-- Where at most one packet leaves, the handler kept to one put. -/
theorem putsOnce_of_answerCount_le {path : Name} {i : Interest} {run : HandlerRun}
    (hle : n.answerCount path i run ≤ 1) : n.PutsOnce path run := by
  rw [PutsOnce]
  split
  · trivial
  · rename_i d hputs
    rcases hd : n.rejects path d with _ | _
    · rw [n.answerCount_singleton hputs hd] at hle
      split at hle
      · rename_i hcond
        exact Or.inr hcond
      · omega
    · exact Or.inl rfl
  · rename_i d d' ds hputs
    rcases hd : n.rejects path d with _ | _
    · have := n.two_le_answerCount (i := i) hputs hd
      omega
    · rfl

/-- A handler that keeps to one put has at most one packet leave, and one unless it returns
`true`. -/
theorem answerCount_of_putsOnce {path : Name} {run : HandlerRun} (h : n.PutsOnce path run)
    (i : Interest) : n.answerCount path i run ≤ 1 ∧
      (¬ n.ReturnsTrue path run → n.answerCount path i run = 1) := by
  rw [PutsOnce] at h
  split at h
  · rename_i hnil
    rw [n.answerCount_nil hnil]
    refine ⟨by split <;> omega, fun hret => ?_⟩
    rw [if_neg fun hout => hret ⟨by simp [hnil], hout⟩]
  · rename_i d hsingle
    rcases hd : n.rejects path d with _ | _
    · rw [hd] at h
      have hcount := n.answerCount_singleton (i := i) hsingle hd
      rw [if_pos (h.resolve_left Bool.false_ne_true)] at hcount
      exact ⟨hcount.le, fun _ => hcount⟩
    · have hcount := n.answerCount_rejects (i := i) hsingle hd
      exact ⟨hcount.le, fun _ => hcount⟩
  · rename_i d d' ds hmany
    have hcount := n.answerCount_rejects (i := i) hmany h
    exact ⟨hcount.le, fun _ => hcount⟩

/-- **One answer per interest**, exactly when the handler keeps to one put. -/
theorem answeredOnce_iff (i : Interest) (s : σ) :
    n.AnsweredOnce i s ↔
      ∀ path run, n.reached i s = some (path, run) → n.PutsOnce path run := by
  rw [AnsweredOnce]
  cases hreach : n.reached i s with
  | none =>
    rw [n.length_packets_onInterest_of_not_reached hreach]
    simp
  | some pr =>
    obtain ⟨path, run⟩ := pr
    rw [n.length_packets_onInterest_of_reached hreach]
    constructor
    · rintro ⟨hle, -⟩ path' run' heq
      obtain ⟨rfl, rfl⟩ := Prod.mk.inj (Option.some.inj heq)
      exact n.putsOnce_of_answerCount_le hle
    · intro hcond
      obtain ⟨hle, hone⟩ := n.answerCount_of_putsOnce (hcond path run rfl) i
      refine ⟨hle, fun path' run' heq hret => ?_⟩
      obtain ⟨rfl, rfl⟩ := Prod.mk.inj (Option.some.inj heq)
      exact hone hret

/-- A handler that puts a Nack and returns `false`. -/
def nackingNode : NodeImpl Unit :=
  bareNode.routeName [] (fun s _ _ data =>
    (s, ⟨[data.setContentType ContentType_Nack], data, .ok false⟩)) [] []

/-- Its interest is answered by the Nack and by the Data it was given. -/
theorem nackingNode_not_answeredOnce :
    ¬ nackingNode.AnsweredOnce ⟨[Component.of "P"], []⟩ () :=
  fun h => absurd h.1 (by decide)

end NodeImpl
end Nacapp
