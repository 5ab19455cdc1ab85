import Nacapp.Bootstrap.Traces

/-!
# As many certificates as requests

Every valid request makes the device ask for a signed certificate, and every answer to such an
Interest may install one.  Between the two anything harmless may arrive, as long as the `int` that
counts the refused requests holds their number.

`installed_after_requests`: the certificates that are installed are exactly as many of those that
arrive as requests were served, whatever else was requested in between.  A certificate arrives
here in one call of the receiver.
-/

namespace Nacapp.Bootstrap

open Transitions SymbolicMac HmacText

variable {α : Type} [DecidableEq α] {E : Env α} {device : Option Identity}

/-! ## What may arrive in between -/

/-- A request whose HMAC fits. -/
def Event.isValidRequest (E : Env α) : Event α → Bool
  | .request args =>
    E.text.validateOwnerRequest (E.nodePrefix ++ args) args E.pairCode = some true
  | _ => false

/-- What may arrive at any time without ending the run: an answer to the first Interest, or a
request that can be checked. -/
def Event.isHarmless (E : Env α) : Event α → Bool
  | .ownerReply _ | .ownerTimeout | .ownerNack => true
  | .request args => (E.text.validateOwnerRequest (E.nodePrefix ++ args) args E.pairCode).isSome
  | _ => false

namespace Run

/-- The run goes on, and the device serves its unsigned certificate, with `r` requests refused. -/
structure Ready (s : Run α) (device : Option Identity) (r : ℕ) : Prop where
  running : s.halted = false
  serves : ∃ unsigned, s.Serves unsigned r
  device : s.session.deviceIdentity = device

omit [DecidableEq α] in
/-- An accepted owner makes a run ready. -/
theorem ready_accepted {s : Run α} (hrunning : s.halted = false) (owner : Certificate)
    (id : Identity) : (s.accepted owner id).Ready s.session.deviceIdentity 0 where
  running := (accepted_halted s owner id).trans hrunning
  serves := ⟨_, accepted_serves s owner id⟩
  device := accepted_deviceIdentity s owner id

/-- **A harmless event** leaves a run ready, succeeds with nothing, expresses one Interest when it
is a valid request, and counts when it is an invalid one. -/
theorem Ready.harmless {s : Run α} {r : ℕ} (h : s.Ready device r) {e : Event α}
    (he : e.isHarmless E = true) (hr : r + (if e.isInvalidRequest E then 1 else 0) ≤ INT_MAX) :
    ∃ s' outs, s.react E e = (s', outs) ∧
      s'.Ready device (r + if e.isInvalidRequest E then 1 else 0) ∧ .onSuccess ∉ outs ∧
      s'.fetching = s.fetching + if e.isValidRequest E then 1 else 0 := by
  obtain ⟨hrunning, ⟨unsigned, hserving, hended⟩, hdevice⟩ := id h
  have hquiet (he : e = .ownerNack ∨ (s.ownerAnswer E e).isSome = true) : s.react E e = (s, []) :=
    react_of_owner_ended hrunning hended he
  cases e with
  | ownerReply d => exact ⟨s, [], hquiet (Or.inr rfl), h, List.not_mem_nil, rfl⟩
  | ownerTimeout => exact ⟨s, [], hquiet (Or.inr rfl), h, List.not_mem_nil, rfl⟩
  | ownerNack => exact ⟨s, [], hquiet (Or.inl rfl), h, List.not_mem_nil, rfl⟩
  | request args =>
    obtain ⟨valid, hargs⟩ := Option.isSome_iff_exists.mp he
    cases valid with
    | true =>
      have hcount : (Event.request args).isInvalidRequest E = false := by
        rw [Event.isInvalidRequest, hargs]
        decide
      refine ⟨_, _, react_of_valid hrunning hserving hargs, ?_, by simp, ?_⟩
      · rw [hcount]
        exact ⟨hrunning, ⟨unsigned, hserving, hended⟩, hdevice⟩
      · rw [Event.isValidRequest, decide_eq_true hargs]
        rfl
    | false =>
      have hcount : (Event.request args).isInvalidRequest E = true := by
        rw [Event.isInvalidRequest, hargs]
        decide
      rw [hcount, if_pos rfl] at hr ⊢
      refine ⟨_, _, react_of_invalid hrunning hserving hargs hr, ⟨hrunning,
        ⟨unsigned, rfl, hended⟩, hdevice⟩, ?_, ?_⟩
      · unfold refusal
        split
        · simp
        · simp
      · rw [Event.isValidRequest, hargs]
        rfl
  | deviceCertReply d => exact absurd he Bool.false_ne_true
  | deviceCertTimeout => exact absurd he Bool.false_ne_true
  | deviceCertNack => exact absurd he Bool.false_ne_true

/-- Harmless events. -/
theorem Ready.run_harmless {s : Run α} {r : ℕ} (h : s.Ready device r) {events : List (Event α)}
    (hevents : ∀ e ∈ events, e.isHarmless E = true)
    (hr : r + events.countP (Event.isInvalidRequest E) ≤ INT_MAX) :
    (s.run E events).Ready device (r + events.countP (Event.isInvalidRequest E)) ∧
      .onSuccess ∉ s.outputs E events ∧
      (s.run E events).fetching = s.fetching + events.countP (Event.isValidRequest E) := by
  induction events generalizing s r with
  | nil => exact ⟨h, List.not_mem_nil, rfl⟩
  | cons e events ih =>
    rw [List.countP_cons] at hr
    obtain ⟨s', outs, hreact, hready, hnone, hfetching⟩ :=
      h.harmless (hevents e List.mem_cons_self) (by omega)
    obtain ⟨hready', hnone', hfetching'⟩ :=
      ih hready (fun e' he' => hevents e' (List.mem_cons_of_mem e he')) (by omega)
    have hcount : r + (events.countP (Event.isInvalidRequest E) +
        if e.isInvalidRequest E then 1 else 0) =
          r + (if e.isInvalidRequest E then 1 else 0) +
            events.countP (Event.isInvalidRequest E) := by
      omega
    rw [run_cons_of_react hreact, outputs_cons_of_react hreact, hfetching', hfetching,
      List.countP_cons, List.countP_cons, hcount]
    refine ⟨hready', fun hmem => ?_, by omega⟩
    exact (List.mem_append.mp hmem).elim hnone hnone'

/-! ## What arrives then -/

/-- A certificate that arrives when no Interest is outstanding is not received. -/
theorem outputs_of_fetching_eq_zero {s : Run α} (hrunning : s.halted = false)
    (hfetching : s.fetching = 0) (answers : List (TextData α)) :
    s.outputs E (answers.map .deviceCertReply) = [] := by
  induction answers with
  | nil => rfl
  | cons d answers ih =>
    rw [List.map_cons, outputs_cons_of_react (react_of_fetching_eq_zero hrunning rfl hfetching)]
    exact ih

/-- **As many certificates are installed as Interests are outstanding.** -/
theorem outputs_deviceCerts {s : Run α} {id : Identity} {r : ℕ} (h : s.Ready (some id) r)
    {answers : List (TextData α × Certificate)}
    (hanswers : ∀ a ∈ answers, E.ofContent a.1.content = some a.2 ∧
      E.acceptsCertificate id.defaultKey a.2 = true) :
    s.outputs E (answers.map fun a => .deviceCertReply a.1) =
      (answers.take s.fetching).flatMap fun a => [.deviceCert id.defaultKey a.2, .onSuccess] := by
  induction answers generalizing s with
  | nil => rw [List.take_nil]; rfl
  | cons a answers ih =>
    cases hfetching : s.fetching with
    | zero =>
      have hmap : ((a :: answers).map fun a => Event.deviceCertReply a.1) =
          ((a :: answers).map Prod.fst).map .deviceCertReply := by
        rw [List.map_map]
        rfl
      rw [hmap, outputs_of_fetching_eq_zero h.running hfetching]
      rfl
    | succ n =>
      obtain ⟨hcert, haccepts⟩ := hanswers a List.mem_cons_self
      have hinst : installable E s.session.deviceIdentity a.1 = some (id.defaultKey, a.2) := by
        unfold installable
        rw [hcert, h.device]
        exact if_pos haccepts
      have hreact := react_of_installable (e := .deviceCertReply a.1) h.running rfl
        (hfetching ▸ Nat.succ_pos n) hinst
      have hrest := ih (s := { s with fetching := s.fetching - 1 })
        ⟨h.running, h.serves, h.device⟩ fun b hb => hanswers b (List.mem_cons_of_mem a hb)
      rw [List.map_cons, outputs_cons_of_react hreact, hrest, List.take_succ_cons,
        List.flatMap_cons]
      dsimp only
      rw [hfetching, Nat.add_sub_cancel]
      rfl

theorem outputs_append (s : Run α) (events events' : List (Event α)) :
    s.outputs E (events ++ events') =
      s.outputs E events ++ (s.run E events).outputs E events' :=
  emitted_append (step E) (out E) s events events'

end Run

/-- **As many certificates as requests.**  The owner is accepted; then whatever harmless arrives,
with no more refused requests than the `int` counts; then certificates that fit the key of the
device.  Exactly as many of these are installed, in the
order in which they arrive, as there were valid requests before, and each is a success. -/
theorem installed_after_requests {session : Session} (hsession : isValidSession session = true)
    (hconfig : isValidConfig E.cfg = true) {randomNo : List α} {d : TextData α} {dname : List α}
    {owner : Certificate} {created id : Identity}
    (hvalid : E.text.validateOwnerCertResp d randomNo E.pairCode = some true)
    (hextract : E.text.extractOwnerCert E.toCertificateCodec d = some (dname, owner))
    (hcreated : E.createIdentity dname = some created) (hid : session.deviceIdentity = some id)
    {events : List (Event α)} (hevents : ∀ e ∈ events, e.isHarmless E = true)
    (hretry : events.countP (Event.isInvalidRequest E) ≤ INT_MAX)
    {answers : List (TextData α × Certificate)}
    (hanswers : ∀ a ∈ answers, E.ofContent a.1.content = some a.2 ∧
      E.acceptsCertificate id.defaultKey a.2 = true) :
    ∃ outs, .onSuccess ∉ outs ∧
      Run.shown E session randomNo
          (.ownerReply d :: (events ++ answers.map fun a => .deviceCertReply a.1)) =
        .interest (E.text.constructBootstrapName E.wellknown randomNo E.pairId E.pairCode) ::
          .ownerCert owner :: (outs ++
            (answers.take (events.countP (Event.isValidRequest E))).flatMap fun a =>
              [.deviceCert id.defaultKey a.2, .onSuccess]) := by
  have hreact := Run.react_of_accepted (s := Run.waiting session randomNo) rfl rfl hvalid hextract
    hcreated
  have hready := Run.ready_accepted (s := Run.waiting session randomNo) rfl owner created
  rw [show (Run.waiting session randomNo).session.deviceIdentity = some id from hid] at hready
  obtain ⟨hready', hnone, hfetching⟩ :=
    hready.run_harmless hevents ((Nat.zero_add _).trans_le hretry)
  have hinstalled := Run.outputs_deviceCerts hready' hanswers
  rw [hfetching, Run.accepted_fetching] at hinstalled
  have hcount : (Run.waiting session randomNo).fetching +
      events.countP (Event.isValidRequest E) = events.countP (Event.isValidRequest E) :=
    Nat.zero_add _
  rw [hcount] at hinstalled
  refine ⟨_, hnone, ?_⟩
  rw [Run.shown, Run.start_of_valid hsession hconfig]
  dsimp only
  rw [Run.outputs_cons_of_react hreact, Run.outputs_append, hinstalled]
  rfl

/-- The request of the owner, a guess, and the request once more. -/
def repeatedRequests : List (Event (Symbol UInt8)) :=
  ownerEvents.tail ++ [guess] ++ ownerEvents.tail

/-- Of the three certificates that arrive then, two are installed. -/
theorem two_of_three_installed :
    ∃ outs, .onSuccess ∉ outs ∧
      Run.shown pairedEnv pairedSession (plain (bytes "1923856"))
          (.ownerReply (responseOf (bytes "uns4fe") ownerText) ::
            (repeatedRequests ++ (List.replicate 3 (rogueReply, rogueCert)).map
              fun a => .deviceCertReply a.1)) =
        .interest (symbolic.constructBootstrapName pairedEnv.wellknown (plain (bytes "1923856"))
            pairedEnv.pairId pairedEnv.pairCode) ::
          .ownerCert ownCert :: (outs ++
            [.deviceCert pairedDevice.defaultKey rogueCert, .onSuccess,
              .deviceCert pairedDevice.defaultKey rogueCert, .onSuccess]) := by
  have hvalid : pairedEnv.text.validateOwnerCertResp (responseOf (bytes "uns4fe") ownerText)
      (plain (bytes "1923856")) pairedEnv.pairCode = some true := by
    decide +kernel
  have hextract : pairedEnv.text.extractOwnerCert pairedEnv.toCertificateCodec
      (responseOf (bytes "uns4fe") ownerText) = some (plain (bytes "/device"), ownCert) := by
    decide +kernel
  have hcreated : pairedEnv.createIdentity (plain (bytes "/device")) = some pairedDevice := rfl
  have hid : pairedSession.deviceIdentity = some pairedDevice := rfl
  have hevents : ∀ e ∈ repeatedRequests, e.isHarmless pairedEnv = true := by decide +kernel
  have hanswers : ∀ a ∈ List.replicate 3 (rogueReply, rogueCert),
      pairedEnv.ofContent a.1.content = some a.2 ∧
        pairedEnv.acceptsCertificate pairedDevice.defaultKey a.2 = true := by
    decide +kernel
  have htwo : repeatedRequests.countP (Event.isValidRequest pairedEnv) = 2 := by decide +kernel
  have hretry : repeatedRequests.countP (Event.isInvalidRequest pairedEnv) ≤ INT_MAX := by
    decide +kernel
  have hinstalled := installed_after_requests rfl (by decide) hvalid hextract hcreated hid hevents
    hretry hanswers
  rw [htwo] at hinstalled
  exact hinstalled

end Nacapp.Bootstrap
