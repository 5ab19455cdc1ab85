import Nacapp.Bootstrap.Outcomes

/-!
# The guess limit

The handler of `serveDeviceUnsignedCert` counts the invalid requests it refuses and calls
`onFail` when there were too many.  Two things keep this from being a limit of `retryMax`.

* The comparison `(*retry)++ > *retryMax` reads the counter before it grows, and is strict, so
  it is first true of the twelfth invalid request.
* The handler stays installed, and answers a valid request after `onFail` as before.

`guessLimit_iff`: the limit holds exactly of the runs with at most ten invalid requests, in
which it is never reached.
-/

namespace Nacapp.Bootstrap

open Transitions SymbolicMac HmacText

variable {α : Type} [DecidableEq α]

/-! ## Requests and answers -/

/-- A request whose HMAC does not fit, or that has no HMAC. -/
def Event.isInvalidRequest (E : Env α) : Event α → Bool
  | .request args =>
    E.text.validateOwnerRequest (E.nodePrefix ++ args) args E.pairCode ≠ some true
  | _ => false

/-- A call of `onFail`. -/
def Output.isFail {α : Type} : Output α → Bool
  | .onFail _ => true
  | _ => false

namespace Run

/-- The handler is installed for the certificate and has refused `retry` requests; the owner's
response was received. -/
def Serves (s : Run α) (cert : Certificate) (retry : ℕ) : Prop :=
  s.serving = some ⟨cert, retry⟩ ∧ s.awaitingOwner = false

/-- What the receiver of `startBootstrap` installs serves the certificate it generated. -/
theorem serves_of_receiveOwnerCert {E : Env α} {s : Run α} {d : TextData α} {dname : List α}
    {owner : Certificate} {id : Identity} (hawaiting : s.awaitingOwner = false)
    (hvalid : E.text.validateOwnerCertResp d s.randomNo E.pairCode = some true)
    (hextract : E.text.extractOwnerCert E.toCertificateCodec d = some (dname, owner))
    (hid : E.createIdentity dname = some id) :
    (s.receiveOwnerCert E d).1.Serves id.defaultCertificate 0 := by
  have hreceive : s.receiveOwnerCert E d =
      ({ s.onOwnerCert owner with serving := some ⟨id.defaultCertificate, 0⟩ },
        [.ownerCert owner]) := by
    unfold receiveOwnerCert
    rw [hvalid]
    dsimp only
    rw [hextract]
    dsimp only
    rw [hid]
  rw [hreceive]
  exact ⟨rfl, (onOwnerCert_awaitingOwner s owner).trans hawaiting⟩

/-- What the handler does for a valid request: it puts the certificate with its HMAC, or asks
for the signed one. -/
def AnswersValid (E : Env α) (cert : Certificate) (outs : List (Output α)) : Prop :=
  .data (E.text.hmacSignUnsignedCert E.toCertificateCodec cert E.pairId E.pairCode) ∈ outs ∨
    .interest (E.text.deviceCertName E.wellknown E.pairId) ∈ outs

/-! ## One step -/

variable {E : Env α} {s : Run α} {cert : Certificate} {retry : ℕ}

/-- **A step of the handler**: it counts invalid requests only, and fails on one that comes when
it has counted more than ten. -/
theorem Serves.step (h : s.Serves cert retry) (e : Event α) :
    ∃ retry', (s.step E e).Serves cert retry' ∧
      (retry' = retry ∨ retry' = retry + 1 ∧ e.isInvalidRequest E = true) ∧
      ((s.out E e).any Output.isFail = true → 10 < retry ∧ e.isInvalidRequest E = true) := by
  obtain ⟨hserving, hawaiting⟩ := h
  have hsame : ∀ {serving : Serving}, s.serving = some serving → serving = ⟨cert, retry⟩ :=
    fun heq => Option.some.inj (heq.symm.trans hserving)
  have hinvalid : ∀ {args : TextName α},
      E.text.validateOwnerRequest (E.nodePrefix ++ args) args E.pairCode = some false →
        (Event.request args).isInvalidRequest E = true := by
    intro args hargs
    rw [Event.isInvalidRequest, hargs]
    decide
  have hawaits : (s.step E e).awaitingOwner = false := awaitingOwner_step hawaiting e
  have hreaction := reaction (E := E) s e
  generalize s.step E e = s', s.out E e = outs at hreaction hawaits
  cases hreaction with
  | quiet _ hserv _ _ _ => exact ⟨retry, ⟨hserv.trans hserving, hawaits⟩, Or.inl rfl, nofun⟩
  | ownerRefused _ hawaits' _ => exact Bool.noConfusion (hawaiting.symm.trans hawaits')
  | ownerAccepted _ hawaits' _ _ _ => exact Bool.noConfusion (hawaiting.symm.trans hawaits')
  | served => exact ⟨retry, ⟨hserving, hawaits⟩, Or.inl rfl, nofun⟩
  | refused he hserv hargs _ =>
    obtain rfl := hsame hserv
    subst he
    exact ⟨retry + 1, ⟨rfl, hawaits⟩, Or.inr ⟨rfl, hinvalid hargs⟩, nofun⟩
  | refusedForGood he hserv hargs hretry =>
    obtain rfl := hsame hserv
    subst he
    exact ⟨retry + 1, ⟨rfl, hawaits⟩, Or.inr ⟨rfl, hinvalid hargs⟩,
      fun _ => ⟨hretry, hinvalid hargs⟩⟩
  | installed => exact ⟨retry, ⟨hserving, hawaits⟩, Or.inl rfl, nofun⟩

/-! ## Runs -/

/-- The run has called `onFail`. -/
def HasFailed (E : Env α) (s : Run α) (events : List (Event α)) : Prop :=
  (s.outputs E events).any Output.isFail = true

instance (E : Env α) (s : Run α) (events : List (Event α)) : Decidable (s.HasFailed E events) :=
  inferInstanceAs (Decidable (_ = true))

/-- **`onFail` is late**: when it is called, more than eleven requests were invalid. -/
theorem Serves.lt_of_hasFailed {events : List (Event α)} (h : s.Serves cert retry)
    (hfailed : s.HasFailed E events) : 11 < retry + events.countP (Event.isInvalidRequest E) := by
  induction events generalizing s retry with
  | nil => exact Bool.noConfusion hfailed
  | cons e events ih =>
    obtain ⟨retry', hserves, hcount, hfail⟩ := h.step (E := E) e
    rw [HasFailed, outputs, emitted_cons, List.any_append, Bool.or_eq_true] at hfailed
    have hcons : (e :: events).countP (Event.isInvalidRequest E) =
        events.countP (Event.isInvalidRequest E) + if e.isInvalidRequest E then 1 else 0 :=
      List.countP_cons
    rcases hfailed with hfirst | hrest
    · obtain ⟨hretry, hinvalid⟩ := hfail hfirst
      rw [hcons, if_pos hinvalid]
      omega
    · have hlater := ih hserves hrest
      rcases hcount with rfl | ⟨rfl, hinvalid⟩
      · omega
      · rw [hcons, if_pos hinvalid]
        omega

/-- **The handler goes on**: a valid request is answered, however many were refused before. -/
theorem Serves.answersValid (h : s.Serves cert retry) (hrunning : s.halted = false)
    {args : TextName α}
    (hvalid : E.text.validateOwnerRequest (E.nodePrefix ++ args) args E.pairCode = some true) :
    AnswersValid E cert (s.out E (.request args)) := by
  have hserve : s.out E (.request args) = (s.serveDeviceUnsignedCert E ⟨cert, retry⟩ args).2 := by
    unfold out react
    rw [if_neg (by rw [hrunning]; decide), h.1]
  have hput : s.out E (.request args) =
      [.data (E.text.hmacSignUnsignedCert E.toCertificateCodec cert E.pairId E.pairCode),
        .interest (E.text.deviceCertName E.wellknown E.pairId)] := by
    rw [hserve, serveDeviceUnsignedCert]
    dsimp only
    rw [hvalid]
  rw [hput]
  exact Or.inl List.mem_cons_self

/-! ## The limit -/

/-- **The guess limit**: `onFail` is called with the eleventh invalid request, and no request
after that is answered as a valid one. -/
structure GuessLimit (E : Env α) (s : Run α) (cert : Certificate) (events : List (Event α)) :
    Prop where
  onTime : ∀ pre, pre <+: events →
    (s.HasFailed E pre ↔ 10 < pre.countP (Event.isInvalidRequest E))
  final : ∀ pre args post, events = pre ++ .request args :: post → s.HasFailed E pre →
    ¬ AnswersValid E cert ((s.run E pre).out E (.request args))

/-- **The guess limit holds** exactly of the runs in which at most ten requests are invalid. -/
theorem guessLimit_iff (E : Env α) (s : Run α) (cert : Certificate) (h : s.Serves cert 0)
    (events : List (Event α)) :
    GuessLimit E s cert events ↔ events.countP (Event.isInvalidRequest E) ≤ 10 := by
  constructor
  · intro hlimit
    by_contra hmany
    -- the eleventh invalid request ends a prefix of the run, and `onFail` was not called in it
    obtain ⟨pre, hpre, hcount⟩ :=
      exists_prefix_countP_eq (Event.isInvalidRequest E) (Nat.lt_of_not_le hmany)
    have hfailed := (hlimit.onTime pre hpre).mpr (by omega)
    have hlate := h.lt_of_hasFailed hfailed
    omega
  · intro hfew
    have hcalm : ∀ pre, pre <+: events → ¬ s.HasFailed E pre := by
      intro pre hpre hfailed
      have hlate := h.lt_of_hasFailed hfailed
      have hle := hpre.sublist.countP_le (p := Event.isInvalidRequest E)
      omega
    constructor
    · intro pre hpre
      have hle := hpre.sublist.countP_le (p := Event.isInvalidRequest E)
      exact iff_of_false (hcalm pre hpre) (by omega)
    · intro pre args post heq hfailed
      exact absurd hfailed (hcalm pre ⟨_, heq.symm⟩)

end Run

/-! ## Eleven guesses -/

deriving instance DecidableEq for Serving

/-- The device after the owner's answer. -/
def servingRun : Run (Symbol UInt8) := pairedRun.run pairedEnv (ownerEvents.take 1)

theorem serves_servingRun : servingRun.Serves deviceOwnCert 0 := by
  refine ⟨?_, ?_⟩ <;> decide +kernel

/-- A request with text where the HMAC belongs. -/
def guess : Event (Symbol UInt8) := .request [plain (bytes "r2"), plain (bytes "00")]

theorem guessLimit_iff_one_guess :
    Run.GuessLimit pairedEnv servingRun deviceOwnCert [guess] ↔
      [guess].countP (Event.isInvalidRequest pairedEnv) ≤ 10 :=
  Run.guessLimit_iff pairedEnv servingRun deviceOwnCert serves_servingRun [guess]

/-- After eleven guesses `onFail` is not called. -/
theorem eleven_guesses_tolerated :
    ¬ ∀ (E : Env (Symbol UInt8)) (s : Run (Symbol UInt8)) (cert : Certificate)
      (events : List (Event (Symbol UInt8))), s.Serves cert 0 → Run.GuessLimit E s cert events := by
  intro h
  have hlimit := h pairedEnv servingRun deviceOwnCert (List.replicate 11 guess) serves_servingRun
  have hcount : (List.replicate 11 guess).countP (Event.isInvalidRequest pairedEnv) = 11 := by
    decide +kernel
  have hcalm : ¬ servingRun.HasFailed pairedEnv (List.replicate 11 guess) := by decide +kernel
  refine hcalm ((hlimit.onTime _ List.prefix_rfl).mpr ?_)
  omega

end Nacapp.Bootstrap
