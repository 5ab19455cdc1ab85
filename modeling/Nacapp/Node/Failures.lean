import Nacapp.Node.Answers
import Nacapp.Node.Registrations

/-!
# How failures leave the node

An answer is addressed to its interest: an `lp::Nack` for it, or a Data under its name
that is not of content type Nack.  `sendData` keeps to that, and converts the Nacks of the
application, because a Nack that leaves as Data crashes the peers that read it.  Whatever
is thrown on the way takes the other exit, `onFailed`, which builds such a Data itself and
does not name it.  So the answers of an interest are addressed to it exactly when nothing
is thrown while it is handled and the processors leave name and type alone
(`addressed_iff`).
-/

namespace Nacapp
namespace NodeImpl

variable {σ : Type} (n : NodeImpl σ)

/-- The packet is an answer to the interest that its sender will take for one. -/
def Addressed (i : Interest) : Packet → Prop
  | .nack j => j = i
  | .data d => i.name <+: d.name ∧ d.contentType ≠ ContentType_Nack

instance (i : Interest) (p : Packet) : Decidable (Addressed i p) := by
  unfold Addressed
  cases p <;> infer_instance

/-- A put of this Data succeeds and keeps it addressed: it is a Nack, which is converted,
or the processors return it under the name of the interest and without making a Nack of
it. -/
def PutsAddressed (path : Name) (i : Interest) (d : Data) : Prop :=
  d.contentType = ContentType_Nack ∨
    ∃ p, n.process path d = .ok p ∧ i.name <+: p.name ∧ p.contentType ≠ ContentType_Nack

/-! ## One packet -/

/-- **What `onFailed` puts is addressed to nobody.** -/
theorem not_addressed_onFailed (i : Interest) (reason : Bytes) :
    ¬ Addressed i (n.onFailed reason) := fun h => h.2 rfl

theorem addressed_signed_iff (i : Interest) (p : Data) :
    Addressed i (.data (defaultFreshness (n.signIfUnsigned p))) ↔
      i.name <+: p.name ∧ p.contentType ≠ ContentType_Nack := by
  have hsign : (n.signIfUnsigned p).name = p.name ∧
      (n.signIfUnsigned p).contentType = p.contentType := by
    rw [signIfUnsigned]
    split
    · exact ⟨rfl, rfl⟩
    · exact ⟨rfl, rfl⟩
  rw [← hsign.1, ← hsign.2, defaultFreshness]
  split
  · exact Iff.rfl
  · exact Iff.rfl

theorem putsAddressed_iff (path : Name) (i : Interest) (d : Data) :
    n.PutsAddressed path i d ↔
      ∃ p sent, n.sendData path i d = .ok (p, sent) ∧ Addressed i p := by
  rw [PutsAddressed, sendData]
  by_cases hnack : d.contentType = ContentType_Nack
  · rw [if_pos hnack]
    exact iff_of_true (Or.inl hnack) ⟨.nack i, false, rfl, rfl⟩
  · rw [if_neg hnack]
    cases hproc : n.process path d with
    | error e =>
      refine iff_of_false ?_ ?_
      · rintro (h | ⟨p, h, -⟩)
        · exact hnack h
        · exact Except.noConfusion rfl rfl (heq_of_eq h)
      · rintro ⟨p, sent, h, -⟩
        exact absurd h (by simp [bind, Except.bind])
    | ok p =>
      constructor
      · rintro (h | ⟨q, hq, haddressed⟩)
        · exact absurd h hnack
        · obtain rfl := Except.ok.inj hq
          exact ⟨_, true, rfl, (n.addressed_signed_iff i p).mpr haddressed⟩
      · rintro ⟨q, sent, hq, haddressed⟩
        obtain ⟨rfl, rfl⟩ := Prod.mk.inj (Except.ok.inj hq)
        exact Or.inr ⟨p, rfl, (n.addressed_signed_iff i p).mp haddressed⟩

/-! ## The packets of one interest -/

/-- The puts of a handler. -/
theorem addressed_issuePuts_iff (path : Name) (i : Interest) (ds : List Data) :
    (n.issuePuts path i ds).2.2 = none ∧
        (∀ p ∈ packets (n.issuePuts path i ds).1, Addressed i p) ↔
      ∀ d ∈ ds, n.PutsAddressed path i d := by
  induction ds with
  | nil => simp [issuePuts]
  | cons d ds ih =>
    rw [List.forall_mem_cons, ← ih, putsAddressed_iff, issuePuts]
    rcases n.sendData path i d with e | ⟨p, sent⟩
    · simp
    · simp [and_left_comm]

/-- What `onFailed` adds is never addressed. -/
theorem not_forall_addressed_append (i : Interest) (ps : List Packet) (reason : Bytes) :
    ¬ ∀ p ∈ ps ++ [n.onFailed reason], Addressed i p := fun h =>
  n.not_addressed_onFailed i reason (h _ (List.mem_append_right _ List.mem_cons_self))

/-- The packets of a run of the handler. -/
theorem addressed_answer_iff (path : Name) (i : Interest) (run : HandlerRun) :
    (∀ p ∈ n.answerPackets path i run, Addressed i p) ↔
      run.outcome.isOk = true ∧ ∀ d ∈ offered run, n.PutsAddressed path i d := by
  have hputs := n.addressed_issuePuts_iff path i run.puts
  have hflag := n.issuePuts_sent_eq_false_iff path i run.puts
  rw [answerPackets, answer, offered]
  rcases hissue : n.issuePuts path i run.puts with ⟨events, sent, _ | e⟩
  · rw [hissue] at hputs hflag
    simp only [true_and] at hputs
    have hflag := hflag rfl
    rcases hout : run.outcome with e | _ | _
    · exact iff_of_false (n.not_forall_addressed_append i _ _) fun h => Bool.noConfusion h.1
    · cases sent with
      | true =>
        have hsome : ¬ ∀ d ∈ run.puts, d.contentType = ContentType_Nack :=
          fun h => Bool.noConfusion (hflag.mpr h)
        rw [if_neg fun h => hsome h.2, List.append_nil, ← hputs]
        simp [Except.isOk, Except.toBool]
      | false =>
        rw [if_pos ⟨rfl, hflag.mp rfl⟩, List.forall_mem_append, ← hputs, List.forall_mem_singleton,
          putsAddressed_iff]
        rcases n.sendData path i run.data with e | ⟨p, sent'⟩
        · exact iff_of_false (n.not_forall_addressed_append i _ _) (by simp)
        · simp [Except.isOk, Except.toBool, or_imp, forall_and]
    · rw [if_neg (by simp), List.append_nil, ← hputs]
      simp [Except.isOk, Except.toBool]
  · rw [hissue] at hputs
    refine iff_of_false (n.not_forall_addressed_append i _ _) fun h => ?_
    have hthrown := hputs.mpr fun d hd => h.2 d (List.mem_append_left _ hd)
    exact absurd hthrown.1 (by simp)

/-- **Every answer is addressed to its interest**, exactly when it reaches a handler that
returns, and every put of the handling succeeds and keeps what is put addressed. -/
theorem addressed_iff (i : Interest) (s : σ) :
    (∀ p ∈ packets (n.onInterest i s).2, Addressed i p) ↔
      ∃ path run, n.reached i s = some (path, run) ∧ run.outcome.isOk = true ∧
        ∀ d ∈ offered run, n.PutsAddressed path i d := by
  cases hreach : n.reached i s with
  | none =>
    obtain ⟨reason, hpackets⟩ := n.packets_onInterest_of_not_reached hreach
    rw [hpackets]
    exact iff_of_false (n.not_forall_addressed_append i [] reason) (by simp)
  | some reachedRun =>
    obtain ⟨path, run⟩ := reachedRun
    rw [n.packets_onInterest_of_reached hreach, addressed_answer_iff]
    simp

/-- An interest outside the prefix of the node is answered by a Data without a name. -/
theorem not_addressed_outside_prefix :
    ¬ ∀ p ∈ packets (bareNode.onInterest ⟨[Component.of "Q"], []⟩ ()).2,
      Addressed ⟨[Component.of "Q"], []⟩ p := by
  decide

end NodeImpl
end Nacapp
