import Nacapp.Manager.Requests

/-!
# Requests that lack an argument

What a handler of the manager needs from a request, and what becomes of a request that does
not have it.  `onGetDKey`, `onRevoke` and `onRead` look before they read, and `onGetEKey`
looks at the data type; the Exclude of a request for an E-KEY and the two arguments of a grant
are read as they come.  The handlers for identities take whatever is behind the route for a
name, also nothing at all: a removal of the empty name is answered as one that succeeded, and to
add it an interest is shown.

* `rejects_of_lacks`: a request that lacks an argument is rejected and changes nothing, if its
  handler has a meaning and, for an identity, the empty name is looked up in vain
  (`getIdentity_nil_run`: in a run of the service it always is).
* `requestChecked_iff`: these two conditions are all it takes.
-/

namespace Nacapp
namespace Service

/-! ## What a handler needs -/

/-- The request does not have what the handler of its route needs: a key type it knows, for an
E-KEY a data type and a time, for a D-KEY the four arguments, for an identity its name, and for
the access the two names. -/
def LacksArguments : ServiceRoute → Interest → Name → Prop
  | .read, interest, args =>
    let (location, keyType, keyArgs) := parseReadArgs args
    (keyType.toUri = bytes "/E-KEY" → location = [] ∨ interest.exclude = []) ∧
      (keyType.toUri ≠ bytes "/E-KEY" → keyType.toUri = bytes "/D-KEY" → keyArgs.length < 4)
  | .identityFor, _, args | .identityAdd, _, args | .identityRemove, _, args => args = []
  | .accessGrant, _, args | .accessRevoke, _, args => args.length < 2

/-- The run of a handler that rejects: nothing is put, and an exception is thrown or the Data
left a Nack. -/
def RejectingRun (run : HandlerRun) : Prop :=
  run.puts = [] ∧ ((∃ e, run.outcome = .error e) ∨
    (run.outcome = .ok false ∧ run.data.contentType = ContentType_Nack))

theorem rejectingRun_error (data : Data) (e : Exn) : RejectingRun ⟨[], data, .error e⟩ :=
  ⟨rfl, Or.inl ⟨e, rfl⟩⟩

theorem rejectingRun_nacked (data : Data) : RejectingRun (nacked data) := ⟨rfl, Or.inr ⟨rfl, rfl⟩⟩

variable {L : GroupLib} {E : ServiceEnv} {s : Service L}

variable (s) in
/-- A request to add or to remove an identity names one; and a request for the key of an identity
names one, or no identity is filed under the empty name. -/
def NamesIdentity : ServiceRoute → Name → Prop
  | .identityFor, args => args = [] → s.manager.getIdentity [] = none
  | .identityAdd, args | .identityRemove, args => args ≠ []
  | _, _ => True

/-- No run of the service files an identity under the empty name. -/
theorem getIdentity_nil_run (E : ServiceEnv) (p : Name) (keysize : ℕ)
    (events : List ServiceEvent) :
    ((ofPrefix L p keysize).run E events).manager.getIdentity [] = none := by
  refine Option.eq_none_iff_forall_ne_some.mpr fun cert hcert => ?_
  have hname : cert.name = [] :=
    Name.toUri_injective ((filed_run E p keysize events).identities _ cert hcert)
  have hformat := cert.isCertificate
  rw [isCertificate, show cert.data.name = [] from hname] at hformat
  exact absurd hformat (by simp [isCertificateName])

/-- **A request that lacks an argument is rejected** and leaves the service as it was, as long
as its handler has a meaning and nothing is found under the empty name. -/
theorem rejects_of_lacks {route : ServiceRoute} {i : Interest} {args : Name}
    (hlacks : LacksArguments route i args) (hhas : HasArguments route i args)
    (hnames : s.NamesIdentity route args) (data : Data) :
    ∃ run, s.handle E route i args data = some (s, run) ∧ RejectingRun run := by
  cases route with
  | read =>
    rw [LacksArguments] at hlacks
    rw [HasArguments] at hhas
    show ∃ run, s.onRead E i args data = _ ∧ _
    rw [onRead]
    generalize parseReadArgs args = parts at hlacks hhas
    obtain ⟨location, keyType, keyArgs⟩ := parts
    dsimp only at hlacks hhas ⊢
    by_cases hekey : keyType.toUri = bytes "/E-KEY"
    · have hlocation : location = [] := by
        by_contra hne
        exact hhas hekey hne ((hlacks.1 hekey).resolve_left hne)
      rw [if_pos hekey, onGetEKey, hlocation, if_pos (by simp)]
      exact ⟨_, rfl, rejectingRun_error _ _⟩
    · rw [if_neg hekey]
      by_cases hdkey : keyType.toUri = bytes "/D-KEY"
      · rw [if_pos hdkey, onGetDKey, if_pos (hlacks.2 hekey hdkey)]
        exact ⟨_, rfl, rejectingRun_nacked _⟩
      · rw [if_neg hdkey]
        exact ⟨_, rfl, rfl, Or.inr ⟨rfl, rfl⟩⟩
  | accessGrant =>
    show ∃ run, s.onGrant E args data = _ ∧ _
    rcases args with _ | ⟨first, _ | ⟨second, rest⟩⟩
    · exact absurd hhas id
    · obtain ⟨e, he⟩ := hhas
      rw [onGrant, List.getElem?_cons_zero]
      simp only [he]
      exact ⟨_, rfl, rejectingRun_error _ _⟩
    · rw [LacksArguments, List.length_cons, List.length_cons] at hlacks
      omega
  | accessRevoke =>
    show ∃ run, some (s.onRevoke E args data) = _ ∧ _
    rcases args with _ | ⟨first, _ | ⟨second, rest⟩⟩
    · exact ⟨_, rfl, rejectingRun_error _ _⟩
    · exact ⟨_, rfl, rejectingRun_error _ _⟩
    · rw [LacksArguments, List.length_cons, List.length_cons] at hlacks
      omega
  | identityFor =>
    show ∃ run, some (s, s.onGetIdentityKey i args data) = _ ∧ _
    obtain rfl : args = [] := hlacks
    rw [onGetIdentityKey_of_none (hnames rfl)]
    exact ⟨_, rfl, rejectingRun_nacked _⟩
  | identityAdd => exact absurd hlacks hnames
  | identityRemove => exact absurd hlacks hnames

/-! ## At the node -/

section Node

variable (L E) (servicePrefix : Name) (keychain : KeyChain)

/-- The interest is answered with a Nack or with the reason of an exception. -/
def Rejected (i : Interest) (s : Option (Service L)) : Prop :=
  let n := node E L servicePrefix keychain
  NodeImpl.packets (n.onInterest i s).2 = [.nack i] ∨
    ∃ reason, NodeImpl.packets (n.onInterest i s).2 = [n.onFailed reason]

/-- The handler of the request reads nothing that is not there, and a request that lacks what
the handler needs is rejected and changes nothing. -/
def RequestChecked (route : ServiceRoute) (i : Interest) (args : Name) (s : Service L) : Prop :=
  let n := node E L servicePrefix keychain
  (n.onInterest i (some s)).1.isSome ∧
    (LacksArguments route i args →
      (n.onInterest i (some s)).1 = some s ∧ Rejected L E servicePrefix keychain i (some s))

theorem rejected_of_rejectingRun {i : Interest} {route : ServiceRoute} {args : Name}
    (h : i.name = servicePrefix ++ (route.path ++ args)) {s s' : Service L} {run : HandlerRun}
    (hrun : s.handle E route i args (Data.empty.setName i.name) = some (s', run))
    (hrejecting : RejectingRun run) :
    Rejected L E servicePrefix keychain i (some s) := by
  have hputs : ∀ path, (node E L servicePrefix keychain).issuePuts path i run.puts =
      ([], false, none) := by
    intro path
    rw [hrejecting.1]
    rfl
  rw [Rejected, onInterest_route L E servicePrefix keychain h hrun, NodeImpl.answer, hputs]
  rcases hrejecting.2 with ⟨e, he⟩ | ⟨hfalse, hnack⟩
  · rw [he]
    exact Or.inr ⟨e.reason, rfl⟩
  · rw [hfalse]
    dsimp only
    rw [NodeImpl.sendData_nack _ hnack]
    exact Or.inl rfl

/-- What is rejected is not answered by a Data with a name, nor left for later. -/
theorem not_rejected {i : Interest} {t : Option (Service L)} {packets : List Packet}
    (hpackets : NodeImpl.packets ((node E L servicePrefix keychain).onInterest i t).2 = packets)
    (h : packets = [] ∨ ∃ d : Data, packets = [.data d] ∧ d.name ≠ []) :
    ¬ Rejected L E servicePrefix keychain i t := by
  rw [Rejected, hpackets]
  rcases h with rfl | ⟨d, rfl, hname⟩
  · rintro (hnack | ⟨reason, hfailed⟩)
    · exact absurd hnack (by simp)
    · exact absurd hfailed (by simp)
  · rintro (hnack | ⟨reason, hfailed⟩)
    · exact absurd hnack (by simp)
    · rw [NodeImpl.onFailed, List.singleton_inj, Packet.data.injEq] at hfailed
      exact hname (by rw [hfailed]; rfl)

/-- A request that is checked names an identity, if it is about one. -/
theorem namesIdentity_of_requestChecked {route : ServiceRoute} {i : Interest} {args : Name}
    (h : i.name = servicePrefix ++ (route.path ++ args)) {s : Service L}
    (hchecked : RequestChecked L E servicePrefix keychain route i args s) :
    s.NamesIdentity route args := by
  have hname : i.name ≠ [] := by
    rw [h]
    exact List.append_ne_nil_of_right_ne_nil _
      (List.append_ne_nil_of_left_ne_nil (path_ne_nil route) _)
  have hsent {path : Name} {d : Data} (htype : d.contentType ≠ ContentType_Nack) :=
    (node E L servicePrefix keychain).sendData_of_process htype
      (NodeImpl.process_of_withoutProcessors
        (withoutProcessors_node L E servicePrefix keychain) path d) i
  cases route with
  | identityFor =>
    rintro rfl
    by_contra hsome
    obtain ⟨cert, hcert⟩ := Option.ne_none_iff_exists'.mp hsome
    have htype : (cert.data.setName i.name).contentType ≠ ContentType_Nack := by
      rw [show (cert.data.setName i.name).contentType = cert.data.contentType from rfl,
        cert.contentType_eq_key]
      decide
    have hrun : s.handle E .identityFor i [] (Data.empty.setName i.name) =
        some (s, ⟨[cert.data.setName i.name], Data.empty.setName i.name, .ok false⟩) :=
      congrArg (fun run => some (s, run)) (onGetIdentityKey_of_some hcert i _)
    refine not_rejected L E servicePrefix keychain rfl (Or.inr
      ⟨NodeImpl.defaultFreshness ((node E L servicePrefix keychain).signIfUnsigned
        (cert.data.setName i.name)), ?_, ?_⟩) (hchecked.2 rfl).2
    · rw [onInterest_route L E servicePrefix keychain h hrun, NodeImpl.answer, NodeImpl.issuePuts,
        hsent htype]
      rfl
    · rw [NodeImpl.name_defaultFreshness_signIfUnsigned]
      exact hname
  | identityAdd =>
    rintro rfl
    have hrun : s.handle E .identityAdd i [] (Data.empty.setName i.name) =
        some (s.onAddIdentity i [] (Data.empty.setName i.name)) := rfl
    refine not_rejected L E servicePrefix keychain rfl (Or.inl ?_) (hchecked.2 rfl).2
    rw [onInterest_route L E servicePrefix keychain h hrun]
    rfl
  | identityRemove =>
    rintro rfl
    have htype : (Data.empty.setName i.name).contentType ≠ ContentType_Nack := by
      show ContentType_Blob ≠ ContentType_Nack
      decide
    have hrun : s.handle E .identityRemove i [] (Data.empty.setName i.name) =
        some (s.onRemoveIdentity [] (Data.empty.setName i.name)) := rfl
    refine not_rejected L E servicePrefix keychain rfl (Or.inr
      ⟨NodeImpl.defaultFreshness ((node E L servicePrefix keychain).signIfUnsigned
        (Data.empty.setName i.name)), ?_, ?_⟩) (hchecked.2 rfl).2
    · rw [onInterest_route L E servicePrefix keychain h hrun, NodeImpl.answer]
      simp only [NodeImpl.issuePuts, hsent htype]
      rfl
    · rw [NodeImpl.name_defaultFreshness_signIfUnsigned]
      exact hname
  | read => trivial
  | accessGrant => trivial
  | accessRevoke => trivial

/-- **No handler reads an argument that is not there, and short requests are rejected**, exactly
when a request for an E-KEY of some data type has an Exclude with an entry, a grant has two
arguments, or one that does not decode, and a request about an identity names one, or asks for a
key that nobody has. -/
theorem requestChecked_iff {route : ServiceRoute} {i : Interest} {args : Name}
    (h : i.name = servicePrefix ++ (route.path ++ args)) (s : Service L) :
    RequestChecked L E servicePrefix keychain route i args s ↔
      HasArguments route i args ∧ s.NamesIdentity route args := by
  have hsome : ((node E L servicePrefix keychain).onInterest i (some s)).1.isSome ↔
      HasArguments route i args := by
    rw [onInterest_isSome_iff]
    constructor
    · exact fun hharmless =>
        hharmless _ route (parseInterestName_route L E servicePrefix keychain h) rfl
    · intro hhas parts route' hparse hpath
      rw [parseInterestName_route L E servicePrefix keychain h] at hparse
      rw [← Except.ok.inj hparse] at hpath ⊢
      rwa [← path_injective hpath]
  constructor
  · intro hchecked
    exact ⟨hsome.mp hchecked.1, namesIdentity_of_requestChecked L E servicePrefix keychain h
      hchecked⟩
  · rintro ⟨hhas, hnames⟩
    refine ⟨hsome.mpr hhas, fun hlacks => ?_⟩
    obtain ⟨run, hrun, hrejecting⟩ := rejects_of_lacks (E := E) (s := s) hlacks hhas hnames
      (Data.empty.setName i.name)
    refine ⟨?_, rejected_of_rejectingRun L E servicePrefix keychain h hrun hrejecting⟩
    rw [onInterest_route L E servicePrefix keychain h hrun]

end Node

/-- The name of a request for the E-KEY of a data type. -/
def ekeyRequest : Name := [Component.of "manager", Component.of "READ", Component.of "health",
  Component.of "E-KEY"]

/-- With a time in its Exclude the request is checked. -/
theorem ekeyRequest_checked :
    RequestChecked memoryGroups isoTimes [Component.of "manager"] ⟨bytes "manager"⟩ .read
      ⟨ekeyRequest, [Component.of "20170703T000000"]⟩ [Component.of "health", Component.of "E-KEY"]
      (ofPrefix memoryGroups [Component.of "manager"] 2048) :=
  (requestChecked_iff memoryGroups isoTimes [Component.of "manager"] ⟨bytes "manager"⟩
    (i := ⟨ekeyRequest, [Component.of "20170703T000000"]⟩) rfl _).mpr
    ⟨fun _ _ => List.cons_ne_nil _ _, trivial⟩

/-- Without an Exclude the handler reads the first entry all the same. -/
theorem ekeyRequest_reads_empty_exclude :
    ¬ ∀ (L : GroupLib) (E : ServiceEnv) (servicePrefix : Name) (keychain : KeyChain)
      (route : ServiceRoute) (i : Interest) (args : Name) (s : Service L),
      i.name = servicePrefix ++ (route.path ++ args) →
        RequestChecked L E servicePrefix keychain route i args s := by
  intro h
  have hchecked := h memoryGroups isoTimes [Component.of "manager"] ⟨bytes "manager"⟩ .read
    ⟨ekeyRequest, []⟩ [Component.of "health", Component.of "E-KEY"]
    (ofPrefix memoryGroups [Component.of "manager"] 2048) rfl
  exact absurd hchecked.1 (by decide +kernel)

end Service
end Nacapp
