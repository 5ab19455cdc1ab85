import Nacapp.Bootstrap.Outcomes
import Nacapp.Node.Parsing

/-!
# Malformed messages of the owner

What the device makes of messages that are not as the protocol has them.

* A response is split at `|` and its first field at `^`, the pieces are read by their positions,
  and a certificate is made of one of them.  `handlesOwnerReply_iff`: when all of them are there
  and everything but a response of the form `<dname>^<cert>|<nonce>|<hash>` is refused.
* A request carries its HMAC in the last component; it is looked for in the second argument.
  `ownerRequest_decided_iff`: when that decides whether the last component authenticates the rest
  of the name.
-/

namespace Nacapp

open SymbolicMac

namespace HmacText

variable {α : Type} [DecidableEq α] (H : HmacText α)

/-! ## Responses -/

/-- The pieces `extractOwnerCert` reads, before it makes a certificate of the second. -/
def ownerCertParts (d : TextData α) : Option (List α × List α) :=
  match Delimited.split H.bar d.content with
  | [] => none
  | dnameAndCert :: _ =>
    match Delimited.split H.caret dnameAndCert with
    | dname :: certHex :: _ => some (dname, certHex)
    | _ => none

theorem extractOwnerCert_eq (C : CertificateCodec α) (d : TextData α) :
    H.extractOwnerCert C d =
      (H.ownerCertParts d).bind fun parts => (C.ofHex parts.2).map fun cert => (parts.1, cert) := by
  rw [extractOwnerCert, ownerCertParts]
  rcases Delimited.split H.bar d.content with _ | ⟨dnameAndCert, fields⟩
  · rfl
  dsimp only
  rcases Delimited.split H.caret dnameAndCert with _ | ⟨dname, _ | ⟨certHex, rest⟩⟩
  · rfl
  · rfl
  · rfl

/-- The content is `<dname>^<certHex>|<nonce>|<hash>`, the pieces without separators in them, the
second that of a certificate, and the hash that of what stands before it. -/
def IsOwnerResponse (C : CertificateCodec α) (content nonce key : List α) : Prop :=
  ∃ dname certHex hash,
    (H.bar ∉ dname ++ H.caret :: certHex ∧ H.caret ∉ dname ∧ H.caret ∉ certHex ∧ H.bar ∉ hash) ∧
      (C.ofHex certHex).isSome ∧
      content = dname ++ H.caret :: certHex ++ H.bar :: (nonce ++ H.bar :: hash) ∧
      H.verifyHash (dname ++ H.caret :: certHex ++ H.bar :: nonce) key hash = true

/-- The field is two pieces with one caret between them, the second of them not empty and that
of a certificate. -/
def IsNamedCertificate (C : CertificateCodec α) (field : List α) : Prop :=
  ∃ dname certHex, field = dname ++ H.caret :: certHex ∧ H.caret ∉ dname ∧ H.caret ∉ certHex ∧
    certHex ≠ [] ∧ (C.ofHex certHex).isSome

/-- The content has three fields, and when the second is the nonce and the third the HMAC of the
first two, then there is nothing else, and the first is a name and a certificate. -/
def HasResponseFields (C : CertificateCodec α) (content nonce key : List α) : Prop :=
  ∃ cert r hash rest, Delimited.split H.bar content = cert :: r :: hash :: rest ∧
    (r = nonce → H.verifyHash (cert ++ H.bar :: r) key hash = true →
      content = cert ++ H.bar :: (r ++ H.bar :: hash) ∧ H.IsNamedCertificate C cert)

variable {H}

theorem validateOwnerCertResp_isSome_iff {d : TextData α} {nonce key : List α} :
    (H.validateOwnerCertResp d nonce key).isSome ↔
      ∃ cert r hash rest, Delimited.split H.bar d.content = cert :: r :: hash :: rest := by
  rw [validateOwnerCertResp]
  constructor
  · intro h
    split at h
    · rename_i cert r hash rest hsplit
      exact ⟨cert, r, hash, rest, hsplit⟩
    · exact absurd h (by simp)
  · rintro ⟨cert, r, hash, rest, hsplit⟩
    rw [hsplit]
    rfl

/-- A name and a certificate are extracted when the first field has two pieces, the second of
which decodes. -/
theorem extractOwnerCert_isSome_iff {C : CertificateCodec α} {d : TextData α} {cert : List α}
    {fields : List (List α)} (h : Delimited.split H.bar d.content = cert :: fields) :
    (H.extractOwnerCert C d).isSome ↔
      ∃ dname certHex rest, Delimited.split H.caret cert = dname :: certHex :: rest ∧
        (C.ofHex certHex).isSome := by
  rw [extractOwnerCert_eq, ownerCertParts, h]
  dsimp only
  rcases Delimited.split H.caret cert with _ | ⟨dname, _ | ⟨certHex, rest⟩⟩
  · simp
  · simp
  · simp

/-- What an authentic first part makes a response that a certificate can be extracted from. -/
theorem isOwnerResponse_iff_of_split {C : CertificateCodec α} {d : TextData α}
    {nonce key cert hash : List α} {rest : List (List α)}
    (h : Delimited.split H.bar d.content = cert :: nonce :: hash :: rest)
    (hhash : H.verifyHash (cert ++ H.bar :: nonce) key hash = true) :
    (H.extractOwnerCert C d).isSome ∧ H.IsOwnerResponse C d.content nonce key ↔
      d.content = cert ++ H.bar :: (nonce ++ H.bar :: hash) ∧ H.IsNamedCertificate C cert := by
  rw [extractOwnerCert_isSome_iff h]
  have hfree : ∀ field ∈ cert :: nonce :: hash :: rest, H.bar ∉ field :=
    h ▸ Delimited.notMem_of_mem_split
  have hcert : H.bar ∉ cert := hfree cert (by simp)
  have hnonce : H.bar ∉ nonce := hfree nonce (by simp)
  constructor
  · rintro ⟨⟨dname', certHex', pieces, hpieces, hdecodes'⟩, dname, certHex, hash',
      ⟨hbar, hdname, hcertHex, hhash'⟩, hdecodes, hcontent, -⟩
    -- the three fields are those of the form
    rw [hcontent, Delimited.split_append_delim hbar, Delimited.split_append_delim hnonce] at h
    obtain ⟨rfl, hlast⟩ := List.cons.inj h
    have hlast := (List.cons.inj hlast).2
    have hne : hash' ≠ [] := by
      rintro rfl
      exact absurd hlast (by simp)
    rw [Delimited.split_of_notMem hhash' hne] at hlast
    obtain ⟨rfl, -⟩ := List.cons.inj hlast
    refine ⟨hcontent, dname, certHex, rfl, hdname, hcertHex, ?_, hdecodes⟩
    rintro rfl
    rw [Delimited.split_append_delim hdname, Delimited.split_nil] at hpieces
    exact absurd hpieces (by simp)
  · rintro ⟨hcontent, dname, certHex, rfl, hdname, hcertHex, hne, hdecodes⟩
    refine ⟨⟨dname, certHex, [], ?_, hdecodes⟩, dname, certHex, hash,
      ⟨hcert, hdname, hcertHex, hfree hash (by simp)⟩, hdecodes, hcontent, hhash⟩
    rw [Delimited.split_append_delim hdname, Delimited.split_of_notMem hcertHex hne]

end HmacText

namespace Bootstrap.Run

open HmacText

variable {α : Type} [DecidableEq α] (E : Env α)

/-- A response is handled: every piece that is read is there, what is read for a certificate is
one, and what is no response is refused with `onFail`, nothing else being done. -/
structure HandlesOwnerReply (s : Run α) (e : Event α) (d : TextData α) : Prop where
  validated : (E.text.validateOwnerCertResp d s.randomNo E.pairCode).isSome
  extracted : E.text.validateOwnerCertResp d s.randomNo E.pairCode = some true →
    (E.text.extractOwnerCert E.toCertificateCodec d).isSome
  refused : ¬ E.text.IsOwnerResponse E.toCertificateCodec d.content s.randomNo E.pairCode →
    s.step E e = { s with awaitingOwner := false } ∧
      s.out E e = [.onFail (bytes "owner certificate is not valid.")]

variable {E}

/-- What is accepted is not refused. -/
theorem out_ne_onFail_of_valid {s : Run α} {e : Event α} {d : TextData α}
    (hd : s.ownerAnswer E e = some d)
    (hvalid : E.text.validateOwnerCertResp d s.randomNo E.pairCode = some true) :
    s.out E e ≠ [.onFail (bytes "owner certificate is not valid.")] := by
  intro hout
  have hreaction := reaction (E := E) s e
  generalize s.step E e = s', s.out E e = outs at hout hreaction
  cases hreaction with
  | ownerRefused hd' _ hinvalid =>
    obtain rfl := Option.some.inj (hd.symm.trans hd')
    rw [hvalid] at hinvalid
    exact absurd hinvalid (by simp)
  | _ => simp at hout

/-- **A malformed response fails cleanly** exactly when it has three fields, and, if the second is
the nonce and the third the HMAC of the first two, nothing more, one caret in the first, and a
certificate behind it.  In every state of a run that waits for the response, for a Data that
answers and for the one made up on a timeout. -/
theorem handlesOwnerReply_iff {s : Run α} {e : Event α} {d : TextData α}
    (hrunning : s.halted = false) (hawaiting : s.awaitingOwner = true)
    (hd : s.ownerAnswer E e = some d) :
    HandlesOwnerReply E s e d ↔
      E.text.HasResponseFields E.toCertificateCodec d.content s.randomNo E.pairCode := by
  constructor
  · intro h
    obtain ⟨cert, r, hash, rest, hsplit⟩ := validateOwnerCertResp_isSome_iff.mp h.validated
    refine ⟨cert, r, hash, rest, hsplit, fun hr hhash => ?_⟩
    rw [hr] at hsplit hhash
    have hvalid := validateOwnerCertResp_eq_true_iff.mpr ⟨cert, hash, rest, hsplit, hhash⟩
    rw [hr]
    refine (isOwnerResponse_iff_of_split hsplit hhash).mp ⟨h.extracted hvalid, ?_⟩
    by_contra hform
    exact out_ne_onFail_of_valid hd hvalid (h.refused hform).2
  · rintro ⟨cert, r, hash, rest, hsplit, hfields⟩
    have hvalidated : (E.text.validateOwnerCertResp d s.randomNo E.pairCode).isSome :=
      validateOwnerCertResp_isSome_iff.mpr ⟨cert, r, hash, rest, hsplit⟩
    have haccepted : E.text.validateOwnerCertResp d s.randomNo E.pairCode = some true →
        (E.text.extractOwnerCert E.toCertificateCodec d).isSome ∧
          E.text.IsOwnerResponse E.toCertificateCodec d.content s.randomNo E.pairCode := by
      intro hvalid
      obtain ⟨cert', hash', rest', hsplit', hhash⟩ := validateOwnerCertResp_eq_true_iff.mp hvalid
      rw [hsplit] at hsplit'
      obtain ⟨rfl, rfl, rfl, rfl⟩ :
          cert = cert' ∧ r = s.randomNo ∧ hash = hash' ∧ rest = rest' := by
        simpa using hsplit'
      exact (isOwnerResponse_iff_of_split hsplit hhash).mpr (hfields rfl hhash)
    refine ⟨hvalidated, fun hvalid => (haccepted hvalid).1, fun hform => ?_⟩
    obtain ⟨b, hb⟩ := Option.isSome_iff_exists.mp hvalidated
    cases b with
    | true => exact absurd (haccepted hb).2 hform
    | false => exact out_of_refusesOwner ⟨d, hrunning, hd, hawaiting, hb⟩

/-! ### A response that never comes -/

/-- A device that waits for the response, under a function that computes HMACs. -/
def waitingEnv (sign_hmac : Bytes → Bytes → Bytes) : Env UInt8 where
  wireEncode cert := cert.data.content
  ofHex _ := none
  ofContent _ := none
  text := onBytes sign_hmac
  createIdentity _ := none
  acceptsCertificate _ _ := false
  nodePrefix := [bytes "device"]
  cfg := ⟨bytes "Make1-Model2-Version345", bytes "uns4fe",
    [Component.of "local-home", Component.of "bootstrap"]⟩

/-- It starts with a key chain and the nonce `1d5a`. -/
def waitingRun (sign_hmac : Bytes → Bytes → Bytes) : Run UInt8 :=
  (Run.start (waitingEnv sign_hmac) ⟨some ⟨bytes "device-key"⟩, none, none, none⟩
    (bytes "1d5a")).1

/-- A response with another nonce is refused. -/
theorem otherNonce_handled :
    ¬ ∃ sign_hmac, ¬ HandlesOwnerReply (waitingEnv sign_hmac) (waitingRun sign_hmac)
      (.ownerReply ⟨[], bytes "home^00|1|00"⟩) ⟨[], bytes "home^00|1|00"⟩ := by
  rintro ⟨sign_hmac, h⟩
  refine h ((handlesOwnerReply_iff (s := waitingRun sign_hmac) rfl rfl rfl).mpr ?_)
  refine ⟨bytes "home^00", bytes "1", bytes "00", [], rfl, fun hr => ?_⟩
  exact absurd (show bytes "1" = bytes "1d5a" from hr) (by decide)

/-- The content that is made up on a timeout has one field, and the second is read. -/
theorem timeout_reads_past_the_end :
    ¬ ∃ sign_hmac, ∀ E : Env UInt8, E.text = onBytes sign_hmac →
      ∀ (s : Run UInt8) (e : Event UInt8) (d : TextData UInt8), s.halted = false →
        s.awaitingOwner = true → s.ownerAnswer E e = some d → HandlesOwnerReply E s e d := by
  rintro ⟨sign_hmac, h⟩
  have hhandled := h (waitingEnv sign_hmac) rfl (waitingRun sign_hmac) .ownerTimeout _ rfl rfl rfl
  have hnone : (onBytes sign_hmac).validateOwnerCertResp
      (timeoutData (waitingEnv sign_hmac) ((waitingRun sign_hmac).ownerCertName
        (waitingEnv sign_hmac))) (bytes "1d5a") (bytes "uns4fe") = none := rfl
  exact absurd hhandled.validated (by
    rw [show (waitingEnv sign_hmac).text.validateOwnerCertResp _ (waitingRun sign_hmac).randomNo
      (waitingEnv sign_hmac).pairCode = none from hnone]
    simp)

end Bootstrap.Run

/-! ## Requests -/

namespace HmacText

variable (sign_hmac : Bytes → Bytes → Bytes)

/-- The URI of the component is, up to case, the HMAC of the URI of the name without its last
component. -/
def AuthenticatesRest (key : Bytes) (name : Name) (c : Component) : Prop :=
  (onBytes sign_hmac).verifyHash (Name.toUri name.dropLast) key c.toUri = true

/-- The check of a request decides whether there are arguments and the last component of the name
authenticates the rest, and reads no component that is not there. -/
def DecidesOwnerRequest (key : Bytes) (name args : Name) : Prop :=
  let H := onBytes sign_hmac
  (H.validateOwnerRequest (H.ofName name) (H.ofName args) key).isSome ∧
    (H.validateOwnerRequest (H.ofName name) (H.ofName args) key = some true ↔
      args ≠ [] ∧ ∀ c ∈ name.getLast?, AuthenticatesRest sign_hmac key name c)

variable {sign_hmac}

/-- On bytes, a component is printed the way `Component::toUri()` prints it. -/
theorem componentToUri_onBytes (c : Component) :
    (onBytes sign_hmac).componentToUri c.value = c.toUri := by
  have hstr : ∀ s : Bytes, (onBytes sign_hmac).str s = s := List.map_id'
  rw [componentToUri, hstr]
  rfl

theorem ofName_onBytes (n : Name) : (onBytes sign_hmac).ofName n = n.map Component.value := by
  have hstr : ∀ s : Bytes, (onBytes sign_hmac).str s = s := List.map_id'
  rw [ofName]
  simp only [hstr]

/-- The check looks at the second argument. -/
theorem validateOwnerRequest_onBytes (key : Bytes) (name args : Name) :
    (onBytes sign_hmac).validateOwnerRequest ((onBytes sign_hmac).ofName name)
        ((onBytes sign_hmac).ofName args) key =
      args[1]?.map fun c =>
        (onBytes sign_hmac).verifyHash (Name.toUri name.dropLast) key c.toUri := by
  have hinit : ((onBytes sign_hmac).ofName name).take
        (((onBytes sign_hmac).ofName name).length - 1) =
      (onBytes sign_hmac).ofName name.dropLast := by
    rw [← List.dropLast_eq_take, ofName, ofName, List.map_dropLast]
  rw [validateOwnerRequest, hinit, toUri_onBytes, ofName_onBytes args, List.getElem?_map]
  cases args[1]? with
  | none => rfl
  | some c =>
    simp only [Option.map_some, componentToUri_onBytes]

theorem decidesOwnerRequest_iff {key : Bytes} {nodePrefix name args : Name}
    (hname : name = nodePrefix ++ args) :
    DecidesOwnerRequest sign_hmac key name args ↔
      args.length = 2 ∨ 2 < args.length ∧ ∀ c ∈ args[1]?, ∀ c' ∈ args.getLast?,
        (AuthenticatesRest sign_hmac key name c ↔ AuthenticatesRest sign_hmac key name c') := by
  rw [DecidesOwnerRequest, validateOwnerRequest_onBytes]
  cases hsecond : args[1]? with
  | none =>
    have hlen := List.getElem?_eq_none_iff.mp hsecond
    refine iff_of_false (fun h => absurd h.1 (by simp)) ?_
    omega
  | some c =>
    have hlen : 2 ≤ args.length := by
      obtain ⟨h, -⟩ := List.getElem?_eq_some_iff.mp hsecond
      omega
    have hne : args ≠ [] := List.ne_nil_of_length_pos (by omega)
    obtain ⟨c', hlast⟩ : ∃ c', args.getLast? = some c' :=
      ⟨_, List.getLast?_eq_some_getLast hne⟩
    have hlast' : name.getLast? = some c' := by
      rw [hname, List.getLast?_append, hlast, Option.some_or]
    have hmiddle : args.length = 2 → c = c' := by
      intro h
      rw [List.getLast?_eq_getElem?, h, hsecond] at hlast
      exact Option.some.inj hlast
    simp only [Option.map_some, Option.isSome_some, true_and, Option.some.injEq, hlast', hlast,
      Option.mem_def, forall_eq', hne, ne_eq, not_false_eq_true]
    constructor
    · intro h
      rcases hlen.eq_or_lt with heq | hlt
      · exact Or.inl heq.symm
      · exact Or.inr ⟨hlt, h⟩
    · rintro (heq | ⟨-, h⟩)
      · rw [hmiddle heq]
        exact Iff.rfl
      · exact h

/-- **Requests are accepted exactly when their last component authenticates the rest**, for a
name routed to the default handler, exactly when it has two arguments, or more of which the
second and the last both do or both do not. -/
theorem ownerRequest_decided_iff {σ : Type} (n : NodeImpl σ) (sign_hmac : Bytes → Bytes → Bytes)
    (key : Bytes) {i : Interest} {parts : ParsedName} (h : n.parseInterestName i = .ok parts)
    (hdefault : parts.path = []) :
    DecidesOwnerRequest sign_hmac key i.name parts.args ↔
      parts.args.length = 2 ∨ 2 < parts.args.length ∧
        ∀ c ∈ parts.args[1]?, ∀ c' ∈ parts.args.getLast?,
          (AuthenticatesRest sign_hmac key i.name c ↔
            AuthenticatesRest sign_hmac key i.name c') := by
  have hname := (n.isSplit_of_parseInterestName h).lossless
  rw [hdefault, List.append_nil] at hname
  exact decidesOwnerRequest_iff hname.symm

/-! ### The documented form -/

/-- Hexadecimal digits are printed as they are. -/
theorem toUri_toHex {s : Bytes} (hs : s ≠ []) :
    (Component.mk (PercentCoding.toHex s)).toUri = PercentCoding.toHex s := by
  have hdigit : ∀ b ∈ PercentCoding.toHex s, keptInUri b = true ∧ b ≠ '.'.toUInt8 := by
    intro b hb
    obtain ⟨m, hm, rfl⟩ := PercentCoding.mem_toHex hb
    have hall : ∀ m < 16, keptInUri (PercentCoding.hexDigit m) = true ∧
        PercentCoding.hexDigit m ≠ '.'.toUInt8 := by decide
    exact hall m hm
  have hperiods : ¬ isPeriods (PercentCoding.toHex s) = true := by
    intro hall
    obtain ⟨b, rest, hrest⟩ := List.exists_cons_of_ne_nil (toHex_ne_nil hs)
    have hb : b ∈ PercentCoding.toHex s := hrest ▸ List.mem_cons_self
    exact (hdigit b hb).2 (of_decide_eq_true (List.all_eq_true.mp hall b hb))
  rw [Component.toUri, if_neg hperiods, PercentCoding.encode_of_keep fun b hb => (hdigit b hb).1]

/-- A node that has the default route alone. -/
def defaultNode : NodeImpl Unit :=
  NodeImpl.routeName ⟨[Component.of "device"], ⟨bytes "device"⟩, ∅, [], [], ∅, ∅⟩ []
    (fun s _ _ data => (s, ⟨[], data, .ok false⟩)) [] []

theorem parseInterestName_defaultNode (args : Name) :
    defaultNode.parseInterestName ⟨Component.of "device" :: args, []⟩ =
      .ok ⟨[Component.of "device"], [], args⟩ := by
  have hpath : defaultNode.selectedPath args = [] := by
    refine (defaultNode.selectedPath_eq_nil_iff args).mpr fun p hp hne => ?_
    have hkeys : defaultNode.handlers.keys = [[]] := by decide
    rw [hkeys, List.mem_singleton] at hp
    exact absurd hp hne
  have hsplit : (⟨Component.of "device" :: args, []⟩ : Interest).name =
      defaultNode.nodePrefix ++ args := rfl
  have hparse := defaultNode.parseInterestName_eq hsplit
  rw [hpath] at hparse
  exact hparse

/-- A request of a random number and an HMAC is decided. -/
theorem twoArguments_decided :
    ¬ ∃ sign_hmac, ¬ DecidesOwnerRequest sign_hmac (bytes "uns4fe")
      [Component.of "device", Component.of "1d5a", Component.of "00"]
      [Component.of "1d5a", Component.of "00"] := by
  rintro ⟨sign_hmac, h⟩
  exact h ((ownerRequest_decided_iff defaultNode sign_hmac (bytes "uns4fe")
    (i := ⟨[Component.of "device", Component.of "1d5a", Component.of "00"], []⟩)
    (parseInterestName_defaultNode [Component.of "1d5a", Component.of "00"]) rfl).mpr (Or.inl rfl))

/-- A request of the form `<prefix>/<device-id>/<random>/<hmac>` is not accepted, though its HMAC
is right, where the random number has an odd number of digits. -/
theorem documentedRequest_not_accepted :
    ¬ ∃ sign_hmac : Bytes → Bytes → Bytes, (∀ key text, sign_hmac key text ≠ []) ∧
      ∀ (n : NodeImpl Unit) (key : Bytes) (i : Interest) (parts : ParsedName),
        n.parseInterestName i = .ok parts → parts.path = [] →
          DecidesOwnerRequest sign_hmac key i.name parts.args := by
  rintro ⟨sign_hmac, hne, h⟩
  let rest : Name := [Component.of "device", Component.of "Make1", Component.of "1d5"]
  let mac : Bytes := sign_hmac (bytes "uns4fe") rest.toUri
  let args : Name := [Component.of "Make1", Component.of "1d5", ⟨PercentCoding.toHex mac⟩]
  have hdecides := (h defaultNode (bytes "uns4fe") ⟨Component.of "device" :: args, []⟩ _
    (parseInterestName_defaultNode args) rfl).2
  have hauthentic : ∀ c ∈ (Component.of "device" :: args).getLast?,
      AuthenticatesRest sign_hmac (bytes "uns4fe") (Component.of "device" :: args) c := by
    intro c hc
    have hmac : (⟨PercentCoding.toHex mac⟩ : Component) = c := Option.some.inj hc
    rw [← hmac, AuthenticatesRest, toUri_toHex (show mac ≠ [] from hne _ _)]
    exact iequals_refl _
  have haccepted := hdecides.mpr ⟨List.cons_ne_nil _ _, hauthentic⟩
  rw [validateOwnerRequest_onBytes] at haccepted
  have heq : (PercentCoding.toHex mac).map asciiToUpper =
      (Component.of "1d5").toUri.map asciiToUpper :=
    of_decide_eq_true (Option.some.inj haccepted)
  have hlen := congrArg List.length heq
  rw [List.length_map, List.length_map, PercentCoding.length_toHex,
    show (Component.of "1d5").toUri.length = 3 from by decide] at hlen
  omega

end HmacText

end Nacapp
