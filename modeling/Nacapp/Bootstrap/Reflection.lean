import Mathlib.Data.Set.Insert
import Nacapp.Bootstrap.Reactions

/-!
# Reflected messages

The device computes HMACs under the pair code over its own strings, and accepts an owner
response for an HMAC under the same code.  The strings are `deviceId|randomNo` in the bootstrap
name, the hexadecimal public key in the unsigned certificate, and `cert|r` in the response.

`ownerResponses_unforgeable_iff`: an attacker who sees what the device emits, and does not know
the pair code, forges an owner response exactly when no bar stands in the device id or in the
nonce.  The response is the device's own bootstrap name, field by field.

`exposed_of_mem_outputs`: an attacker who also takes part in the runs, with requests of its own,
learns nothing more.
-/

namespace Nacapp.Bootstrap

open SymbolicMac HmacText

/-! ## What the device emits -/

/-- What varies between runs of one device. -/
structure DeviceRun where
  wellknown : Name
  randomNo : Bytes
  deviceCertUnsigned : Certificate

variable (C : CertificateCodec (Symbol UInt8)) (deviceId pairCode : Bytes)

/-- The Data a run answers the owner with. -/
def DeviceRun.signedCert (ρ : DeviceRun) : TextData (Symbol UInt8) :=
  symbolic.hmacSignUnsignedCert C ρ.deviceCertUnsigned (symbolic.str deviceId)
    (symbolic.str pairCode)

/-- The name components and contents that leave the device in a run. -/
def DeviceRun.emittedTexts (ρ : DeviceRun) : List (Text UInt8) :=
  symbolic.constructBootstrapName (symbolic.ofName ρ.wellknown) (symbolic.str ρ.randomNo)
      (symbolic.str deviceId) (symbolic.str pairCode) ++
    symbolic.deviceCertName (symbolic.ofName ρ.wellknown) (symbolic.str deviceId) ++
    (ρ.signedCert C deviceId pairCode).name ++ [(ρ.signedCert C deviceId pairCode).content]

/-- The strings the device computes an HMAC of in a run. -/
def DeviceRun.macedStrings (ρ : DeviceRun) : List Bytes :=
  [deviceId ++ '|'.toUInt8 :: ρ.randomNo, PercentCoding.toHex ρ.deviceCertUnsigned.publicKey]

/-- What an attacker has seen after some runs. -/
def seen (runs : Set DeviceRun) : Set (Text UInt8) :=
  {t | ∃ ρ ∈ runs, t ∈ ρ.emittedTexts C deviceId pairCode}

/-! ## The property -/

/-- Whatever content the attacker builds, `validateOwnerCertResp` does not accept it for the
nonce of the run `ρ`. -/
def Unforgeable (ρ : DeviceRun) (earlier : Set DeviceRun) : Prop :=
  ∀ d : TextData (Symbol UInt8),
    Buildable (plain pairCode) (seen C deviceId pairCode (insert ρ earlier)) d.content →
    ∀ accepted, symbolic.validateOwnerCertResp d (plain ρ.randomNo) (plain pairCode) =
      some accepted → accepted = false

/-- The response made of a string `cert|r` and its HMAC. -/
def responseOf (s : Bytes) : TextData (Symbol UInt8) :=
  ⟨[], plain s ++ symbolic.bar :: [.mac (plain pairCode) (plain s)]⟩

/-- No string the device computes an HMAC of would pass as the owner's for the nonce of `ρ`. -/
def Separated (ρ : DeviceRun) (earlier : Set DeviceRun) : Prop :=
  ∀ ρ' ∈ insert ρ earlier, ∀ s ∈ ρ'.macedStrings deviceId,
    symbolic.validateOwnerCertResp (responseOf pairCode s) (plain ρ.randomNo) (plain pairCode) ≠
      some true

/-! ## HMACs in messages -/

variable {C deviceId pairCode}

theorem bar_mem_plain {s : Bytes} : symbolic.bar ∈ plain s ↔ '|'.toUInt8 ∈ s := letter_mem_plain

theorem plain_append_bar (s t : Bytes) :
    plain (s ++ '|'.toUInt8 :: t) = plain s ++ symbolic.bar :: plain t := List.map_append

theorem exists_plain_of_mem_ofName {t : Text UInt8} {n : Name} (ht : t ∈ symbolic.ofName n) :
    ∃ s, t = plain s := by
  obtain ⟨c, -, rfl⟩ := List.mem_map.mp ht
  exact ⟨c.value, rfl⟩

/-- The Interest for the signed certificate is plain. -/
theorem exists_plain_of_mem_deviceCertName {t : Text UInt8} {n : Name} {id : Bytes}
    (ht : t ∈ symbolic.deviceCertName (symbolic.ofName n) (symbolic.str id)) :
    ∃ s, t = plain s := by
  rcases List.mem_append.mp ht with ht | ht
  · exact exists_plain_of_mem_ofName ht
  · simp only [List.mem_cons, List.not_mem_nil, or_false] at ht
    rcases ht with rfl | rfl | rfl
    · exact ⟨_, rfl⟩
    · exact ⟨id, rfl⟩
    · exact ⟨_, rfl⟩

theorem mac_mem_constructBootstrapName {key text t : Text UInt8} {n : Name} {r id code : Bytes}
    (ht : t ∈ symbolic.constructBootstrapName (symbolic.ofName n) (symbolic.str r)
      (symbolic.str id) (symbolic.str code)) (h : Symbol.mac key text ∈ t) :
    text = plain (id ++ '|'.toUInt8 :: r) := by
  unfold constructBootstrapName at ht
  rcases List.mem_append.mp ht with ht | ht
  · rcases List.mem_append.mp ht with ht | ht
    · obtain ⟨s, rfl⟩ := exists_plain_of_mem_ofName ht
      exact absurd h mac_notMem_plain
    · simp only [List.mem_cons, List.not_mem_nil, or_false] at ht
      rcases ht with rfl | rfl | rfl | rfl <;> exact absurd h mac_notMem_plain
  · rw [List.mem_singleton.mp ht] at h
    rw [(Symbol.mac.inj (List.mem_singleton.mp h)).2]
    exact (plain_append_bar id r).symm

theorem mac_mem_signedCert {ρ : DeviceRun} {key text : Text UInt8}
    (h : Symbol.mac key text ∈ (ρ.signedCert C deviceId pairCode).content) :
    text = plain (PercentCoding.toHex ρ.deviceCertUnsigned.publicKey) := by
  rcases List.mem_append.mp h with h | h
  · exact absurd h mac_notMem_plain
  · rcases List.mem_cons.mp h with h | h
    · cases h
    · exact (Symbol.mac.inj (List.mem_singleton.mp h)).2

/-- **What leaves the device carries HMACs of its own strings only.** -/
theorem mac_mem_emittedTexts {ρ : DeviceRun} {key text t : Text UInt8}
    (ht : t ∈ ρ.emittedTexts C deviceId pairCode) (h : Symbol.mac key text ∈ t) :
    ∃ s ∈ ρ.macedStrings deviceId, text = plain s := by
  unfold DeviceRun.emittedTexts at ht
  rcases List.mem_append.mp ht with ht | ht
  · rcases List.mem_append.mp ht with ht | ht
    · rcases List.mem_append.mp ht with ht | ht
      · exact ⟨_, List.mem_cons_self, mac_mem_constructBootstrapName ht h⟩
      · obtain ⟨s, rfl⟩ := exists_plain_of_mem_deviceCertName ht
        exact absurd h mac_notMem_plain
    · obtain ⟨s, rfl⟩ := exists_plain_of_mem_ofName ht
      exact absurd h mac_notMem_plain
  · rw [List.mem_singleton.mp ht] at h
    exact ⟨_, List.mem_cons_of_mem _ List.mem_cons_self, mac_mem_signedCert h⟩

variable (C pairCode) in
/-- The HMAC of each of its strings leaves the device. -/
theorem mac_mem_seen {ρ : DeviceRun} {runs : Set DeviceRun} (hρ : ρ ∈ runs) {s : Bytes}
    (hs : s ∈ ρ.macedStrings deviceId) :
    ∃ t ∈ seen C deviceId pairCode runs, [.mac (plain pairCode) (plain s)] <:+: t := by
  rcases List.mem_cons.mp hs with rfl | hs
  · refine ⟨[.mac (plain pairCode) (plain (deviceId ++ '|'.toUInt8 :: ρ.randomNo))],
      ⟨ρ, hρ, ?_⟩, List.infix_rfl⟩
    refine List.mem_append_left _ (List.mem_append_left _ (List.mem_append_left _ ?_))
    refine List.mem_append_right _ (List.mem_singleton.mpr ?_)
    rw [plain_append_bar]
    rfl
  · rw [List.mem_singleton.mp hs]
    refine ⟨(ρ.signedCert C deviceId pairCode).content, ⟨ρ, hρ, ?_⟩, ?_⟩
    · exact List.mem_append_right _ (List.mem_singleton.mpr rfl)
    · exact ⟨_ ++ [symbolic.bar], [], by rw [List.append_nil, List.append_assoc]; rfl⟩

/-! ## What is accepted -/

/-- An accepted response carries the HMAC of its first two fields. -/
theorem mac_mem_of_accepted {d : TextData (Symbol UInt8)} {r k : Text UInt8}
    (h : symbolic.validateOwnerCertResp d r k = some true) :
    ∃ cert, symbolic.bar ∉ cert ∧ symbolic.bar ∉ r ∧
      Symbol.mac k (cert ++ symbolic.bar :: r) ∈ d.content := by
  obtain ⟨cert, hash, rest, hsplit, hhash⟩ := validateOwnerCertResp_eq_true_iff.mp h
  obtain ⟨hcert, hr⟩ := bar_notMem_of_split hsplit
  refine ⟨cert, hcert, hr, ?_⟩
  have hitem : hash ∈ Delimited.split symbolic.bar d.content := by
    rw [hsplit]
    exact List.mem_cons_of_mem _ (List.mem_cons_of_mem _ List.mem_cons_self)
  refine Delimited.mem_of_mem_split hitem ?_
  rw [eq_of_iequals_symbolic hhash]
  exact List.mem_singleton.mpr rfl

/-- A string and its HMAC are accepted exactly when the string is one field and the nonce. -/
theorem responseOf_accepted_iff {s : Bytes} {r : Text UInt8} :
    symbolic.validateOwnerCertResp (responseOf pairCode s) r (plain pairCode) = some true ↔
      ∃ cert, symbolic.bar ∉ cert ∧ symbolic.bar ∉ r ∧ plain s = cert ++ symbolic.bar :: r := by
  constructor
  · intro h
    obtain ⟨cert, hcert, hr, hmac⟩ := mac_mem_of_accepted h
    refine ⟨cert, hcert, hr, ?_⟩
    rcases List.mem_append.mp hmac with hmac | hmac
    · exact absurd hmac mac_notMem_plain
    · rcases List.mem_cons.mp hmac with hmac | hmac
      · cases hmac
      · exact (Symbol.mac.inj (List.mem_singleton.mp hmac)).2.symm
  · rintro ⟨cert, hcert, hr, hs⟩
    have hmac : symbolic.bar ∉ [Symbol.mac (plain pairCode) (plain s)] := by
      intro h
      cases List.mem_singleton.mp h
    refine validateOwnerCertResp_eq_true_iff.mpr
      ⟨cert, [.mac (plain pairCode) (plain s)], [], ?_, ?_⟩
    · show Delimited.split symbolic.bar (plain s ++ symbolic.bar :: _) = _
      rw [hs, List.append_assoc, List.cons_append, Delimited.split_append_delim hcert,
        Delimited.split_append_delim hr, ← hs,
        Delimited.split_of_notMem hmac (List.cons_ne_nil _ _)]
    · rw [← hs]
      exact iequals_refl _

/-- **The two readings agree**: the attacker forges a response exactly when one of the strings
under the device's HMACs passes as the owner's. -/
theorem unforgeable_iff_separated {ρ : DeviceRun} {earlier : Set DeviceRun} :
    Unforgeable C deviceId pairCode ρ earlier ↔ Separated deviceId pairCode ρ earlier := by
  constructor
  · intro h ρ' hρ' s hs haccepted
    obtain ⟨t, ht, hpart⟩ := mac_mem_seen C pairCode hρ' hs
    have hbuild : Buildable (plain pairCode) (seen C deviceId pairCode (insert ρ earlier))
        (responseOf pairCode s).content :=
      .append (.plain s) (.append (.plain ['|'.toUInt8]) (.part (.seen ht) hpart))
    exact absurd (h _ hbuild true haccepted) (by decide)
  · intro h d hd accepted hvalidate
    by_contra htrue
    rw [Bool.not_eq_false] at htrue
    subst htrue
    obtain ⟨cert, hcert, hr, hmac⟩ := mac_mem_of_accepted hvalidate
    -- the HMAC in the content was emitted, so it is over a string of the device
    obtain ⟨t, ⟨ρ', hρ', ht⟩, hmac⟩ := mac_mem_of_buildable hd hmac
    obtain ⟨s, hs, heq⟩ := mac_mem_emittedTexts ht hmac
    exact h ρ' hρ' s hs (responseOf_accepted_iff.mpr ⟨cert, hcert, hr, heq.symm⟩)

/-! ## Bars -/

theorem separated_iff {ρ : DeviceRun} {earlier : Set DeviceRun} :
    Separated deviceId pairCode ρ earlier ↔ '|'.toUInt8 ∈ deviceId ∨ '|'.toUInt8 ∈ ρ.randomNo := by
  constructor
  · intro h
    by_contra hbar
    rw [not_or, ← bar_mem_plain, ← bar_mem_plain] at hbar
    exact h ρ (Set.mem_insert _ _) _ List.mem_cons_self
      (responseOf_accepted_iff.mpr ⟨_, hbar.1, hbar.2, plain_append_bar _ _⟩)
  · intro hbar ρ' _ s hs haccepted
    obtain ⟨cert, hcert, hr, heq⟩ := responseOf_accepted_iff.mp haccepted
    rcases List.mem_cons.mp hs with rfl | hs
    · rw [plain_append_bar] at heq
      have hdevice := Delimited.notMem_of_append_cons_eq hcert hr heq.symm
      rcases hbar with hbar | hbar
      · exact hdevice (bar_mem_plain.mpr hbar)
      · exact hr (bar_mem_plain.mpr hbar)
    · have hmem : symbolic.bar ∈ plain s := by
        rw [heq]
        exact List.mem_append_right _ List.mem_cons_self
      rw [List.mem_singleton.mp hs, bar_mem_plain] at hmem
      exact bar_notMem_toHex _ hmem

/-- **Owner responses cannot be forged from what the device emits** exactly when a bar stands in
the device id or in the nonce.  This is for every run and any other runs of the device, and the
same holds of the strings under its HMACs. -/
theorem ownerResponses_unforgeable_iff (C : CertificateCodec (Symbol UInt8))
    (deviceId pairCode : Bytes) (ρ : DeviceRun) (earlier : Set DeviceRun) :
    (Unforgeable C deviceId pairCode ρ earlier ↔
        '|'.toUInt8 ∈ deviceId ∨ '|'.toUInt8 ∈ ρ.randomNo) ∧
      (Separated deviceId pairCode ρ earlier ↔
        '|'.toUInt8 ∈ deviceId ∨ '|'.toUInt8 ∈ ρ.randomNo) :=
  ⟨unforgeable_iff_separated.trans separated_iff, separated_iff⟩

/-- The nonce that `randomHex` returns has no bar in it, so it is the device id that decides. -/
theorem unforgeable_randomHex_iff {wellknown : Name} {random : ℕ} {cert : Certificate}
    {earlier : Set DeviceRun} :
    Unforgeable C deviceId pairCode ⟨wellknown, randomHex random, cert⟩ earlier ↔
      '|'.toUInt8 ∈ deviceId := by
  rw [unforgeable_iff_separated, separated_iff]
  exact or_iff_left (bar_notMem_randomHex random)

/-- A device whose id is an ordinary model name accepts its own bootstrap name as the owner's
response. -/
theorem device_accepts_reflected_name :
    let C : CertificateCodec (Symbol UInt8) := ⟨fun _ => [], fun _ => none, fun _ => none⟩
    let ρ : DeviceRun := ⟨[Component.of "local-home", Component.of "bootstrap"], bytes "1923856",
      ⟨Certificate.issued [Component.of "device"], by decide⟩⟩
    ¬ Unforgeable C (bytes "Make1-Model2-Version345") (bytes "uns4fe") ρ ∅ := by
  intro C ρ h
  have hstring : bytes "Make1-Model2-Version345|1923856" ∈
      ρ.macedStrings (bytes "Make1-Model2-Version345") := List.mem_cons_self
  obtain ⟨t, ht, hpart⟩ := mac_mem_seen C (bytes "uns4fe") (Set.mem_insert ρ ∅) hstring
  have hbuild : Buildable (plain (bytes "uns4fe"))
      (seen C (bytes "Make1-Model2-Version345") (bytes "uns4fe") (insert ρ ∅))
      (responseOf (bytes "uns4fe") (bytes "Make1-Model2-Version345|1923856")).content :=
    .append (.plain _) (.append (.plain ['|'.toUInt8]) (.part (.seen ht) hpart))
  have haccepted : symbolic.validateOwnerCertResp
      (responseOf (bytes "uns4fe") (bytes "Make1-Model2-Version345|1923856"))
      (plain (bytes "1923856")) (plain (bytes "uns4fe")) = some true := by decide +kernel
  exact absurd (h _ hbuild true haccepted) (by decide)

/-- **The reflected name on bytes.**  Under any function that computes HMACs, the last three
components of the bootstrap name, with bars between them, are accepted. -/
theorem reflected_accepted_onBytes {sign_hmac : Bytes → Bytes → Bytes}
    (hne : ∀ key text, sign_hmac key text ≠ []) {deviceId r : Bytes} (pairCode : Bytes)
    (hdevice : '|'.toUInt8 ∉ deviceId) (hr : '|'.toUInt8 ∉ r) :
    (onBytes sign_hmac).validateOwnerCertResp
      ⟨[], (deviceId ++ '|'.toUInt8 :: r) ++ '|'.toUInt8 ::
        PercentCoding.toHex (sign_hmac pairCode (deviceId ++ '|'.toUInt8 :: r))⟩ r pairCode =
      some true := by
  have haccepted : symbolic.validateOwnerCertResp
      (responseOf pairCode (deviceId ++ '|'.toUInt8 :: r)) (plain r) (plain pairCode) = some true :=
    responseOf_accepted_iff.mpr ⟨plain deviceId, mt bar_mem_plain.mp hdevice,
      mt bar_mem_plain.mp hr, plain_append_bar _ r⟩
  have hbytes := validateOwnerCertResp_eval hne haccepted
  dsimp only [evalData, responseOf, HmacText.bar, symbolic] at hbytes
  simp only [eval_append, eval_plain, eval_letter_cons, eval_mac_cons, eval_nil, List.append_nil,
    List.map_nil] at hbytes
  exact hbytes

/-! ## What a run reveals -/

/-- The strings of an output that leave the device. -/
def Output.texts {α : Type} : Output α → List (List α)
  | .interest name => name
  | .data d => d.name ++ [d.content]
  | _ => []

/-- The runs of the device with a well-known name and a nonce. -/
def runsOf (wellknown : Name) (randomNo : Bytes) : Set DeviceRun :=
  {ρ | ρ.wellknown = wellknown ∧ ρ.randomNo = randomNo}

/-- What an attacker can build who has seen what the device emits with a nonce. -/
def Exposed (E : Env (Symbol UInt8)) (randomNo : Bytes) : Text UInt8 → Prop :=
  Buildable (plain E.cfg.pairCode) (seen E.toCertificateCodec E.cfg.pairId E.cfg.pairCode
    (runsOf E.cfg.wellknown randomNo))

variable {E : Env (Symbol UInt8)} {randomNo : Bytes}

theorem exposed_signedCert (cert : Certificate) {t : Text UInt8}
    (ht : t ∈ (Output.data (symbolic.hmacSignUnsignedCert E.toCertificateCodec cert
      (symbolic.str E.cfg.pairId) (symbolic.str E.cfg.pairCode))).texts) :
    Exposed E randomNo t := by
  refine .seen ⟨⟨E.cfg.wellknown, randomNo, cert⟩, ⟨rfl, rfl⟩, ?_⟩
  unfold DeviceRun.emittedTexts
  rw [List.append_assoc]
  exact List.mem_append_right _ ht

/-- A refusal repeats the request it refuses. -/
theorem exposed_refusal (hE : E.text = symbolic)
    (hnode : ∀ c ∈ E.nodePrefix, Exposed E randomNo c) {args : TextName (Symbol UInt8)}
    (hargs : ∀ c ∈ args, Exposed E randomNo c) (message : Bytes) {t : Text UInt8}
    (ht : t ∈ (Output.data (α := Symbol UInt8)
      ⟨E.nodePrefix ++ args, E.text.str message⟩).texts) : Exposed E randomNo t := by
  rcases List.mem_append.mp ht with ht | ht
  · rcases List.mem_append.mp ht with ht | ht
    · exact hnode t ht
    · exact hargs t ht
  · rw [List.mem_singleton.mp ht, hE]
    exact .plain message

/-- One event reveals nothing but strings of the device, when the attacker could build the
request. -/
theorem exposed_of_reaction (hE : E.text = symbolic)
    (hnode : ∀ c ∈ E.nodePrefix, Exposed E randomNo c) {s s' : Run (Symbol UInt8)}
    {e : Event (Symbol UInt8)} {outs : List (Output (Symbol UInt8))}
    (hreaction : Run.Reaction E s e s' outs)
    (he : ∀ args, e = .request args → ∀ c ∈ args, Exposed E randomNo c) :
    ∀ o ∈ outs, ∀ t ∈ o.texts, Exposed E randomNo t := by
  intro o ho t ht
  cases hreaction with
  | quiet => exact absurd ho List.not_mem_nil
  | ownerRefused =>
    rw [List.mem_singleton.mp ho] at ht
    exact absurd ht List.not_mem_nil
  | ownerAccepted =>
    rw [List.mem_singleton.mp ho] at ht
    exact absurd ht List.not_mem_nil
  | served =>
    unfold Env.pairId Env.pairCode Env.wellknown at ho
    rw [hE] at ho
    rcases List.mem_cons.mp ho with rfl | ho
    · exact exposed_signedCert _ ht
    · rw [List.mem_singleton.mp ho] at ht
      obtain ⟨s, rfl⟩ := exists_plain_of_mem_deviceCertName ht
      exact .plain s
  | refused heq =>
    rw [List.mem_singleton.mp ho] at ht
    exact exposed_refusal hE hnode (he _ heq) _ ht
  | refusedForGood heq =>
    rcases List.mem_cons.mp ho with rfl | ho
    · exact absurd ht List.not_mem_nil
    · rw [List.mem_singleton.mp ho] at ht
      exact exposed_refusal hE hnode (he _ heq) _ ht
  | installed =>
    rcases List.mem_cons.mp ho with rfl | ho
    · exact absurd ht List.not_mem_nil
    · rw [List.mem_singleton.mp ho] at ht
      exact absurd ht List.not_mem_nil

/-- **A run reveals only what the device emits**, whatever the attacker asks. -/
theorem exposed_of_mem_outputs (hE : E.text = symbolic)
    (hnode : ∀ c ∈ E.nodePrefix, Exposed E randomNo c) {s : Run (Symbol UInt8)}
    {events : List (Event (Symbol UInt8))}
    (hevents : ∀ args, .request args ∈ events → ∀ c ∈ args, Exposed E randomNo c)
    {o : Output (Symbol UInt8)} (ho : o ∈ s.outputs E events) {t : Text UInt8} (ht : t ∈ o.texts) :
    Exposed E randomNo t := by
  obtain ⟨pre, e, post, rfl, hout⟩ := Transitions.exists_step_of_mem_emitted _ _ ho
  have he : ∀ args, e = .request args → ∀ c ∈ args, Exposed E randomNo c := by
    rintro args rfl
    exact hevents args (List.mem_append_right _ List.mem_cons_self)
  exact exposed_of_reaction hE hnode (Run.reaction (s.run E pre) e) he o hout t ht

/-- With a bar in the device id, no owner's certificate is accepted in a run in which the attacker
builds the responses from what the device emits. -/
theorem ownerCert_notMem_outputs (hE : E.text = symbolic) (hbar : '|'.toUInt8 ∈ E.cfg.pairId)
    {s : Run (Symbol UInt8)} (hs : s.randomNo = plain randomNo)
    {events : List (Event (Symbol UInt8))}
    (hevents : ∀ d, .ownerReply d ∈ events → Exposed E randomNo d.content) (owner : Certificate) :
    .ownerCert owner ∉ s.outputs E events := by
  intro h
  obtain ⟨pre, e, post, d, dname, rfl, hd, hvalid, -⟩ := Run.accepted_of_mem_outputs h
  have hcontent : Exposed E randomNo d.content := by
    cases e with
    | ownerReply d' =>
      obtain rfl := Option.some.inj hd
      exact hevents d' (List.mem_append_right _ List.mem_cons_self)
    | ownerTimeout =>
      rw [← Option.some.inj hd]
      unfold Run.timeoutData
      rw [hE]
      exact .plain _
    | _ => cases hd
  unfold Env.pairCode at hvalid
  rw [hE, hs] at hvalid
  -- the run is one of those with the nonce, for any certificate of the device
  have hunforgeable : Unforgeable E.toCertificateCodec E.cfg.pairId E.cfg.pairCode
      ⟨E.cfg.wellknown, randomNo, owner⟩ (runsOf E.cfg.wellknown randomNo) :=
    unforgeable_iff_separated.mpr (separated_iff.mpr (Or.inl hbar))
  have hseen : insert ⟨E.cfg.wellknown, randomNo, owner⟩ (runsOf E.cfg.wellknown randomNo) =
      runsOf E.cfg.wellknown randomNo := Set.insert_eq_of_mem ⟨rfl, rfl⟩
  exact absurd (hunforgeable d (by rw [hseen]; exact hcontent) true hvalid) (by decide)

end Nacapp.Bootstrap
