import Nacapp.Bootstrap.DeviceCert

/-!
# What the HMAC on the unsigned certificate covers

`hmacSignUnsignedCert` sends the certificate in hexadecimal, a bar, and an HMAC.  The HMAC is
computed over the content of the certificate, which is the public key; its name, meta-info and
signature are sent and not covered.  The owner's side of the protocol does better: the response
that `validateOwnerCertResp` checks has its HMAC over everything in front of it.

`hmacCovers_iff`: the HMAC tells two certificates apart exactly when their public keys differ.
-/

namespace Nacapp.Bootstrap

open HmacText

/-! ## The payload -/

/-- The payload read back: the certificate in hexadecimal, and the hash. -/
def payload (d : TextData UInt8) : Option (Bytes × Bytes) :=
  Delimited.getline '|'.toUInt8 d.content

/-- The certificate as it is sent. -/
def certHex (C : CertificateCodec UInt8) (cert : Certificate) : Bytes :=
  PercentCoding.toHex (C.wireEncode cert)

theorem payload_hmacSignUnsignedCert (sign_hmac : Bytes → Bytes → Bytes)
    (C : CertificateCodec UInt8) (cert : Certificate) (deviceId secret : Bytes) :
    payload ((onBytes sign_hmac).hmacSignUnsignedCert C cert deviceId secret) =
      some (certHex C cert, PercentCoding.toHex (sign_hmac secret (macedText cert))) := by
  have hstr : ∀ s : Bytes, (onBytes sign_hmac).str s = s := List.map_id'
  have hcontent : ((onBytes sign_hmac).hmacSignUnsignedCert C cert deviceId secret).content =
      certHex C cert ++ '|'.toUInt8 :: PercentCoding.toHex (sign_hmac secret (macedText cert)) := by
    unfold hmacSignUnsignedCert
    dsimp only
    rw [hstr, hstr]
    rfl
  rw [payload, hcontent]
  exact Delimited.getline_append_delim (bar_notMem_toHex _) _

/-! ## What is told apart -/

/-- **The HMAC authenticates what is sent**: where the payloads of two certificates differ in
the certificate, the strings that were MACed differ; and with an injective HMAC neither
certificate stands under the hash of the other. -/
structure HmacCovers (sign_hmac : Bytes → Bytes → Bytes) (C : CertificateCodec UInt8)
    (deviceId secret : Bytes) (c₁ c₂ : Certificate) : Prop where
  maced : ∀ sent₁ hash₁ sent₂ hash₂,
    payload ((onBytes sign_hmac).hmacSignUnsignedCert C c₁ deviceId secret) =
      some (sent₁, hash₁) →
    payload ((onBytes sign_hmac).hmacSignUnsignedCert C c₂ deviceId secret) =
      some (sent₂, hash₂) →
    sent₁ ≠ sent₂ → macedText c₁ ≠ macedText c₂
  hash : Function.Injective (sign_hmac secret) → ∀ sent₁ hash₁ sent₂ hash₂,
    payload ((onBytes sign_hmac).hmacSignUnsignedCert C c₁ deviceId secret) =
      some (sent₁, hash₁) →
    payload ((onBytes sign_hmac).hmacSignUnsignedCert C c₂ deviceId secret) =
      some (sent₂, hash₂) →
    sent₁ ≠ sent₂ → hash₁ ≠ hash₂

/-- The payloads of certificates with different keys have different hashes, under an injective
HMAC. -/
theorem hash_ne_of_publicKey_ne {sign_hmac : Bytes → Bytes → Bytes} {secret : Bytes}
    (hinj : Function.Injective (sign_hmac secret)) {c₁ c₂ : Certificate}
    (hkey : c₁.publicKey ≠ c₂.publicKey) :
    PercentCoding.toHex (sign_hmac secret (macedText c₁)) ≠
      PercentCoding.toHex (sign_hmac secret (macedText c₂)) := by
  intro heq
  have hmaced : macedText c₁ = macedText c₂ := hinj (PercentCoding.toHex_injective heq)
  exact hkey (PercentCoding.toHex_injective hmaced)

/-- **The HMAC covers the certificate** exactly when there is nothing to tell apart, or the
public keys differ. -/
theorem hmacCovers_iff (sign_hmac : Bytes → Bytes → Bytes) (C : CertificateCodec UInt8)
    (hwire : Function.Injective C.wireEncode) (deviceId secret : Bytes) (c₁ c₂ : Certificate) :
    HmacCovers sign_hmac C deviceId secret c₁ c₂ ↔ c₁ = c₂ ∨ c₁.publicKey ≠ c₂.publicKey := by
  have hpayload := fun c => payload_hmacSignUnsignedCert sign_hmac C c deviceId secret
  constructor
  · intro h
    refine Classical.or_iff_not_imp_left.mpr fun hne hkey => ?_
    have hsent : certHex C c₁ ≠ certHex C c₂ := fun heq =>
      hne (hwire (PercentCoding.toHex_injective heq))
    refine h.maced _ _ _ _ (hpayload c₁) (hpayload c₂) hsent ?_
    rw [macedText, macedText, hkey]
  · intro h
    constructor
    · intro sent₁ hash₁ sent₂ hash₂ h₁ h₂ hsent hmaced
      rw [hpayload, Option.some_inj, Prod.mk.injEq] at h₁ h₂
      rcases h with rfl | hkey
      · exact hsent (h₁.1.symm.trans h₂.1)
      · exact hkey (PercentCoding.toHex_injective hmaced)
    · intro hinj sent₁ hash₁ sent₂ hash₂ h₁ h₂ hsent
      rw [hpayload, Option.some_inj, Prod.mk.injEq] at h₁ h₂
      rcases h with rfl | hkey
      · exact absurd (h₁.1.symm.trans h₂.1) hsent
      · rw [← h₁.2, ← h₂.2]
        exact hash_ne_of_publicKey_ne hinj hkey

/-! ## Certificates with one key -/

/-- The fields of a Data, as texts without a bar. -/
def fieldTexts (f : SignedFields) : List Bytes :=
  [PercentCoding.toHex f.name.toUri, List.replicate f.contentType '1'.toUInt8,
    List.replicate f.freshnessPeriod.toNat '1'.toUInt8,
    List.replicate (-f.freshnessPeriod).toNat '1'.toUInt8, PercentCoding.toHex f.content]

/-- The signer and the fields of a signature. -/
def signatureTexts : Option Signature → List Bytes
  | none => []
  | some sig => PercentCoding.toHex sig.signer :: fieldTexts sig.covers

/-- A wire format: the fields of the certificate, those of its signature, and a full stop. -/
def wireTexts (cert : Certificate) : List Bytes :=
  fieldTexts cert.data.signedFields ++ signatureTexts cert.data.signature ++ [bytes "."]

/-- A codec that writes certificates in this format. -/
def barCodec : CertificateCodec UInt8 where
  wireEncode cert := Delimited.join '|'.toUInt8 (wireTexts cert)
  ofHex _ := none
  ofContent _ := none

theorem fieldTexts_injective : Function.Injective fieldTexts := by
  rintro ⟨n, t, p, c⟩ ⟨n', t', p', c'⟩ h
  simp only [fieldTexts, List.cons.injEq, List.replicate_inj, and_true] at h
  obtain ⟨hname, htype, hpos, hneg, hcontent⟩ := h
  have hname := Name.toUri_injective (PercentCoding.toHex_injective hname)
  have hcontent := PercentCoding.toHex_injective hcontent
  have hperiod : p = p' := by omega
  rw [hname, htype.1, hperiod, hcontent]

theorem bar_notMem_fieldTexts {f : SignedFields} {t : Bytes} (h : t ∈ fieldTexts f) :
    '|'.toUInt8 ∉ t := by
  have hones : ∀ n : ℕ, '|'.toUInt8 ∉ List.replicate n '1'.toUInt8 := by
    intro n hmem
    exact absurd (List.eq_of_mem_replicate hmem) (by decide)
  simp only [fieldTexts, List.mem_cons, List.not_mem_nil, or_false] at h
  rcases h with rfl | rfl | rfl | rfl | rfl
  · exact bar_notMem_toHex _
  · exact hones _
  · exact hones _
  · exact hones _
  · exact bar_notMem_toHex _

theorem signatureTexts_injective : Function.Injective signatureTexts := by
  intro sig sig' h
  cases sig with
  | none =>
    cases sig' with
    | none => rfl
    | some sig' => cases h
  | some sig =>
    cases sig' with
    | none => cases h
    | some sig' =>
      obtain ⟨hsigner, hcovers⟩ := List.cons.inj h
      have hsigner : sig.signer = sig'.signer := PercentCoding.toHex_injective hsigner
      have hcovers : sig.covers = sig'.covers := fieldTexts_injective hcovers
      rw [show sig = ⟨sig.signer, sig.covers⟩ from rfl, hsigner, hcovers]

theorem bar_notMem_signatureTexts {sig : Option Signature} {t : Bytes}
    (h : t ∈ signatureTexts sig) : '|'.toUInt8 ∉ t := by
  cases sig with
  | none => exact absurd h List.not_mem_nil
  | some sig =>
    rcases List.mem_cons.mp h with rfl | h
    · exact bar_notMem_toHex _
    · exact bar_notMem_fieldTexts h

theorem wireTexts_injective : Function.Injective wireTexts := by
  rintro ⟨⟨n, t, p, c, sig⟩, hcert⟩ ⟨⟨n', t', p', c', sig'⟩, hcert'⟩ h
  obtain ⟨hfields, hsig⟩ := List.append_inj (List.append_cancel_right h) rfl
  have hfields := fieldTexts_injective hfields
  simp only [Data.signedFields, SignedFields.mk.injEq] at hfields
  obtain ⟨rfl, rfl, rfl, rfl⟩ := hfields
  obtain rfl : sig = sig' := signatureTexts_injective hsig
  rfl

theorem barCodec_wireEncode_injective : Function.Injective barCodec.wireEncode := by
  intro cert cert' h
  have hbars : ∀ c : Certificate, ∀ t ∈ wireTexts c, '|'.toUInt8 ∉ t := by
    intro c t ht
    rcases List.mem_append.mp ht with ht | ht
    · rcases List.mem_append.mp ht with ht | ht
      · exact bar_notMem_fieldTexts ht
      · exact bar_notMem_signatureTexts ht
    · rw [List.mem_singleton.mp ht]
      decide
  have hlast : ∀ c : Certificate, ∀ t ∈ (wireTexts c).getLast?, t ≠ [] := by
    intro c t ht
    rw [wireTexts, List.getLast?_concat] at ht
    rw [← Option.some.inj ht]
    decide
  have hsplit : Delimited.split '|'.toUInt8 (Delimited.join '|'.toUInt8 (wireTexts cert)) =
      Delimited.split '|'.toUInt8 (Delimited.join '|'.toUInt8 (wireTexts cert')) :=
    congrArg _ h
  rw [Delimited.split_join (hbars cert) (hlast cert),
    Delimited.split_join (hbars cert') (hlast cert')] at hsplit
  exact wireTexts_injective hsplit

theorem hmacCovers_iff_same_key :
    HmacCovers (fun key text => key ++ text) barCodec [] [] deviceOwnCert rogueCert ↔
      deviceOwnCert = rogueCert ∨ deviceOwnCert.publicKey ≠ rogueCert.publicKey :=
  hmacCovers_iff (fun key text => key ++ text) barCodec barCodec_wireEncode_injective [] []
    deviceOwnCert rogueCert

/-- The certificate of the device and a certificate for its key that somebody else signed are
MACed alike. -/
theorem rogue_certificate_maced_alike :
    ¬ ∀ (sign_hmac : Bytes → Bytes → Bytes) (C : CertificateCodec UInt8)
      (deviceId secret : Bytes) (c₁ c₂ : Certificate), Function.Injective C.wireEncode →
        HmacCovers sign_hmac C deviceId secret c₁ c₂ := by
  intro h
  have hcovers := h (fun key text => key ++ text) barCodec [] [] deviceOwnCert rogueCert
    barCodec_wireEncode_injective
  have hpayload := fun c =>
    payload_hmacSignUnsignedCert (fun key text => key ++ text) barCodec c [] []
  have hsent : certHex barCodec deviceOwnCert ≠ certHex barCodec rogueCert := by
    intro heq
    have hcert := barCodec_wireEncode_injective (PercentCoding.toHex_injective heq)
    exact absurd hcert (by decide)
  exact hcovers.maced _ _ _ _ (hpayload deviceOwnCert) (hpayload rogueCert) hsent rfl

end Nacapp.Bootstrap
