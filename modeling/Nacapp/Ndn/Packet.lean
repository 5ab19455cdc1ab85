import Nacapp.Ndn.Name

/-!
# Packets

Interests, Data and certificates, as far as the repository reads and writes them.

A signature is symbolic: it records the key that made it and the fields it was computed
over, which are the name, the meta-info and the content at the time of signing.  Setting
a field later leaves the signature as it is, so a packet verifies exactly when its
signature covers the fields it has now (`Data.Verifies`).

Times are in milliseconds.  A freshness period that was never set reads as `-1`, and that
is what the sending code tests for.
-/

namespace Nacapp

/-! ## Content types -/

/-- `tlv::ContentType_Blob`. -/
def ContentType_Blob : ℕ := 0

/-- `tlv::ContentType_Key`. -/
def ContentType_Key : ℕ := 2

/-- `tlv::ContentType_Nack`. -/
def ContentType_Nack : ℕ := 3

/-! ## Data -/

/-- The fields a signature is computed over. -/
structure SignedFields where
  name : Name
  contentType : ℕ
  freshnessPeriod : ℤ
  content : Bytes
  deriving DecidableEq

/-- A signature: whose key made it, and what it was computed over. -/
structure Signature where
  signer : Bytes
  covers : SignedFields
  deriving DecidableEq

structure Data where
  name : Name
  contentType : ℕ
  freshnessPeriod : ℤ
  content : Bytes
  signature : Option Signature
  deriving DecidableEq

namespace Data

/-- `make_shared<Data>()`: nothing is set. -/
def empty : Data := ⟨[], ContentType_Blob, -1, [], none⟩

def signedFields (d : Data) : SignedFields :=
  ⟨d.name, d.contentType, d.freshnessPeriod, d.content⟩

/-- The packet verifies: its signature covers the fields it has now. -/
def Verifies (d : Data) : Prop := d.signature.map Signature.covers = some d.signedFields

instance (d : Data) : Decidable d.Verifies := inferInstanceAs (Decidable (_ = _))

def setName (d : Data) (name : Name) : Data := { d with name }
def setContentType (d : Data) (contentType : ℕ) : Data := { d with contentType }
def setFreshnessPeriod (d : Data) (freshnessPeriod : ℤ) : Data := { d with freshnessPeriod }
def setContent (d : Data) (content : Bytes) : Data := { d with content }

@[simp] theorem setName_signature (d : Data) (n : Name) :
    (d.setName n).signature = d.signature := rfl

@[simp] theorem setFreshnessPeriod_signature (d : Data) (p : ℤ) :
    (d.setFreshnessPeriod p).signature = d.signature := rfl

theorem verifies_iff {d : Data} {sig : Signature} (h : d.signature = some sig) :
    d.Verifies ↔ sig.covers = d.signedFields := by
  rw [Verifies, h, Option.map_some, Option.some_inj]

theorem not_verifies_of_unsigned {d : Data} (h : d.signature = none) : ¬ d.Verifies := by
  rw [Verifies, h, Option.map_none]
  exact fun heq => absurd heq (by simp)

end Data

/-! ## Signing -/

/-- The default key of a key chain. -/
structure KeyChain where
  signer : Bytes
  deriving DecidableEq

/-- `KeyChain::sign`: the signature binds the fields at the time of the call. -/
def KeyChain.sign (kc : KeyChain) (d : Data) : Data :=
  { d with signature := some ⟨kc.signer, d.signedFields⟩ }

@[simp] theorem KeyChain.sign_signedFields (kc : KeyChain) (d : Data) :
    (kc.sign d).signedFields = d.signedFields := rfl

@[simp] theorem KeyChain.sign_freshnessPeriod (kc : KeyChain) (d : Data) :
    (kc.sign d).freshnessPeriod = d.freshnessPeriod := rfl

theorem KeyChain.sign_verifies (kc : KeyChain) (d : Data) : (kc.sign d).Verifies := rfl

/-! ## Interests and Nacks -/

/-- An Interest.  Of the Exclude selector the code reads the `from` ends of its ranges,
in iteration order. -/
structure Interest where
  name : Name
  exclude : List Component := []
  deriving DecidableEq

/-- What a node puts on its face. -/
inductive Packet where
  | data (d : Data)
  | nack (i : Interest)
  deriving DecidableEq

/-! ## Certificates -/

/-- The name of a certificate is `<identity>/KEY/<key-id>/<issuer>/<version>`. -/
def isCertificateName (n : Name) : Bool :=
  decide (4 ≤ n.length) && (n.drop (n.length - 4)).head? == some (Component.of "KEY")

/-- Certificate format: the name, the content type KEY, a freshness period that is set, and
a key in the content. -/
def isCertificate (d : Data) : Bool :=
  isCertificateName d.name && d.contentType == ContentType_Key &&
    decide (0 ≤ d.freshnessPeriod) && !d.content.isEmpty

/-- A Data in certificate format. -/
structure Certificate where
  data : Data
  isCertificate : isCertificate data = true
  deriving DecidableEq

namespace Certificate

/-- `Certificate(data)`, which throws when the format is not met. -/
def ofData (d : Data) : Option Certificate :=
  if h : Nacapp.isCertificate d = true then some ⟨d, h⟩ else none

def name (c : Certificate) : Name := c.data.name

/-- `getIdentity()`. -/
def identity (c : Certificate) : Name := c.name.dropSuffix 4

/-- `getPublicKey()`. -/
def publicKey (c : Certificate) : Bytes := c.data.content

theorem contentType_eq_key (c : Certificate) : c.data.contentType = ContentType_Key := by
  have h := c.isCertificate
  unfold Nacapp.isCertificate at h
  simp only [Bool.and_eq_true, beq_iff_eq] at h
  exact h.1.1.2

/-- A packet in certificate format for an identity, signed by an authority. -/
def issued (identity : Name) : Data :=
  (KeyChain.mk (bytes "authority")).sign
    ⟨identity ++ [Component.of "KEY", Component.of "1", Component.of "issuer", Component.of "1"],
      ContentType_Key, 3600000, bytes "public-key", none⟩

theorem ofData_eq_some_iff {d : Data} {c : Certificate} : ofData d = some c ↔ c.data = d := by
  rw [ofData]
  constructor
  · intro h
    split at h
    · rw [← Option.some.inj h]
    · exact absurd h (by simp)
  · rintro rfl
    rw [dif_pos c.isCertificate]

theorem ofData_eq_none_iff {d : Data} : ofData d = none ↔ ¬ Nacapp.isCertificate d = true := by
  rw [ofData]
  by_cases h : Nacapp.isCertificate d = true
  · rw [dif_pos h]
    exact iff_of_false (Option.some_ne_none _) fun hnot => hnot h
  · rw [dif_neg h]
    exact iff_of_true rfl h

end Certificate

end Nacapp
