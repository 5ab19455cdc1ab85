import Nacapp.Lib.SymbolicMac
import Nacapp.Ndn.Packet

/-!
# Bootstrap messages

The messages of the bootstrap protocol (`node/src/protocol/v2/bootstrap-impl.cpp`): how the
device builds the names and contents it sends, and how it reads those it gets.

The code works on strings in which the hexadecimal form of an HMAC stands next to text.  It is
written here over any alphabet `α` with the operations of `HmacText`, and read in two ways:

* `HmacText.onBytes sign_hmac`: strings of bytes, over the function that computes the HMAC;
* `HmacText.symbolic`: texts in which an HMAC is a symbol, which is how an attacker is modelled.

`validateOwnerCertResp_eval` connects the two: what is accepted symbolically is accepted on
bytes, whatever the function is.

An access past the end of a vector is undefined in the source, and `none` here.
-/

namespace Nacapp

open SymbolicMac

/-! ## Strings with HMACs -/

/-- What the code does with its strings, over an alphabet `α`. -/
structure HmacText (α : Type) where
  /-- A byte of text. -/
  char : UInt8 → α
  /-- The folding under which `boost::iequals` compares. -/
  toUpper : α → α
  /-- A character as a URI shows it. -/
  escape : α → List α
  /-- `toHex(*sign_hmac(fromString(key), fromString(plain)))`. -/
  hmacHex : List α → List α → List α

/-- A name whose components are strings over `α`. -/
abbrev TextName (α : Type) := List (List α)

/-- The fields of a Data the protocol reads. -/
structure TextData (α : Type) where
  name : TextName α
  content : List α
  deriving DecidableEq

/-- `std::toupper` in the classic locale. -/
def asciiToUpper (b : UInt8) : UInt8 :=
  if 'a'.toUInt8 ≤ b ∧ b ≤ 'z'.toUInt8 then b - 32 else b

/-- `randomHex()`, for the number that `rand()` returns. -/
def randomHex (random : ℕ) : Bytes := (Nat.toDigits 16 random).map Char.toUInt8

theorem bar_notMem_randomHex (random : ℕ) : '|'.toUInt8 ∉ randomHex random := by
  induction random using Nat.strong_induction_on with
  | _ n ih =>
    have hdigit : ∀ m < 16, '|'.toUInt8 ≠ (Nat.digitChar m).toUInt8 := by decide
    unfold randomHex
    rw [Nat.toDigits_eq_if (by omega)]
    split
    · rename_i hn
      simpa using hdigit n hn
    · rename_i hn
      rw [List.map_append, List.mem_append, not_or]
      exact ⟨ih (n / 16) (by omega), by simpa using hdigit (n % 16) (by omega)⟩

namespace HmacText

/-- Strings of bytes, with the HMAC computed by `sign_hmac`. -/
def onBytes (sign_hmac : Bytes → Bytes → Bytes) : HmacText UInt8 where
  char b := b
  toUpper := asciiToUpper
  escape := PercentCoding.encodeByte keptInUri
  hmacHex key text := PercentCoding.toHex (sign_hmac key text)

/-- Texts in which the HMAC of a text is a symbol. -/
def symbolic : HmacText (Symbol UInt8) where
  char := .letter
  toUpper
    | .letter b => .letter (asciiToUpper b)
    | .mac key text => .mac key text
  escape
    | .letter b => plain (PercentCoding.encodeByte keptInUri b)
    | .mac key text => [.mac key text]
  hmacHex key text := [.mac key text]

variable {α : Type} (H : HmacText α)

/-- A byte string, over `α`. -/
def str (s : Bytes) : List α := s.map H.char

/-- A name, over `α`. -/
def ofName (n : Name) : TextName α := n.map fun c => H.str c.value

/-- `'|'`, between the fields of a content. -/
def bar : α := H.char '|'.toUInt8

/-- `'^'`, between a device name and a certificate. -/
def caret : α := H.char '^'.toUInt8

variable [DecidableEq α]

/-- `Component::toUri()`. -/
def componentToUri (c : List α) : List α :=
  if c.all (· = H.char '.'.toUInt8) then H.str (bytes "...") ++ c else c.flatMap H.escape

/-- `Name::toUri()`. -/
def toUri (n : TextName α) : List α :=
  if n = [] then H.str (bytes "/") else n.flatMap fun c => H.char '/'.toUInt8 :: H.componentToUri c

/-- `boost::iequals`. -/
def iequals (a b : List α) : Bool := a.map H.toUpper = b.map H.toUpper

/-! ## Checking an HMAC -/

def verifyHash (content key hash : List α) : Bool :=
  let hex := H.hmacHex key content
  H.iequals hex hash

def validateOwnerCertResp (d : TextData α) (expected_r sharedSecret : List α) : Option Bool :=
  match Delimited.split H.bar d.content with
  | cert :: r :: hash :: _ =>
    some (r = expected_r && H.verifyHash (cert ++ H.bar :: r) sharedSecret hash)
  | _ => none

/-- The `hash` is the second argument, whatever the number of arguments. -/
def validateOwnerRequest (interestName args : TextName α) (sharedSecret : List α) : Option Bool :=
  let name := interestName.take (interestName.length - 1)
  match args[1]? with
  | some hash => some (H.verifyHash (H.toUri name) sharedSecret (H.componentToUri hash))
  | none => none

/-! ## The messages of the device -/

def constructBootstrapName (wellknown : TextName α) (randomNo deviceId sharedSecret : List α) :
    TextName α :=
  let interestName := wellknown ++ [H.str (bytes "owner"), H.str (bytes "cert"), deviceId, randomNo]
  let input := deviceId ++ H.bar :: randomNo
  let hex := H.hmacHex sharedSecret input
  interestName ++ [hex]

/-- The name under which `fetchDeviceCert` asks for the signed certificate. -/
def deviceCertName (wellknown : TextName α) (deviceId : List α) : TextName α :=
  wellknown ++ [H.str (bytes "owner"), deviceId, H.str (bytes "cert")]

end HmacText

/-- How certificates are written and read, in `ndn-cxx`.  Reading is `none` where it throws. -/
structure CertificateCodec (α : Type) where
  /-- `wireEncode()`. -/
  wireEncode : Certificate → Bytes
  /-- `Certificate(Block(fromHex(certHex)))`. -/
  ofHex : List α → Option Certificate
  /-- `Certificate(d.getContent())`. -/
  ofContent : List α → Option Certificate

/-- What the HMAC on the unsigned certificate is computed of: its `getContent()`, which is the
public key, in hexadecimal. -/
def macedText (cert : Certificate) : Bytes := PercentCoding.toHex cert.publicKey

namespace HmacText

variable {α : Type} (H : HmacText α)

/-- The HMAC is over the content of the certificate, and keyed by the secret.  The freshness
period is set on a copy of the meta-info, and so not at all. -/
def hmacSignUnsignedCert (C : CertificateCodec α) (deviceCertUnsigned : Certificate)
    (_deviceId sharedSecret : List α) : TextData α :=
  let hex := H.str (macedText deviceCertUnsigned)
  let hash := H.hmacHex sharedSecret hex
  let certHex := H.str (PercentCoding.toHex (C.wireEncode deviceCertUnsigned))
  let newContent := certHex ++ H.bar :: hash
  ⟨H.ofName deviceCertUnsigned.name, newContent⟩

variable [DecidableEq α]

/-- The device name and the owner's certificate. -/
def extractOwnerCert (C : CertificateCodec α) (d : TextData α) : Option (List α × Certificate) :=
  match Delimited.split H.bar d.content with
  | [] => none
  | dnameAndCert :: _ =>
    match Delimited.split H.caret dnameAndCert with
    | dname :: certHex :: _ => (C.ofHex certHex).map fun cert => (dname, cert)
    | _ => none

/-! ## What the checks accept -/

variable {H}

theorem iequals_refl (a : List α) : H.iequals a a = true := decide_eq_true rfl

/-- **An owner response is accepted** exactly when its second field is the nonce and its third
field is the HMAC of the first two, with a bar between them. -/
theorem validateOwnerCertResp_eq_true_iff {d : TextData α} {r k : List α} :
    H.validateOwnerCertResp d r k = some true ↔
      ∃ cert hash rest, Delimited.split H.bar d.content = cert :: r :: hash :: rest ∧
        H.iequals (H.hmacHex k (cert ++ H.bar :: r)) hash = true := by
  unfold validateOwnerCertResp
  constructor
  · intro h
    split at h
    · rename_i cert r' hash rest hsplit
      have h := Option.some.inj h
      rw [Bool.and_eq_true, decide_eq_true_eq] at h
      obtain ⟨rfl, hhash⟩ := h
      exact ⟨cert, hash, rest, hsplit, hhash⟩
    · exact absurd h (by simp)
  · rintro ⟨cert, hash, rest, hsplit, hhash⟩
    rw [hsplit]
    show some (decide (r = r) && H.verifyHash (cert ++ H.bar :: r) k hash) = some true
    rw [verifyHash, hhash, decide_eq_true rfl, Bool.true_and]

/-- The fields of an accepted response have no bar in them. -/
theorem bar_notMem_of_split {s cert r hash : List α} {rest : List (List α)}
    (h : Delimited.split H.bar s = cert :: r :: hash :: rest) : H.bar ∉ cert ∧ H.bar ∉ r := by
  have hmem := Delimited.notMem_of_mem_split (d := H.bar) (s := s)
  rw [h] at hmem
  exact ⟨hmem cert List.mem_cons_self, hmem r (List.mem_cons_of_mem _ List.mem_cons_self)⟩

/-! ## Symbols and bytes -/

/-- On bytes, names are printed the way `Name::toUri()` prints them. -/
theorem toUri_onBytes (sign_hmac : Bytes → Bytes → Bytes) (n : Name) :
    (onBytes sign_hmac).toUri ((onBytes sign_hmac).ofName n) = n.toUri := by
  have hstr : ∀ s : Bytes, (onBytes sign_hmac).str s = s := List.map_id'
  have hcomponent : ∀ c : Component,
      (onBytes sign_hmac).componentToUri ((onBytes sign_hmac).str c.value) = c.toUri := by
    intro c
    rw [hstr, componentToUri, hstr]
    rfl
  unfold toUri Name.toUri ofName
  rw [List.flatMap_map, hstr]
  simp only [hcomponent, List.map_eq_nil_iff]
  rfl

/-- A hash that equals an HMAC up to case is that HMAC. -/
theorem eq_of_iequals_symbolic {key text hash : Text UInt8}
    (h : symbolic.iequals (symbolic.hmacHex key text) hash = true) : hash = [.mac key text] := by
  have hmap : [Symbol.mac key text] = hash.map symbolic.toUpper := of_decide_eq_true h
  obtain ⟨a, rfl⟩ : ∃ a, hash = [a] := by
    rw [← List.length_eq_one_iff, ← List.length_map (f := symbolic.toUpper), ← hmap]
    rfl
  have ha : Symbol.mac key text = symbolic.toUpper a := List.singleton_inj.mp hmap
  cases a with
  | letter b => cases ha
  | mac key' text' => exact congrArg (fun a => [a]) ha.symm

/-- A Data, with its HMACs computed. -/
def evalData (code : Bytes → Bytes → Bytes) (d : TextData (Symbol UInt8)) : TextData UInt8 :=
  ⟨d.name.map (eval code), eval code d.content⟩

theorem bar_notMem_toHex (s : Bytes) : '|'.toUInt8 ∉ PercentCoding.toHex s := by
  intro h
  obtain ⟨n, hn, heq⟩ := PercentCoding.mem_toHex h
  have hdigits := PercentCoding.hexDigit_mem n hn
  rw [← heq] at hdigits
  exact absurd hdigits (by decide)

theorem toHex_ne_nil {s : Bytes} (hs : s ≠ []) : PercentCoding.toHex s ≠ [] := by
  obtain ⟨b, s, rfl⟩ := List.exists_cons_of_ne_nil hs
  exact List.cons_ne_nil _ _

/-- **What is accepted symbolically is accepted on bytes**, under any function that computes
HMACs. -/
theorem validateOwnerCertResp_eval {sign_hmac : Bytes → Bytes → Bytes}
    (hne : ∀ key text, sign_hmac key text ≠ []) {d : TextData (Symbol UInt8)} {r k : Text UInt8}
    (h : symbolic.validateOwnerCertResp d r k = some true) :
    let code := (onBytes sign_hmac).hmacHex
    (onBytes sign_hmac).validateOwnerCertResp (evalData code d) (eval code r) (eval code k) =
      some true := by
  intro code
  obtain ⟨cert, hash, rest, hsplit, hhash⟩ := validateOwnerCertResp_eq_true_iff.mp h
  have hcode : ∀ key text, '|'.toUInt8 ∉ code key text := fun _ _ => bar_notMem_toHex _
  have hcode' : ∀ key text, code key text ≠ [] := fun key text => toHex_ne_nil (hne key text)
  have hfields : Delimited.split '|'.toUInt8 (eval code d.content) =
      eval code cert :: eval code r :: eval code hash :: rest.map (eval code) := by
    rw [split_eval hcode hcode']
    exact congrArg (List.map (eval code)) hsplit
  have hmac :
      eval code hash = code (eval code k) (eval code cert ++ '|'.toUInt8 :: eval code r) := by
    rw [eq_of_iequals_symbolic hhash, eval_mac_cons, eval_append, eval_nil, List.append_nil]
    exact congrArg (fun t => code (eval code k) (eval code cert ++ t))
      (eval_letter_cons code '|'.toUInt8 r)
  refine validateOwnerCertResp_eq_true_iff.mpr ⟨_, _, _, hfields, ?_⟩
  rw [hmac]
  exact iequals_refl _

end HmacText

end Nacapp
