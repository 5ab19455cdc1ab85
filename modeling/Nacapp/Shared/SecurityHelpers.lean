import Nacapp.Lib.BlockChaining
import Nacapp.Lib.MachineInts
import Nacapp.Node.NodeImpl

/-!
# Encrypting and decrypting buffers

`encrypt_aes` and `decrypt_aes` (`shared/src/security_helpers.cpp`): a string is encrypted with
AES in CBC mode under a constant IV, which is appended to the ciphertext; to decrypt, the IV is
cut off the end of the buffer again.

Lengths are `int` in these functions and `size_t` in those they call, and are converted where
the source converts them.  A pointer is a buffer and an offset in it.  An overflow of an `int`
and an access outside a buffer are undefined (`Failure.undefined`).

The cipher of `ndn-cxx` is a parameter `B : BlockCipher`.  What it is documented to do is
`AesCbc B`; `aesCbc_chained` is what it does with any block cipher on blocks of 16 bytes.
-/

namespace Nacapp.Sec

open MachineInts

/-! ## Lengths and pointers -/

/-- What goes wrong. -/
inductive Failure where
  /-- An overflow, or an access outside a buffer. -/
  | undefined
  | thrown (e : Exn)
  deriving DecidableEq

/-- Conversion to `int`. -/
def toInt (i : ℤ) : ℤ := signed 32 i

/-- Conversion to `size_t`. -/
def toSize (i : ℤ) : ℕ := unsigned 64 i

/-- The result of arithmetic on `int`. -/
def arith (i : ℤ) : Except Failure ℤ :=
  match fit 32 i with
  | some i => .ok i
  | none => .error .undefined

/-- The bytes at an offset in a buffer.  No buffer has `2 ^ 63` bytes. -/
def read (buffer : Bytes) (offset : ℤ) (size : ℕ) : Except Failure Bytes :=
  if 0 ≤ offset ∧ offset + size ≤ buffer.length ∧ size < 2 ^ 63 then
    .ok ((buffer.drop offset.toNat).take size)
  else .error .undefined

/-! ## The cipher -/

/-- `blockCipher` with `AES_CBC`, for both operators. -/
structure BlockCipher where
  encrypt (key iv text : Bytes) : Except Exn Bytes
  decrypt (key iv text : Bytes) : Except Exn Bytes

/-- The lengths of the keys AES accepts. -/
def IsAesKey (key : Bytes) : Prop := key.length = 16 ∨ key.length = 24 ∨ key.length = 32

instance (key : Bytes) : Decidable (IsAesKey key) := inferInstanceAs (Decidable (_ ∨ _))

/-- What AES in CBC mode does: it encrypts under an IV of 16 bytes, to as many blocks as the
padded text has, which decrypt to the text; an IV of another length is refused. -/
structure AesCbc (B : BlockCipher) : Prop where
  encrypt {key iv : Bytes} (hkey : IsAesKey key) (hiv : iv.length = 16) (text : Bytes) :
    ∃ cipher, B.encrypt key iv text = .ok cipher ∧ cipher.length = 16 * (text.length / 16 + 1)
  decrypt {key iv text cipher : Bytes} (hkey : IsAesKey key) (hiv : iv.length = 16)
    (henc : B.encrypt key iv text = .ok cipher) : B.decrypt key iv cipher = .ok text
  ivLength {key iv : Bytes} (hiv : iv.length ≠ 16) (text : Bytes) :
    ∃ e, B.decrypt key iv text = .error e

/-- A block cipher in CBC mode. -/
def chained (E D : Bytes → Vector UInt8 16 → Vector UInt8 16) : BlockCipher where
  encrypt key iv text :=
    if iv.length ≠ 16 then .error (.exception (bytes "IV length must match"))
    else .ok (BlockChaining.encryptBytes (E key) iv text)
  decrypt key iv text :=
    if iv.length ≠ 16 then .error (.exception (bytes "IV length must match"))
    else match BlockChaining.decryptBytes (D key) iv text with
      | some text => .ok text
      | none => .error (.exception (bytes "Failed to finalize decryption"))

section Chained

variable {E D : Bytes → Vector UInt8 16 → Vector UInt8 16} {key iv : Bytes}

theorem chained_encrypt (hiv : iv.length = 16) (text : Bytes) :
    (chained E D).encrypt key iv text = .ok (BlockChaining.encryptBytes (E key) iv text) :=
  if_neg (not_not.mpr hiv)

theorem chained_decrypt (hiv : iv.length = 16) {cipher text : Bytes}
    (h : BlockChaining.decryptBytes (D key) iv cipher = some text) :
    (chained E D).decrypt key iv cipher = .ok text := by
  refine (if_neg (not_not.mpr hiv)).trans ?_
  rw [h]

/-- **CBC mode of any block cipher** does what is asked. -/
theorem aesCbc_chained (hD : ∀ key b, D key (E key b) = b) : AesCbc (chained E D) where
  encrypt _ hiv text :=
    ⟨_, chained_encrypt hiv text, BlockChaining.length_encryptBytes _ _ (by decide) text⟩
  decrypt {key iv text cipher} _ hiv henc := by
    rw [chained_encrypt hiv, Except.ok.injEq] at henc
    refine chained_decrypt hiv ?_
    rw [← henc]
    exact BlockChaining.decryptBytes_encryptBytes (by decide) (by decide) (hD key) text
  ivLength hiv _ := ⟨_, if_pos hiv⟩

end Chained

/-! ## Encrypting -/

variable (B : BlockCipher)

def const_iv : Bytes :=
  [0x08, 0x09, 0x0a, 0x0b, 0x0c, 0x0d, 0x0e, 0x0f, 0x00, 0x01, 0x02, 0x03, 0x04, 0x05, 0x06, 0x07]

/-- `encrypt_aes` with an IV. -/
def encryptAesWithIv (plainText : Bytes) (textLength : ℤ) (key : Bytes) (keyLength : ℤ)
    (iv : Bytes) (ivLength : ℤ) : Except Failure Bytes := do
  let text ← read plainText 0 (toSize textLength)
  let key ← read key 0 (toSize keyLength)
  let iv ← read iv 0 (toSize ivLength)
  (B.encrypt key iv text).mapError .thrown

/-- The ciphertext and the IV, copied byte by byte into a vector of their length. -/
def appendIv (cipher : Bytes) : Except Failure Bytes := do
  let ivLength : ℤ := const_iv.length
  let cipherSize := toInt cipher.length
  let size ← arith (cipherSize + ivLength)
  if size < 0 then .error (.thrown (.exception (bytes "vector")))
  -- the IV goes to `r[cipherSize]` and on
  else if cipherSize < 0 then .error .undefined
  else .ok (cipher.take cipherSize.toNat ++ const_iv)

/-- `encrypt_aes` with lengths. -/
def encryptAes (plainText : Bytes) (textLength : ℤ) (key : Bytes) (keyLength : ℤ) :
    Except Failure Bytes := do
  let cipher ← encryptAesWithIv B plainText textLength key keyLength const_iv const_iv.length
  appendIv cipher

/-- `encrypt_aes` of a string. -/
def encryptAesString (plainText key : Bytes) : Except Failure Bytes :=
  encryptAes B plainText (toInt plainText.length) key (toInt key.length)

/-! ## Decrypting -/

/-- `decrypt_aes` with a pointer to an IV, which is taken to be as long as the key. -/
def decryptAesWithIv (cipherText : Bytes) (cipherLength : ℤ) (key : Bytes) (keyLength : ℤ)
    (iv : ℤ) : Except Failure Bytes := do
  let ivLength := keyLength
  let text ← read cipherText 0 (toSize cipherLength)
  let key ← read key 0 (toSize keyLength)
  let iv ← read cipherText iv (toSize ivLength)
  match B.decrypt key iv text with
  | .ok plainText => .ok plainText
  | .error e => .error (.thrown (.string (bytes "Decryption error: " ++ e.reason)))

/-- `extract_iv`: the offset of the IV in the text. -/
def extractIv (textLength keyLength : ℤ) : Except Failure ℤ := arith (textLength - keyLength)

/-- The ciphertext length `decrypt_aes` passes on, a `size_t` where it is computed and an `int`
where it arrives. -/
def cipherLength (textLength keyLength : ℤ) : Except Failure ℤ := do
  let cipherSize := toSize (← arith (textLength - keyLength))
  .ok (toInt cipherSize)

/-- `decrypt_aes` with lengths. -/
def decryptAes (cipherText : Bytes) (textLength : ℤ) (key : Bytes) (keyLength : ℤ) :
    Except Failure Bytes := do
  let iv ← extractIv textLength keyLength
  let cipherSize ← cipherLength textLength keyLength
  decryptAesWithIv B cipherText cipherSize key keyLength iv

/-- `decrypt_aes` of the content of a Data. -/
def decryptAesData (content key : Bytes) : Except Failure Bytes :=
  decryptAes B content (toInt content.length) key (toInt key.length)

/-! ## Lengths that fit -/

theorem fits_int_iff {i : ℤ} : Fits 32 i ↔ -2 ^ 31 ≤ i ∧ i < 2 ^ 31 := by
  rw [Fits]
  omega

theorem toInt_eq_self_iff {i : ℤ} : toInt i = i ↔ -2 ^ 31 ≤ i ∧ i < 2 ^ 31 := by
  rw [toInt, signed_eq_self_iff (by decide), fits_int_iff]

theorem toInt_mem (i : ℤ) : -2 ^ 31 ≤ toInt i ∧ toInt i < 2 ^ 31 :=
  fits_int_iff.mp (fits_signed (by decide) i)

theorem toInt_natCast {n : ℕ} (h : n < 2 ^ 31) : toInt n = n := by
  rw [toInt_eq_self_iff]
  omega

/-- A conversion of a length to `int` makes it no larger. -/
theorem toInt_natCast_le (n : ℕ) : toInt n ≤ n := by
  by_cases h : n < 2 ^ 31
  · exact (toInt_natCast h).le
  · have hmem := toInt_mem n
    omega

theorem toSize_natCast {n : ℕ} (h : n < 2 ^ 64) : toSize n = n := unsigned_natCast h

/-- A negative `int` is no size of a buffer. -/
theorem le_toSize_of_neg {i : ℤ} (hneg : i < 0) (hlow : -2 ^ 31 ≤ i) : 2 ^ 63 ≤ toSize i := by
  have hsize : (toSize i : ℤ) = 2 ^ 64 + i := unsigned_of_neg hneg (by omega)
  omega

theorem arith_of_mem {i : ℤ} (h : -2 ^ 31 ≤ i ∧ i < 2 ^ 31) : arith i = .ok i := by
  rw [arith, fit_of_fits (fits_int_iff.mpr h)]

theorem arith_eq_ok_iff {i j : ℤ} : arith i = .ok j ↔ (-2 ^ 31 ≤ i ∧ i < 2 ^ 31) ∧ i = j := by
  rw [arith, ← fits_int_iff, ← fit_eq_some_iff]
  cases fit 32 i with
  | none => exact iff_of_false nofun nofun
  | some i => rw [Except.ok.injEq, Option.some_inj]

theorem read_eq_ok_iff {buffer s : Bytes} {offset : ℤ} {size : ℕ} :
    read buffer offset size = .ok s ↔
      (0 ≤ offset ∧ offset + size ≤ buffer.length ∧ size < 2 ^ 63) ∧
        (buffer.drop offset.toNat).take size = s := by
  rw [read]
  split
  · rename_i h
    rw [Except.ok.injEq]
    exact (and_iff_right h).symm
  · rename_i h
    exact iff_of_false nofun fun h' => h h'.1

/-- A buffer that is read as a whole. -/
theorem read_self {buffer : Bytes} (h : buffer.length < 2 ^ 63) :
    read buffer 0 buffer.length = .ok buffer := by
  rw [read_eq_ok_iff]
  refine ⟨by omega, ?_⟩
  rw [Int.toNat_zero, List.drop_zero, List.take_length]

end Nacapp.Sec
