import Nacapp.Shared.SecurityHelpers

/-!
# Cutting the IV off an encrypted buffer

The encrypting side appends an IV of 16 bytes; the decrypting side cuts off as many bytes as
the key has.  And it computes where to cut before it looks at the length of the buffer.

* `roundTrips_iff`: what was encrypted decrypts to the text exactly for keys of 16 bytes, and
  texts whose buffer has a length that is an `int`.
* `slicesInside_iff`: what is cut out lies inside the content exactly when the content is as
  long as the key, and its length is an `int`.
-/

namespace Nacapp.Sec

variable {B : BlockCipher} {key : Bytes}

theorem IsAesKey.length_mem (hkey : IsAesKey key) : 16 ≤ key.length ∧ key.length ≤ 32 := by
  rcases hkey with h | h | h <;> omega

/-- What is encrypted under the IV of the code. -/
theorem AesCbc.encrypt_const_iv (hB : AesCbc B) (hkey : IsAesKey key) (text : Bytes) :
    ∃ cipher, B.encrypt key const_iv text = .ok cipher ∧
      cipher.length = 16 * (text.length / 16 + 1) := hB.encrypt hkey rfl text

/-- An IV of another length is refused, whatever the key. -/
theorem AesCbc.refuses (hB : AesCbc B) (key : Bytes) {iv : Bytes} (hiv : iv.length ≠ 16)
    (text : Bytes) : ∃ e, B.decrypt key iv text = .error e := hB.ivLength hiv text

/-- A buffer whose length is an `int` is read as a whole through its length. -/
theorem read_toSize {buffer : Bytes} (h : buffer.length < 2 ^ 31) :
    read buffer 0 (toSize buffer.length) = .ok buffer := by
  rw [toSize_natCast (by omega)]
  exact read_self (by omega)

/-! ## Decrypting -/

/-- The ciphertext and the IV that `decrypt_aes` reads. -/
def cutOut (content key : Bytes) : Except Failure (Bytes × Bytes) := do
  let keyLength := toInt key.length
  let iv ← extractIv (toInt content.length) keyLength
  let cipherSize ← cipherLength (toInt content.length) keyLength
  let text ← read content 0 (toSize cipherSize)
  let iv ← read content iv (toSize keyLength)
  .ok (text, iv)

/-- What `decrypt_aes` makes of the outcome of the cipher. -/
def decrypted : Except Exn Bytes → Except Failure Bytes
  | .ok plainText => .ok plainText
  | .error e => .error (.thrown (.string (bytes "Decryption error: " ++ e.reason)))

/-- **`decrypt_aes`** decrypts what it cuts out. -/
theorem decryptAesData_eq (hkey : IsAesKey key) (content : Bytes) :
    decryptAesData B content key =
      cutOut content key >>= fun cut => decrypted (B.decrypt key cut.2 cut.1) := by
  have hlength := hkey.length_mem
  rw [decryptAesData, decryptAes, cutOut, toInt_natCast (n := key.length) (by omega)]
  cases extractIv (toInt content.length) key.length with
  | error e => rfl
  | ok iv =>
    cases cipherLength (toInt content.length) key.length with
    | error e => rfl
    | ok cipherSize =>
      rw [ok_bind, ok_bind, ok_bind, ok_bind, decryptAesWithIv, read_toSize (by omega)]
      cases read content 0 (toSize cipherSize) with
      | error e => rfl
      | ok text =>
        rw [ok_bind, ok_bind, ok_bind]
        cases read content iv (toSize key.length) with
        | error e => rfl
        | ok iv => rfl

/-- **A content as long as the key**: the last bytes of it, as many as the key has, are the IV,
and those before them the ciphertext. -/
theorem cutOut_of_le (hkey : IsAesKey key) {content : Bytes}
    (hle : key.length ≤ content.length) (hint : content.length < 2 ^ 31) :
    cutOut content key = .ok (content.take (content.length - key.length),
      content.drop (content.length - key.length)) := by
  have hlength := hkey.length_mem
  generalize hcut : content.length - key.length = cut
  have hdiff : (content.length : ℤ) - key.length = cut := by omega
  have hiv : extractIv content.length key.length = .ok (cut : ℤ) := by
    rw [extractIv, hdiff, arith_of_mem (by omega)]
  have hsize : cipherLength content.length key.length = .ok (cut : ℤ) := by
    rw [cipherLength, hdiff, arith_of_mem (by omega), ok_bind]
    dsimp only
    rw [toSize_natCast (by omega), toInt_natCast (by omega)]
  have htext : read content 0 (toSize cut) = .ok (content.take cut) := by
    rw [toSize_natCast (by omega), read_eq_ok_iff]
    exact ⟨by omega, rfl⟩
  have hread : read content cut (toSize key.length) = .ok (content.drop cut) := by
    rw [toSize_natCast (by omega), read_eq_ok_iff, Int.toNat_natCast]
    refine ⟨by omega, List.take_of_length_le ?_⟩
    rw [List.length_drop]
    omega
  rw [cutOut, toInt_natCast hint, toInt_natCast (by omega), hiv, hsize, ok_bind, ok_bind, htext,
    ok_bind, hread, ok_bind]

/-- **A content shorter than the key** is not looked at before the cut is made. -/
theorem cutOut_of_lt (hkey : IsAesKey key) {content : Bytes}
    (hlt : content.length < key.length) : cutOut content key = .error .undefined := by
  have hlength := hkey.length_mem
  have hiv : extractIv content.length key.length = .ok (content.length - key.length : ℤ) :=
    arith_of_mem (by omega)
  have hread : ∀ size, read content (content.length - key.length : ℤ) size =
      .error .undefined := fun _ => if_neg (by omega)
  rw [cutOut, toInt_natCast (by omega), toInt_natCast (by omega), hiv, ok_bind, cipherLength,
    arith_of_mem (by omega), ok_bind, ok_bind, hread, read]
  split <;> rfl

/-! ## Encrypting -/

/-- The IV is appended to a ciphertext when the length of both is an `int`. -/
theorem appendIv_eq_ok_iff {cipher buffer : Bytes} (hle : cipher.length ≤ 2 ^ 31) :
    appendIv cipher = .ok buffer ↔
      cipher.length < 2 ^ 31 - 16 ∧ buffer = cipher ++ const_iv := by
  have hivLength : (const_iv.length : ℤ) = 16 := rfl
  rw [appendIv, hivLength]
  rcases Nat.lt_or_ge cipher.length (2 ^ 31) with hlt | hge
  · rw [toInt_natCast hlt]
    constructor
    · intro h
      obtain ⟨size, hsize, h⟩ := exists_of_bind_eq_ok h
      rw [arith_eq_ok_iff] at hsize
      rw [if_neg (by omega), if_neg (by omega), Except.ok.injEq, Int.toNat_natCast,
        List.take_length] at h
      exact ⟨by omega, h.symm⟩
    · rintro ⟨hfits, rfl⟩
      rw [arith_of_mem (by omega), ok_bind, if_neg (by omega), if_neg (by omega),
        Int.toNat_natCast, List.take_length]
  · -- the length has become negative, and the vector is refused
    have hsize : toInt cipher.length = -2 ^ 31 := by
      rw [show cipher.length = 2 ^ 31 by omega]
      decide
    rw [hsize, arith_of_mem (by decide), ok_bind, if_pos (by decide)]
    exact iff_of_false nofun fun h => by omega

/-- A text whose length is an `int` is encrypted as a whole. -/
theorem encryptAesWithIv_eq (hkey : IsAesKey key) {plainText : Bytes} {n : ℕ}
    (hn : n ≤ plainText.length) (hint : n < 2 ^ 31) :
    encryptAesWithIv B plainText n key key.length const_iv const_iv.length =
      (B.encrypt key const_iv (plainText.take n)).mapError .thrown := by
  have hlength := hkey.length_mem
  have htext : read plainText 0 (toSize n) = .ok (plainText.take n) := by
    rw [toSize_natCast (by omega), read_eq_ok_iff]
    exact ⟨by omega, rfl⟩
  rw [encryptAesWithIv, htext, ok_bind, read_toSize (by omega), ok_bind,
    read_toSize (by decide), ok_bind]

/-- A text is not encrypted when its length becomes a negative `int`. -/
theorem encryptAesWithIv_of_neg {plainText key iv : Bytes} {textLength keyLength ivLength : ℤ}
    (hneg : textLength < 0) (hlow : -2 ^ 31 ≤ textLength) :
    encryptAesWithIv B plainText textLength key keyLength iv ivLength = .error .undefined := by
  have hsize := le_toSize_of_neg hneg hlow
  have htext : read plainText 0 (toSize textLength) = .error .undefined := if_neg (by omega)
  rw [encryptAesWithIv, htext]
  rfl

/-- **What is encrypted** is as much of the text as its length as an `int` says, when that is
small enough for the buffer. -/
theorem encryptAesString_eq_ok_iff (hB : AesCbc B) (hkey : IsAesKey key)
    {plainText buffer : Bytes} :
    encryptAesString B plainText key = .ok buffer ↔
      ∃ (n : ℕ) (cipher : Bytes), toInt plainText.length = n ∧ n < 2 ^ 31 - 32 ∧
        B.encrypt key const_iv (plainText.take n) = .ok cipher ∧
        buffer = cipher ++ const_iv := by
  have hlength := hkey.length_mem
  have hmem := toInt_mem plainText.length
  have hle := toInt_natCast_le plainText.length
  rw [encryptAesString, toInt_natCast (n := key.length) (by omega), encryptAes]
  rcases Int.lt_or_le (toInt plainText.length) 0 with hneg | hpos
  · rw [encryptAesWithIv_of_neg hneg hmem.1]
    refine iff_of_false nofun ?_
    rintro ⟨n, cipher, hn, -⟩
    omega
  obtain ⟨n, hn⟩ := Int.eq_ofNat_of_zero_le hpos
  rw [hn] at hmem hle ⊢
  obtain ⟨cipher, hcipher, hsize⟩ := hB.encrypt_const_iv hkey (plainText.take n)
  rw [List.length_take, Nat.min_eq_left (by omega)] at hsize
  rw [encryptAesWithIv_eq hkey (by omega) (by omega), hcipher, Except.mapError, ok_bind,
    appendIv_eq_ok_iff (by omega)]
  constructor
  · rintro ⟨hfits, rfl⟩
    exact ⟨n, cipher, rfl, by omega, hcipher, rfl⟩
  · rintro ⟨n', cipher', hn', hfits, hcipher', rfl⟩
    obtain rfl : n = n' := Int.ofNat.inj hn'
    obtain rfl : cipher = cipher' := Except.ok.inj (hcipher.symm.trans hcipher')
    exact ⟨by omega, rfl⟩

/-! ## The round trip -/

/-- **`decrypt_aes` undoes `encrypt_aes`**: the buffer that is returned is cut into the
ciphertext and the IV that were put into it, and decrypts to the text. -/
def RoundTrips (B : BlockCipher) (plainText key : Bytes) : Prop :=
  ∃ cipher buffer, B.encrypt key const_iv plainText = .ok cipher ∧
    encryptAesString B plainText key = .ok buffer ∧
    cutOut buffer key = .ok (cipher, const_iv) ∧
    decryptAesData B buffer key = .ok plainText

theorem length_append_const_iv (cipher : Bytes) :
    (cipher ++ const_iv).length = cipher.length + 16 := List.length_append

/-- Only a key of 16 bytes decrypts a buffer, and then to the text that was encrypted. -/
theorem eq_of_decryptAesData_eq_ok (hB : AesCbc B) (hkey : IsAesKey key)
    {plainText text cipher : Bytes} (hlt : plainText.length < 2 ^ 31 - 32)
    (hcipher : B.encrypt key const_iv plainText = .ok cipher)
    (hdecrypt : decryptAesData B (cipher ++ const_iv) key = .ok text) :
    key.length = 16 ∧ plainText = text := by
  have hkeyLength := hkey.length_mem
  have hbuffer := length_append_const_iv cipher
  obtain ⟨cipher', hcipher', hsize⟩ := hB.encrypt_const_iv hkey plainText
  obtain rfl : cipher = cipher' := Except.ok.inj (hcipher.symm.trans hcipher')
  rw [decryptAesData_eq hkey, cutOut_of_le hkey (by omega) (by omega), ok_bind] at hdecrypt
  dsimp only at hdecrypt
  by_cases hlength : key.length = 16
  · rw [hbuffer, hlength, Nat.add_sub_cancel, List.take_left' rfl, List.drop_left' rfl,
      hB.decrypt hkey rfl hcipher] at hdecrypt
    exact ⟨hlength, Except.ok.inj hdecrypt⟩
  · -- the IV that is cut out is as long as the key
    have hiv : ((cipher ++ const_iv).drop
        ((cipher ++ const_iv).length - key.length)).length ≠ 16 := by
      rw [List.length_drop]
      omega
    obtain ⟨e, he⟩ := hB.refuses key hiv
      ((cipher ++ const_iv).take ((cipher ++ const_iv).length - key.length))
    rw [he] at hdecrypt
    cases hdecrypt

/-- **The round trip** succeeds exactly for keys of 16 bytes, which is the length of the IV, and
texts whose buffer has a length that is an `int`. -/
theorem roundTrips_iff (hB : AesCbc B) (hkey : IsAesKey key) (plainText : Bytes) :
    RoundTrips B plainText key ↔ key.length = 16 ∧ plainText.length < 2 ^ 31 - 32 := by
  constructor
  · rintro ⟨-, buffer, -, hencrypt, -, hdecrypt⟩
    obtain ⟨n, cipher, hn, hlt, hcipher, rfl⟩ := (encryptAesString_eq_ok_iff hB hkey).mp hencrypt
    have hle := toInt_natCast_le plainText.length
    obtain ⟨hlength, htext⟩ := eq_of_decryptAesData_eq_ok hB hkey (by
      rw [List.length_take]
      omega) hcipher hdecrypt
    -- the text that is decrypted is the text that was encrypted, so nothing of it was cut off
    have hwhole := congrArg List.length htext
    rw [List.length_take] at hwhole
    exact ⟨hlength, by omega⟩
  · rintro ⟨hlength, hlt⟩
    obtain ⟨cipher, hcipher, hsize⟩ := hB.encrypt_const_iv hkey plainText
    have hencrypt : encryptAesString B plainText key = .ok (cipher ++ const_iv) := by
      refine (encryptAesString_eq_ok_iff hB hkey).mpr
        ⟨plainText.length, cipher, toInt_natCast (by omega), hlt, ?_, rfl⟩
      rwa [List.take_length]
    have hbuffer := length_append_const_iv cipher
    have hcut : cutOut (cipher ++ const_iv) key = .ok (cipher, const_iv) := by
      rw [cutOut_of_le hkey (by omega) (by omega), hbuffer, hlength, Nat.add_sub_cancel,
        List.take_left' rfl, List.drop_left' rfl]
    refine ⟨cipher, _, hcipher, hencrypt, hcut, ?_⟩
    rw [decryptAesData_eq hkey, hcut, ok_bind]
    show decrypted (B.decrypt key const_iv cipher) = _
    rw [hB.decrypt hkey rfl hcipher]
    rfl

/-- A cipher that mixes the key into every block, in CBC mode. -/
def xorCipher : BlockCipher :=
  let mixKey := fun (key : Bytes) b =>
    BlockChaining.mixBlocks b (BlockChaining.firstBlock 16 key)
  chained mixKey mixKey

theorem aesCbc_xorCipher : AesCbc xorCipher :=
  aesCbc_chained fun _ b => BlockChaining.mixBlocks_mixBlocks b _

theorem roundTrips_iff_hello :
    RoundTrips xorCipher (bytes "hello") (List.replicate 16 7) ↔
      (List.replicate 16 (7 : UInt8)).length = 16 ∧ (bytes "hello").length < 2 ^ 31 - 32 :=
  roundTrips_iff aesCbc_xorCipher (by decide) (bytes "hello")

/-- Under a key of 24 bytes, not even the empty text comes back. -/
theorem long_key_does_not_round_trip :
    ¬ ∀ (B : BlockCipher) (plainText key : Bytes), AesCbc B → IsAesKey key →
      RoundTrips B plainText key := by
  intro h
  have hkey : IsAesKey (List.replicate 24 7) := by decide
  obtain ⟨cipher, buffer, hcipher, hencrypt, -, hdecrypt⟩ :=
    h xorCipher [] (List.replicate 24 7) aesCbc_xorCipher hkey
  obtain ⟨n, cipher', hn, -, hcipher', rfl⟩ :=
    (encryptAesString_eq_ok_iff aesCbc_xorCipher hkey).mp hencrypt
  rw [List.take_nil] at hcipher'
  obtain ⟨hlength, -⟩ := eq_of_decryptAesData_eq_ok aesCbc_xorCipher hkey (by decide) hcipher'
    hdecrypt
  exact absurd hlength (by decide)

/-! ## Slices -/

/-- **`decrypt_aes` computes no slice outside its input**: the IV starts as many bytes before
the end of the content as the key has, the ciphertext is what comes before it, and a content
that is too short for that is reported. -/
structure SlicesInside (B : BlockCipher) (content key : Bytes) : Prop where
  short : content.length < key.length →
    ∃ e, decryptAesData B content key = .error (.thrown e)
  inside : key.length ≤ content.length →
    ∃ offset : ℤ, extractIv (toInt content.length) (toInt key.length) = .ok offset ∧
      0 ≤ offset ∧ offset = content.length - key.length ∧
      cipherLength (toInt content.length) (toInt key.length) = .ok offset ∧
      (toSize offset : ℤ) = offset ∧
      offset + toSize (toInt key.length) ≤ content.length

/-- **The slices lie inside the content** exactly when the content is at least as long as the
key, and its length is an `int`. -/
theorem slicesInside_iff (B : BlockCipher) (hkey : IsAesKey key) (content : Bytes) :
    SlicesInside B content key ↔ key.length ≤ content.length ∧ content.length < 2 ^ 31 := by
  have hlength := hkey.length_mem
  have hkeyInt : toInt key.length = key.length := toInt_natCast (by omega)
  constructor
  · intro h
    have hle : key.length ≤ content.length := by
      by_contra hlt
      obtain ⟨e, he⟩ := h.short (by omega)
      rw [decryptAesData_eq hkey, cutOut_of_lt hkey (by omega)] at he
      cases he
    obtain ⟨offset, hiv, -, hoffset, -⟩ := h.inside hle
    -- the offset is computed from the length as an `int`
    rw [hkeyInt, extractIv, arith_eq_ok_iff] at hiv
    have hint : toInt content.length = content.length := by omega
    have hmem := toInt_mem content.length
    exact ⟨hle, by omega⟩
  · rintro ⟨hle, hint⟩
    have hsize : toSize ((content.length : ℤ) - key.length) = content.length - key.length := by
      rw [← Nat.cast_sub hle, toSize_natCast (by omega)]
    have hkeySize : toSize key.length = key.length := toSize_natCast (by omega)
    constructor
    · intro hlt
      omega
    · intro _
      rw [toInt_natCast hint, hkeyInt]
      refine ⟨content.length - key.length, arith_of_mem (by omega), by omega, rfl, ?_, by omega,
        by omega⟩
      rw [cipherLength, arith_of_mem (by omega), ok_bind]
      dsimp only
      rw [hsize, toInt_natCast (by omega), Nat.cast_sub hle]

theorem slicesInside_iff_of_twenty_bytes :
    SlicesInside xorCipher (List.replicate 20 0) (List.replicate 16 7) ↔
      (List.replicate 16 (7 : UInt8)).length ≤ (List.replicate 20 (0 : UInt8)).length ∧
        (List.replicate 20 (0 : UInt8)).length < 2 ^ 31 :=
  slicesInside_iff xorCipher (by decide) (List.replicate 20 0)

/-- The empty content is not reported: its IV would start sixteen bytes before it. -/
theorem empty_content_not_reported :
    ¬ ∀ (B : BlockCipher) (content key : Bytes), IsAesKey key → SlicesInside B content key := by
  intro h
  have hkey : IsAesKey (List.replicate 16 7) := by decide
  obtain ⟨e, he⟩ := (h xorCipher [] (List.replicate 16 7) hkey).short (by decide)
  rw [decryptAesData_eq hkey, cutOut_of_lt hkey (by decide)] at he
  cases he

end Nacapp.Sec
