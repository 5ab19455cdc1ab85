import Mathlib.Data.List.Basic

/-!
# Percent-coding of byte strings

A byte is kept or written as `%` and two upper-case hexadecimal digits; which bytes
are kept is a parameter.  Decoding is the lenient one: a `%` that two digits do not
follow is copied, with the two characters after it.

* `decode_encode_append`: decoding undoes encoding, in front of anything, as soon as
  `%` itself is not kept.
* `notMem_encode`: a byte that is not kept does not occur in the encoding, unless the
  escapes are made of it.
-/

namespace PercentCoding

/-! ## Hexadecimal digits -/

/-- The upper-case hexadecimal digit of a number below sixteen. -/
def hexDigit (n : ℕ) : UInt8 :=
  if n < 10 then '0'.toUInt8 + UInt8.ofNat n else 'A'.toUInt8 + UInt8.ofNat (n - 10)

/-- The value of a hexadecimal digit, in either case. -/
def hexValue (b : UInt8) : Option ℕ :=
  if '0'.toUInt8 ≤ b ∧ b ≤ '9'.toUInt8 then some (b - '0'.toUInt8).toNat
  else if 'A'.toUInt8 ≤ b ∧ b ≤ 'F'.toUInt8 then some ((b - 'A'.toUInt8).toNat + 10)
  else if 'a'.toUInt8 ≤ b ∧ b ≤ 'f'.toUInt8 then some ((b - 'a'.toUInt8).toNat + 10)
  else none

theorem hexValue_hexDigit : ∀ n < 16, hexValue (hexDigit n) = some n := by decide

/-- A hexadecimal digit is a decimal digit or one of the letters up to `F`. -/
theorem hexDigit_mem : ∀ n < 16, hexDigit n ∈ "0123456789ABCDEF".toList.map Char.toUInt8 := by
  decide

/-- The two digits of a byte. -/
def hexByte (b : UInt8) : List UInt8 := [hexDigit (b.toNat / 16), hexDigit (b.toNat % 16)]

/-- The digits of a byte string, two for each byte. -/
def toHex (s : List UInt8) : List UInt8 := s.flatMap hexByte

theorem mem_hexByte {b d : UInt8} (h : d ∈ hexByte b) : ∃ n < 16, d = hexDigit n := by
  have hb : b.toNat < 256 := b.toNat_lt
  rcases List.mem_cons.mp h with rfl | h
  · exact ⟨b.toNat / 16, by omega, rfl⟩
  · exact ⟨b.toNat % 16, by omega, List.mem_singleton.mp h⟩

theorem mem_toHex {s : List UInt8} {d : UInt8} (h : d ∈ toHex s) : ∃ n < 16, d = hexDigit n := by
  obtain ⟨b, -, hb⟩ := List.mem_flatMap.mp h
  exact mem_hexByte hb

theorem length_toHex (s : List UInt8) : (toHex s).length = 2 * s.length := by
  induction s with
  | nil => rfl
  | cons b s ih =>
    rw [toHex, List.flatMap_cons, List.length_append, ← toHex, ih, hexByte, List.length_cons]
    simp only [List.length_cons, List.length_nil]
    omega

theorem hexDigit_injective {m n : ℕ} (hm : m < 16) (hn : n < 16) (h : hexDigit m = hexDigit n) :
    m = n := by
  have hvalue := congrArg hexValue h
  rw [hexValue_hexDigit m hm, hexValue_hexDigit n hn] at hvalue
  exact Option.some.inj hvalue

theorem hexByte_injective : Function.Injective hexByte := by
  intro b c h
  have hb : b.toNat < 256 := b.toNat_lt
  have hc : c.toNat < 256 := c.toNat_lt
  obtain ⟨hhigh, hrest⟩ := List.cons.inj h
  have hlow := List.singleton_inj.mp hrest
  have hdiv := hexDigit_injective (by omega) (by omega) hhigh
  have hmod := hexDigit_injective (by omega) (by omega) hlow
  refine UInt8.toNat_inj.mp ?_
  omega

/-- Different strings have different digits. -/
theorem toHex_injective : Function.Injective toHex := by
  intro s t h
  induction s generalizing t with
  | nil =>
    cases t with
    | nil => rfl
    | cons c t => exact absurd h (by simp [toHex, hexByte])
  | cons b s ih =>
    cases t with
    | nil => exact absurd h (by simp [toHex, hexByte])
    | cons c t =>
      have hsplit : hexByte b ++ toHex s = hexByte c ++ toHex t := h
      obtain ⟨hfirst, hrest⟩ := List.append_inj hsplit rfl
      rw [hexByte_injective hfirst, ih hrest]

/-! ## Encoding and decoding -/

variable (keep : UInt8 → Bool)

/-- One byte, kept or escaped. -/
def encodeByte (b : UInt8) : List UInt8 := if keep b then [b] else '%'.toUInt8 :: hexByte b

def encode (s : List UInt8) : List UInt8 := s.flatMap (encodeByte keep)

/-- Escapes are replaced by the byte they stand for, everything else is copied. -/
def decode : List UInt8 → List UInt8
  | [] => []
  | [b] => [b]
  | [b, c] => [b, c]
  | b :: hi :: lo :: rest =>
    if b = '%'.toUInt8 then
      match hexValue hi, hexValue lo with
      | some h, some l => UInt8.ofNat (16 * h + l) :: decode rest
      | _, _ => b :: hi :: lo :: decode rest
    else b :: decode (hi :: lo :: rest)

theorem decode_cons_of_ne {b : UInt8} (hb : b ≠ '%'.toUInt8) (s : List UInt8) :
    decode (b :: s) = b :: decode s := by
  match s with
  | [] => rfl
  | [_] => rfl
  | _ :: _ :: _ => rw [decode, if_neg hb]

/-- Without a `%` nothing is decoded. -/
theorem decode_of_notMem {s : List UInt8} (h : '%'.toUInt8 ∉ s) : decode s = s := by
  induction s with
  | nil => rfl
  | cons b s ih =>
    have hb : b ≠ '%'.toUInt8 := fun hb => h (hb ▸ List.mem_cons_self)
    rw [decode_cons_of_ne hb, ih fun hs => h (List.mem_cons_of_mem _ hs)]

theorem decode_escape (b : UInt8) (s : List UInt8) :
    decode ('%'.toUInt8 :: (hexByte b ++ s)) = b :: decode s := by
  have hb : b.toNat < 256 := b.toNat_lt
  rw [hexByte, List.cons_append, List.cons_append, List.nil_append, decode, if_pos rfl,
    hexValue_hexDigit _ (by omega), hexValue_hexDigit _ (by omega)]
  have hval : 16 * (b.toNat / 16) + b.toNat % 16 = b.toNat := by omega
  simp only [hval, UInt8.ofNat_toNat]

variable {keep}

/-- **Decoding undoes encoding**, in front of anything. -/
theorem decode_encode_append (hkeep : keep '%'.toUInt8 = false) (s rest : List UInt8) :
    decode (encode keep s ++ rest) = s ++ decode rest := by
  induction s with
  | nil => rfl
  | cons b s ih =>
    rw [encode, List.flatMap_cons, List.append_assoc, ← encode, encodeByte]
    split
    · rename_i hb
      have hne : b ≠ '%'.toUInt8 := by
        rintro rfl
        rw [hkeep] at hb
        exact absurd hb Bool.false_ne_true
      rw [List.cons_append, List.nil_append, decode_cons_of_ne hne, ih, List.cons_append]
    · rw [List.cons_append, decode_escape, ih, List.cons_append]

theorem decode_encode (hkeep : keep '%'.toUInt8 = false) (s : List UInt8) :
    decode (encode keep s) = s := by
  have h := decode_encode_append hkeep s []
  rwa [List.append_nil, decode, List.append_nil] at h

/-- A byte that is neither kept nor part of an escape does not occur. -/
theorem notMem_encode {d : UInt8} (hd : keep d = false) (hpercent : d ≠ '%'.toUInt8)
    (hdigit : ∀ n < 16, d ≠ hexDigit n) (s : List UInt8) : d ∉ encode keep s := by
  intro h
  obtain ⟨b, -, hb⟩ := List.mem_flatMap.mp h
  rw [encodeByte] at hb
  split at hb
  · rename_i hkeep
    rw [List.mem_singleton.mp hb, hkeep] at hd
    exact absurd hd (by decide)
  · rcases List.mem_cons.mp hb with rfl | hb
    · exact hpercent rfl
    · obtain ⟨n, hn, rfl⟩ := mem_hexByte hb
      exact hdigit n hn rfl

/-- The strings of kept bytes and of escapes, each of which is a `%` and two upper-case digits. -/
inductive IsEncoded (keep : UInt8 → Bool) : List UInt8 → Prop
  | nil : IsEncoded keep []
  | kept {b : UInt8} {s : List UInt8} (hb : keep b = true) (hs : IsEncoded keep s) :
      IsEncoded keep (b :: s)
  | escape {m n : ℕ} {s : List UInt8} (hm : m < 16) (hn : n < 16) (hs : IsEncoded keep s) :
      IsEncoded keep ('%'.toUInt8 :: hexDigit m :: hexDigit n :: s)

/-- **An encoding is made of kept bytes and escapes.** -/
theorem isEncoded_encode (s : List UInt8) : IsEncoded keep (encode keep s) := by
  induction s with
  | nil => exact .nil
  | cons b s ih =>
    have hb : b.toNat < 256 := b.toNat_lt
    rw [encode, List.flatMap_cons, ← encode, encodeByte]
    split
    · rename_i hkeep
      exact .kept hkeep ih
    · exact .escape (by omega) (by omega) ih

/-- What is kept throughout is its own encoding. -/
theorem encode_of_keep {s : List UInt8} (h : ∀ b ∈ s, keep b = true) : encode keep s = s := by
  induction s with
  | nil => rfl
  | cons b s ih =>
    rw [encode, List.flatMap_cons, ← encode, encodeByte, if_pos (h b List.mem_cons_self),
      ih fun c hc => h c (List.mem_cons_of_mem _ hc), List.cons_append, List.nil_append]

/-- The encoding is empty for the empty string only. -/
theorem encode_eq_nil_iff {s : List UInt8} : encode keep s = [] ↔ s = [] := by
  constructor
  · intro h
    cases s with
    | nil => rfl
    | cons b s =>
      rw [encode, List.flatMap_cons, List.append_eq_nil_iff, encodeByte] at h
      split at h <;> exact absurd h.1 (by simp)
  · rintro rfl
    rfl

end PercentCoding
