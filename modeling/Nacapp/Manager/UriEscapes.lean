import Nacapp.Manager.UriStrings

/-!
# Which percent-encodings are accepted

`uriEncode` writes an escape as `%` and two hexadecimal digits.  `uriDecode` reads the two
characters after a `%`, or as many as there are, with `std::stoi`, and goes on behind them
whatever `std::stoi` made of them.

* `uriDecode_undoes_uriEncode`: what `uriEncode` writes is read back, and of the form it should
  have.
* `uriDecode_isOk_iff`: what `uriDecode` accepts: escapes that start with a digit, or with a
  blank or a sign and a digit.
* `decodesStrictly_iff`: `uriDecode` tells well-formed strings from others exactly where each
  escape has two digits, or some escape is not read at all.
-/

namespace Nacapp

/-! ## Round trip -/

/-- **`uriDecode` undoes `uriEncode`**, which is injective and writes letters, digits, the marks
it keeps and escapes of two upper-case digits; so it writes no slash. -/
theorem uriDecode_undoes_uriEncode :
    (∀ s : Bytes, uriDecode (uriEncode s) = .ok s ∧
        PercentCoding.IsEncoded keptByUriEncode (uriEncode s) ∧ '/'.toUInt8 ∉ uriEncode s) ∧
      Function.Injective uriEncode := by
  have hround : ∀ s, uriDecode (uriEncode s) = .ok s := uriDecode_encode (by decide)
  refine ⟨fun s => ⟨hround s, PercentCoding.isEncoded_encode s, ?_⟩, ?_⟩
  · exact PercentCoding.notMem_encode (by decide) (by decide) (by decide) s
  · intro s t h
    have hs := hround s
    rw [h, hround t] at hs
    exact (Except.ok.inj hs).symm

/-! ## Scanning for escapes -/

/-- A character that stands for itself, or the characters behind a `%`. -/
inductive Piece where
  | plain (b : UInt8)
  | escape (hex : Bytes)

/-- A string as it is scanned from left to right; an escape at the end may be cut short. -/
def pieces : Bytes → List Piece
  | [] => []
  | [a] => if a = '%'.toUInt8 then [.escape []] else [.plain a]
  | [a, b] => if a = '%'.toUInt8 then [.escape [b]] else .plain a :: pieces [b]
  | a :: b :: c :: rest =>
    if a = '%'.toUInt8 then .escape [b, c] :: pieces rest else .plain a :: pieces (b :: c :: rest)

/-- The byte a piece is decoded to. -/
def Piece.decode : Piece → Except Exn UInt8
  | .plain b => .ok b
  | .escape hex => decodeEscape hex

theorem mapM_decode_cons (p : Piece) (ps : List Piece) :
    (p :: ps).mapM Piece.decode =
      p.decode >>= fun b => (ps.mapM Piece.decode).map (b :: ·) := by
  rw [List.mapM_cons]
  cases p.decode with
  | error e => rfl
  | ok b => cases ps.mapM Piece.decode <;> rfl

/-- **`uriDecode` decodes piece by piece.** -/
theorem uriDecode_eq_mapM (s : Bytes) : uriDecode s = (pieces s).mapM Piece.decode := by
  fun_induction pieces s with
  | case1 => rfl
  | case2 =>
    rw [uriDecode, if_pos rfl, mapM_decode_cons]
    show (decodeEscape []).map _ = decodeEscape [] >>= _
    cases decodeEscape [] <;> rfl
  | case3 a h => rw [uriDecode, if_neg h]; rfl
  | case4 b =>
    rw [uriDecode, if_pos rfl, mapM_decode_cons]
    show (decodeEscape [b]).map _ = decodeEscape [b] >>= _
    cases decodeEscape [b] <;> rfl
  | case5 a b h ih => rw [uriDecode_cons_of_ne h, ih, mapM_decode_cons]; rfl
  | case6 b c rest ih => rw [uriDecode, if_pos rfl, ih, mapM_decode_cons]; rfl
  | case7 a b c rest h ih => rw [uriDecode_cons_of_ne h, ih, mapM_decode_cons]; rfl

/-- Pieces decode when each of them does, to one byte each. -/
theorem exists_mapM_decode_eq_ok_iff {ps : List Piece} :
    (∃ t, ps.mapM Piece.decode = .ok t) ↔ ∀ p ∈ ps, ∃ b, p.decode = .ok b := by
  induction ps with
  | nil => exact iff_of_true ⟨[], rfl⟩ nofun
  | cons p ps ih =>
    rw [mapM_decode_cons, List.forall_mem_cons, ← ih]
    cases p.decode with
    | error e => exact iff_of_false (fun ⟨_, h⟩ => nomatch h) fun ⟨⟨_, h⟩, _⟩ => nomatch h
    | ok b =>
      cases ps.mapM Piece.decode with
      | error e => exact iff_of_false (fun ⟨_, h⟩ => nomatch h) fun ⟨_, _, h⟩ => nomatch h
      | ok t => exact iff_of_true ⟨b :: t, rfl⟩ ⟨⟨b, rfl⟩, t, rfl⟩

theorem length_of_mapM_decode_eq_ok {ps : List Piece} {t : Bytes}
    (h : ps.mapM Piece.decode = .ok t) : t.length = ps.length := by
  induction ps generalizing t with
  | nil =>
    rw [← Except.ok.inj h]
    rfl
  | cons p ps ih =>
    rw [mapM_decode_cons] at h
    obtain ⟨b, -, h⟩ := exists_of_bind_eq_ok h
    cases hrest : ps.mapM Piece.decode with
    | error e =>
      rw [hrest] at h
      cases h
    | ok rest =>
      rw [hrest] at h
      rw [← Except.ok.inj h, List.length_cons, ih hrest, List.length_cons]

/-! ## What `std::stoi` reads of two characters -/

def isHexDigit (b : UInt8) : Bool := (PercentCoding.hexValue b).isSome

def isSign (b : UInt8) : Bool := b = '-'.toUInt8 || b = '+'.toUInt8

/-- One or two characters that start with a digit, or with a blank or a sign and a digit. -/
def StartsNumber : Bytes → Prop
  | [] => False
  | [b] => isHexDigit b = true
  | a :: b :: _ =>
    isHexDigit a = true ∨ (isSpace a = true ∨ isSign a = true) ∧ isHexDigit b = true

/-- What `stoi` reads digits from: a sign is passed. -/
def afterSign (s : Bytes) : Bytes :=
  if s.head? = some '-'.toUInt8 ∨ s.head? = some '+'.toUInt8 then s.tail else s

theorem hexValue_lt {b : UInt8} {d : ℕ} (h : PercentCoding.hexValue b = some d) : d < 16 := by
  have hall : ∀ n < 256, ∀ d ∈ PercentCoding.hexValue (UInt8.ofNat n), d < 16 := by
    decide +kernel
  have hb := hall b.toNat b.toNat_lt d
  rw [UInt8.ofNat_toNat] at hb
  exact hb h

theorem leadingDigits_cons_ne_nil_iff {b : UInt8} {rest : Bytes} :
    leadingDigits 16 (b :: rest) ≠ [] ↔ isHexDigit b = true := by
  rw [leadingDigits, isHexDigit]
  cases hvalue : PercentCoding.hexValue b with
  | none => exact iff_of_false (not_not.mpr rfl) nofun
  | some d =>
    dsimp only
    rw [if_pos (hexValue_lt hvalue)]
    exact iff_of_true (List.cons_ne_nil _ _) rfl

theorem lt_of_mem_leadingDigits {base d : ℕ} {s : Bytes} (h : d ∈ leadingDigits base s) :
    d < base := by
  induction s with
  | nil => exact absurd h List.not_mem_nil
  | cons b rest ih =>
    rw [leadingDigits] at h
    split at h
    · split at h
      · rcases List.mem_cons.mp h with rfl | h
        · assumption
        · exact ih h
      · exact absurd h List.not_mem_nil
    · exact absurd h List.not_mem_nil

theorem length_leadingDigits_le (base : ℕ) (s : Bytes) :
    (leadingDigits base s).length ≤ s.length := by
  induction s with
  | nil => exact le_rfl
  | cons b rest ih =>
    rw [leadingDigits]
    split
    · split
      · rw [List.length_cons, List.length_cons]
        omega
      · exact Nat.zero_le _
    · exact Nat.zero_le _

/-- Two digits are worth less than 256. -/
theorem foldl_digits_lt {ds : List ℕ} (hlt : ∀ d ∈ ds, d < 16) (hlength : ds.length ≤ 2) :
    ds.foldl (fun n d => 16 * n + d) 0 < 256 := by
  match ds with
  | [] => decide
  | [d] =>
    have hd := hlt d List.mem_cons_self
    show 16 * 0 + d < 256
    omega
  | [d, e] =>
    have hd := hlt d List.mem_cons_self
    have he := hlt e (List.mem_cons_of_mem _ List.mem_cons_self)
    show 16 * (16 * 0 + d) + e < 256
    omega
  | _ :: _ :: _ :: _ =>
    simp only [List.length_cons] at hlength
    omega

theorem length_afterSign_le (s : Bytes) : (afterSign s).length ≤ s.length := by
  rw [afterSign]
  split
  · exact List.length_tail.trans_le (Nat.sub_le _ _)
  · exact le_rfl

/-- Two characters have no room for `0x` and a digit. -/
theorem dropHexMark_of_length_le {s : Bytes} (h : s.length ≤ 2) : dropHexMark 16 s = s := by
  match s with
  | [] => rfl
  | [_] => rfl
  | [_, _] => exact if_neg fun h => h.2.2.2 rfl
  | _ :: _ :: _ :: _ =>
    simp only [List.length_cons] at h
    omega

/-- **`stoi` reads two characters** when there is a digit behind blanks and a sign. -/
theorem exists_stoi_eq_ok_iff {s : Bytes} (hlength : s.length ≤ 2) :
    (∃ v, stoi 16 s = .ok v) ↔ leadingDigits 16 (afterSign (s.dropWhile isSpace)) ≠ [] := by
  have hrest := (s.length_dropWhile_le isSpace).trans hlength
  have hsigned := (length_afterSign_le (s.dropWhile isSpace)).trans hrest
  have hdigits := length_leadingDigits_le 16 (afterSign (s.dropWhile isSpace))
  have hlt : ∀ d ∈ leadingDigits 16 (afterSign (s.dropWhile isSpace)), d < 16 :=
    fun _ => lt_of_mem_leadingDigits
  have hmagnitude := foldl_digits_lt hlt (hdigits.trans hsigned)
  rw [stoi]
  dsimp only
  rw [show (if _ ∨ _ then (s.dropWhile isSpace).tail else s.dropWhile isSpace) =
    afterSign (s.dropWhile isSpace) from rfl, dropHexMark_of_length_le hsigned]
  generalize leadingDigits 16 (afterSign (s.dropWhile isSpace)) = digits at hmagnitude
  cases digits with
  | nil =>
    refine iff_of_false ?_ (not_not.mpr rfl)
    rintro ⟨v, h⟩
    cases h
  | cons d ds =>
    refine iff_of_true ?_ (List.cons_ne_nil d ds)
    dsimp only
    generalize (d :: ds).foldl (fun n d => 16 * n + d) 0 = magnitude at hmagnitude
    rw [if_pos (by split <;> omega)]
    exact ⟨_, rfl⟩

theorem isHexDigit_of_isSpace {b : UInt8} (h : isSpace b = true) : isHexDigit b = false := by
  have hall : ∀ b ∈ ([9, 10, 11, 12, 13, 32] : List UInt8), isHexDigit b = false := by
    decide +kernel
  exact hall b (of_decide_eq_true h)

theorem isHexDigit_of_isSign {b : UInt8} (h : isSign b = true) : isHexDigit b = false := by
  rw [isSign, Bool.or_eq_true, decide_eq_true_eq, decide_eq_true_eq] at h
  rcases h with rfl | rfl <;> decide

theorem afterSign_cons (b : UInt8) (rest : Bytes) :
    afterSign (b :: rest) = if isSign b = true then rest else b :: rest := by
  simp only [afterSign, isSign, List.head?_cons, Option.some.injEq, List.tail_cons,
    Bool.or_eq_true, decide_eq_true_eq]

/-- What one character can be. -/
theorem leadingDigits_afterSign_singleton_ne_nil_iff (b : UInt8) :
    leadingDigits 16 (afterSign ([b].dropWhile isSpace)) ≠ [] ↔ isHexDigit b = true := by
  by_cases hspace : isSpace b = true
  · rw [List.dropWhile_cons_of_pos hspace, isHexDigit_of_isSpace hspace]
    exact iff_of_false (not_not.mpr rfl) nofun
  rw [List.dropWhile_cons_of_neg hspace, afterSign_cons]
  by_cases hsign : isSign b = true
  · rw [if_pos hsign, isHexDigit_of_isSign hsign]
    exact iff_of_false (not_not.mpr rfl) nofun
  · rw [if_neg hsign]
    exact leadingDigits_cons_ne_nil_iff

/-- **Which escapes are read.** -/
theorem decodeEscape_isOk_iff {hex : Bytes} (hlength : hex.length ≤ 2) :
    (∃ b, decodeEscape hex = .ok b) ↔ StartsNumber hex := by
  have hstoi : (∃ b, decodeEscape hex = .ok b) ↔ ∃ v, stoi 16 hex = .ok v := by
    rw [decodeEscape]
    cases stoi 16 hex with
    | error e => exact iff_of_false (fun ⟨_, h⟩ => nomatch h) fun ⟨_, h⟩ => nomatch h
    | ok v => exact iff_of_true ⟨_, rfl⟩ ⟨v, rfl⟩
  rw [hstoi, exists_stoi_eq_ok_iff hlength]
  match hex with
  | [] => exact iff_of_false (not_not.mpr rfl) nofun
  | [b] => exact leadingDigits_afterSign_singleton_ne_nil_iff b
  | [a, b] =>
    rw [StartsNumber]
    by_cases hspace : isSpace a = true
    · rw [List.dropWhile_cons_of_pos hspace, leadingDigits_afterSign_singleton_ne_nil_iff,
        isHexDigit_of_isSpace hspace]
      simp [hspace]
    rw [List.dropWhile_cons_of_neg hspace, afterSign_cons]
    by_cases hsign : isSign a = true
    · rw [if_pos hsign, leadingDigits_cons_ne_nil_iff, isHexDigit_of_isSign hsign]
      simp [hsign]
    · rw [if_neg hsign, leadingDigits_cons_ne_nil_iff]
      simp [hspace, hsign]
  | _ :: _ :: _ :: _ =>
    simp only [List.length_cons] at hlength
    omega

/-! ## What `uriDecode` accepts -/

/-- Two hexadecimal digits. -/
def IsHexPair : Bytes → Prop
  | [a, b] => isHexDigit a = true ∧ isHexDigit b = true
  | _ => False

/-- Every `%` is followed by two hexadecimal digits. -/
def WellFormed (s : Bytes) : Prop := ∀ hex, .escape hex ∈ pieces s → IsHexPair hex

theorem length_le_of_escape_mem {s hex : Bytes} (h : .escape hex ∈ pieces s) :
    hex.length ≤ 2 := by
  fun_induction pieces s with
  | case1 => exact absurd h List.not_mem_nil
  | case2 =>
    rw [Piece.escape.inj (List.mem_singleton.mp h)]
    exact Nat.zero_le _
  | case3 => exact nomatch List.mem_singleton.mp h
  | case4 =>
    rw [Piece.escape.inj (List.mem_singleton.mp h)]
    exact Nat.le_succ 1
  | case5 a b h' ih => exact ih ((List.mem_cons.mp h).resolve_left nofun)
  | case6 b c rest ih =>
    rcases List.mem_cons.mp h with h | h
    · rw [Piece.escape.inj h]
      exact le_rfl
    · exact ih h
  | case7 a b c rest h' ih => exact ih ((List.mem_cons.mp h).resolve_left nofun)

/-- **`uriDecode` accepts** a string when all its escapes are read. -/
theorem uriDecode_isOk_iff (s : Bytes) :
    (∃ t, uriDecode s = .ok t) ↔ ∀ hex, .escape hex ∈ pieces s → StartsNumber hex := by
  rw [uriDecode_eq_mapM, exists_mapM_decode_eq_ok_iff]
  constructor
  · intro h hex hmem
    exact (decodeEscape_isOk_iff (length_le_of_escape_mem hmem)).mp (h _ hmem)
  · intro h p hp
    cases p with
    | plain b => exact ⟨b, rfl⟩
    | escape hex => exact (decodeEscape_isOk_iff (length_le_of_escape_mem hp)).mpr (h hex hp)

theorem IsHexPair.startsNumber {hex : Bytes} (h : IsHexPair hex) : StartsNumber hex := by
  match hex with
  | [a, b] => exact Or.inl h.1

/-- **`uriDecode` is strict** about a string: it accepts it exactly when it is well-formed, and
decodes every character that stands for itself and every escape to one byte. -/
structure DecodesStrictly (s : Bytes) : Prop where
  accepts : (∃ t, uriDecode s = .ok t) ↔ WellFormed s
  length : ∀ t, uriDecode s = .ok t → t.length = (pieces s).length

/-- **`uriDecode` is strict** exactly about the strings that are well-formed, and those with an
escape that does not start with a number. -/
theorem decodesStrictly_iff (s : Bytes) :
    DecodesStrictly s ↔
      WellFormed s ∨ ∃ hex, .escape hex ∈ pieces s ∧ ¬ StartsNumber hex := by
  have hread : (∃ t, uriDecode s = .ok t) ↔
      ¬ ∃ hex, .escape hex ∈ pieces s ∧ ¬ StartsNumber hex := by
    rw [uriDecode_isOk_iff]
    simp only [not_exists, not_and, not_not]
  constructor
  · intro h
    by_cases hwell : WellFormed s
    · exact Or.inl hwell
    · exact Or.inr (by_contra fun hall => hwell (h.accepts.mp (hread.mpr hall)))
  · intro h
    refine ⟨?_, fun t ht => ?_⟩
    · rw [hread]
      rcases h with hwell | hunread
      · exact iff_of_true (fun ⟨hex, hmem, hnot⟩ => hnot (hwell hex hmem).startsNumber) hwell
      · refine iff_of_false (not_not.mpr hunread) fun hwell => ?_
        obtain ⟨hex, hmem, hnot⟩ := hunread
        exact hnot (hwell hex hmem).startsNumber
    · rw [uriDecode_eq_mapM] at ht
      exact length_of_mapM_decode_eq_ok ht

/-- An escape that is cut short is accepted. -/
theorem short_escape_accepted : ¬ ∀ s : Bytes, DecodesStrictly s := by
  intro h
  have hread : uriDecode (bytes "%4") = .ok [4] := by decide
  exact (h (bytes "%4")).accepts.mp ⟨_, hread⟩ [52] List.mem_cons_self

end Nacapp
