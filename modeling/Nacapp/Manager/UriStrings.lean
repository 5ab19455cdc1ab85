import Mathlib.Algebra.Group.Int.Defs
import Nacapp.Node.NodeImpl

/-!
# Percent-coded strings

`strings::uriEncode` and `strings::uriDecode` (`manager/src/util.cpp`), by which names
travel as single components of a management interest, and the part of `std::stoi` the
manager uses.

* `uriDecode_encode`: decoding undoes every percent-coding that escapes `%` itself, that of
  `uriEncode` as well as that of a component in a URI.
-/

namespace Nacapp

/-! ## `std::stoi` -/

/-- What `std::isspace` accepts in the C locale. -/
def isSpace (b : UInt8) : Bool := b ∈ [9, 10, 11, 12, 13, 32]

/-- The digits at the start of the string, in the given base. -/
def leadingDigits (base : ℕ) (s : Bytes) : List ℕ :=
  match s with
  | [] => []
  | b :: rest =>
    match PercentCoding.hexValue b with
    | some d => if d < base then d :: leadingDigits base rest else []
    | none => []

/-- In base 16 the digits may stand behind `0x`. -/
def dropHexMark (base : ℕ) (s : Bytes) : Bytes :=
  match s with
  | a :: b :: rest =>
    if base = 16 ∧ a = '0'.toUInt8 ∧ (b = 'x'.toUInt8 ∨ b = 'X'.toUInt8) ∧
        leadingDigits base rest ≠ [] then rest
    else s
  | _ => s

/-- `std::stoi(s, nullptr, base)`: blanks, a sign, and as many digits as follow.  It throws
where there is no digit and where the value is no `int`. -/
def stoi (base : ℕ) (s : Bytes) : Except Exn ℤ :=
  let s := s.dropWhile isSpace
  let negative := s.head? = some '-'.toUInt8
  let s := if negative ∨ s.head? = some '+'.toUInt8 then s.tail else s
  match leadingDigits base (dropHexMark base s) with
  | [] => .error (.exception (bytes "stoi"))
  | digits =>
    let magnitude : ℕ := digits.foldl (fun n d => base * n + d) 0
    let value : ℤ := if negative then -magnitude else magnitude
    if -2 ^ 31 ≤ value ∧ value < 2 ^ 31 then .ok value else .error (.exception (bytes "stoi"))

/-! ## Encoding and decoding -/

/-- `uriEncode` keeps what `std::isalnum` accepts in the C locale and four marks. -/
def keptByUriEncode (b : UInt8) : Bool :=
  (('0'.toUInt8 ≤ b && b ≤ '9'.toUInt8) || ('A'.toUInt8 ≤ b && b ≤ 'Z'.toUInt8)) ||
    (('a'.toUInt8 ≤ b && b ≤ 'z'.toUInt8) || b ∈ bytes "-_.~")

def uriEncode (rawUri : Bytes) : Bytes := PercentCoding.encode keptByUriEncode rawUri

/-- `static_cast<char>(std::stoi(hex, NULL, 16))`. -/
def decodeEscape (hex : Bytes) : Except Exn UInt8 := (stoi 16 hex).map UInt8.ofInt

/-- `uriDecode`: a `%` and the two characters after it, or as many as there are, are read by
`std::stoi`; the first escape that does not read ends it. -/
def uriDecode : Bytes → Except Exn Bytes
  | [] => .ok []
  | [a] =>
    if a = '%'.toUInt8 then (decodeEscape []).map fun b => [b] else .ok [a]
  | [a, b] =>
    if a = '%'.toUInt8 then (decodeEscape [b]).map fun b => [b]
    else (uriDecode [b]).map (a :: ·)
  | a :: b :: c :: rest =>
    if a = '%'.toUInt8 then do
      let d ← decodeEscape [b, c]
      (uriDecode rest).map (d :: ·)
    else (uriDecode (b :: c :: rest)).map (a :: ·)

/-- Upper- and lower-case escapes, and one cut short. -/
example : uriDecode (bytes "%2Fa%2fb%4") = .ok (bytes "/a/b" ++ [4]) := by decide

/-! ## Decoding undoes encoding -/

/-- Two hexadecimal digits are read as the byte they were written for. -/
theorem decodeEscape_hexByte (b : UInt8) : decodeEscape (PercentCoding.hexByte b) = .ok b := by
  have hall : ∀ n < 256, decodeEscape (PercentCoding.hexByte (UInt8.ofNat n)) =
      .ok (UInt8.ofNat n) := by decide +kernel
  have hb := hall b.toNat b.toNat_lt
  rwa [UInt8.ofNat_toNat] at hb

theorem uriDecode_cons_of_ne {b : UInt8} (hb : b ≠ '%'.toUInt8) (s : Bytes) :
    uriDecode (b :: s) = (uriDecode s).map (b :: ·) := by
  match s with
  | [] => exact if_neg hb
  | [_] => exact if_neg hb
  | _ :: _ :: _ => exact if_neg hb

theorem uriDecode_escape (b : UInt8) (s : Bytes) :
    uriDecode ('%'.toUInt8 :: (PercentCoding.hexByte b ++ s)) = (uriDecode s).map (b :: ·) := by
  have hhex := decodeEscape_hexByte b
  rw [PercentCoding.hexByte] at hhex ⊢
  rw [List.cons_append, List.cons_append, List.nil_append, uriDecode, if_pos rfl, hhex]
  rfl

/-- **Decoding undoes encoding.** -/
theorem uriDecode_encode {keep : UInt8 → Bool} (hkeep : keep '%'.toUInt8 = false) (s : Bytes) :
    uriDecode (PercentCoding.encode keep s) = .ok s := by
  induction s with
  | nil => rfl
  | cons b s ih =>
    rw [PercentCoding.encode, List.flatMap_cons, ← PercentCoding.encode, PercentCoding.encodeByte]
    split
    · rename_i hb
      have hne : b ≠ '%'.toUInt8 := by
        rintro rfl
        rw [hkeep] at hb
        exact absurd hb Bool.false_ne_true
      rw [List.cons_append, List.nil_append, uriDecode_cons_of_ne hne, ih]
      rfl
    · rw [List.cons_append, uriDecode_escape, ih]
      rfl

end Nacapp
