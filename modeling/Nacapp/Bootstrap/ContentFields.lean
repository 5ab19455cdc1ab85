import Nacapp.Bootstrap.Messages

/-!
# The fields of a content

`split` (`shared/src/string_helpers.cpp`) cuts the contents of the bootstrap protocol into
fields.  It reads the string as a stream, up to the next delimiter at a time, and so a
delimiter at the end is not seen.

* `split_eq`: the loop computes `Delimited.split`, on which `validateOwnerCertResp` and
  `extractOwnerCert` are defined.
* `split_laws`: joining undoes `split` up to one delimiter at the end, and `split` undoes
  joining.  The text `cert + '|' + r` whose HMAC `validateOwnerCertResp` checks is therefore
  the one that was sent before the second delimiter.
-/

namespace Nacapp

variable {α : Type} [DecidableEq α]

/-! ## The loop -/

/-- `split(s, delim, result)`: what is read goes to the end of `result`, until a read fails. -/
def splitInto (delim : α) (s : List α) (result : List (List α)) : List (List α) :=
  match _h : Delimited.getline delim s with
  | none => result
  | some (item, rest) => splitInto delim rest (result ++ [item])
termination_by s.length
decreasing_by exact Delimited.length_lt_of_getline _h

/-- `split(s, delim)`: into an empty vector. -/
def split (s : List α) (delim : α) : List (List α) := splitInto delim s []

/-- The loop adds the items to what is there already. -/
theorem splitInto_eq (delim : α) (s : List α) (result : List (List α)) :
    splitInto delim s result = result ++ Delimited.split delim s := by
  induction s, result using splitInto.induct delim with
  | case1 s result hread =>
    rw [splitInto, Delimited.split_eq_getline, hread, List.append_nil]
  | case2 s result item rest hread ih =>
    rw [splitInto, Delimited.split_eq_getline, hread]
    dsimp only
    rw [ih, List.append_assoc, List.singleton_append]

theorem split_eq (s : List α) (delim : α) : split s delim = Delimited.split delim s := by
  rw [split, splitInto_eq, List.nil_append]

/-- Empty fields are kept, a delimiter at the end is not seen. -/
example : split (bytes "a||b|") '|'.toUInt8 = [bytes "a", bytes "", bytes "b"] := by
  rw [split_eq]
  decide

/-! ## Joining the fields -/

namespace HmacText

variable (H : HmacText α)

/-- What stands in `content` before the second bar. -/
def BeforeSecondBar (content before : List α) : Prop :=
  before.count H.bar = 1 ∧ ∃ rest, content = before ++ H.bar :: rest

variable {H}

/-- **The first two of three fields**, with a bar between them, stand before the second bar,
and nothing else does. -/
theorem beforeSecondBar_iff {content cert r hash : List α} {rest : List (List α)}
    (h : split content H.bar = cert :: r :: hash :: rest) (before : List α) :
    H.BeforeSecondBar content before ↔ before = cert ++ H.bar :: r := by
  rw [split_eq] at h
  obtain ⟨hcert, hr⟩ := bar_notMem_of_split h
  have hcount : (cert ++ H.bar :: r).count H.bar = 1 := by
    rw [List.count_append, List.count_cons_self, List.count_eq_zero_of_not_mem hcert,
      List.count_eq_zero_of_not_mem hr]
  have hcontent : ∃ tail, content = (cert ++ H.bar :: r) ++ H.bar :: tail := by
    obtain ⟨tail, hfirst, htail⟩ := Delimited.exists_eq_of_split_eq_cons_cons h
    obtain ⟨tail', hsecond, -⟩ := Delimited.exists_eq_of_split_eq_cons_cons htail
    exact ⟨tail', by rw [hfirst, hsecond, List.append_assoc, List.cons_append]⟩
  constructor
  · rintro ⟨hbefore, tail, heq⟩
    obtain ⟨tail', heq'⟩ := hcontent
    exact Delimited.eq_of_append_cons_eq (hbefore.trans hcount.symm) (heq.symm.trans heq')
  · rintro rfl
    exact ⟨hcount, hcontent⟩

/-- What the check of a response computes from its first three fields. -/
theorem validateOwnerCertResp_of_split {d : TextData α} {cert r hash : List α}
    {rest : List (List α)} (h : split d.content H.bar = cert :: r :: hash :: rest)
    (expected_r sharedSecret : List α) :
    H.validateOwnerCertResp d expected_r sharedSecret =
      some (r = expected_r && H.verifyHash (cert ++ H.bar :: r) sharedSecret hash) := by
  rw [split_eq] at h
  rw [validateOwnerCertResp, h]

end HmacText

/-- **Splitting and joining.**  No item has the delimiter in it; joined again, the items are the
string without a delimiter at its end; and items without the delimiter, the last of them not
empty, are those of the string they are joined to.  So the HMAC of a response with three fields
is checked for what stands in its content before the second bar. -/
theorem split_laws (H : HmacText α) :
    (∀ (s : List α) (delim : α), (∀ item ∈ split s delim, delim ∉ item) ∧
      Delimited.join delim (split s delim) =
        if s.getLast? = some delim then s.dropLast else s) ∧
    (∀ delim : α, split [] delim = []) ∧
    (∀ (items : List (List α)) (delim : α), items ≠ [] → (∀ item ∈ items, delim ∉ item) →
      items.getLast? ≠ some [] → split (Delimited.join delim items) delim = items) ∧
    ∀ (d : TextData α) (cert r hash : List α) (rest : List (List α)),
      split d.content H.bar = cert :: r :: hash :: rest →
        (∀ before, H.BeforeSecondBar d.content before ↔ before = cert ++ H.bar :: r) ∧
          ∀ expected_r sharedSecret, H.validateOwnerCertResp d expected_r sharedSecret =
            some (r = expected_r && H.verifyHash (cert ++ H.bar :: r) sharedSecret hash) := by
  refine ⟨fun s delim => ⟨?_, ?_⟩, fun delim => ?_, fun items delim _ hfree hlast => ?_,
    fun d cert r hash rest h => ⟨HmacText.beforeSecondBar_iff h,
      HmacText.validateOwnerCertResp_of_split h⟩⟩
  · rw [split_eq]
    exact Delimited.notMem_of_mem_split
  · rw [split_eq, Delimited.join_split]
    rfl
  · rw [split_eq, Delimited.split_nil]
  · rw [split_eq]
    refine Delimited.split_join hfree fun item hitem => ?_
    rintro rfl
    exact hlast hitem

end Nacapp
