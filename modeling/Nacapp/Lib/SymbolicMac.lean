import Mathlib.Data.Set.Basic
import Mathlib.Data.List.Infix
import Nacapp.Lib.Delimited

/-!
# Symbolic message authentication codes

Texts over an alphabet `β` in which the code of a text under a key is a symbol of its own.
Codes are injective, since different keys or texts make different symbols, and a code says
nothing about the text under it: no part of a text reaches inside a symbol.

`Buildable secret seen` is what an attacker can write who has seen the texts of `seen` and does
not know `secret`: any text of letters, whatever it has seen, parts and concatenations of
these, and codes under any other key.

* `mac_mem_of_buildable`: **unforgeability**; a code under the secret occurs in a text the
  attacker builds only if it occurs in one it has seen.
* `eval`: reads a text as a string of letters, given the function that computes codes.
* `split_eval`: splitting a text and splitting the string it stands for is the same, when no
  code is empty or contains the delimiter.
-/

namespace SymbolicMac

/-- A symbol of a text: a letter, or the code of a text under a key. -/
inductive Symbol (β : Type*) where
  | letter (b : β)
  | mac (key text : List (Symbol β))

/-- A string in which codes occur. -/
abbrev Text (β : Type*) := List (Symbol β)

variable {β : Type*}

/-- A string of letters. -/
def plain (s : List β) : Text β := s.map Symbol.letter

theorem mac_notMem_plain {key text : Text β} {s : List β} : Symbol.mac key text ∉ plain s := by
  intro h
  obtain ⟨b, -, hb⟩ := List.mem_map.mp h
  cases hb

@[simp] theorem letter_mem_plain {b : β} {s : List β} : Symbol.letter b ∈ plain s ↔ b ∈ s := by
  unfold plain
  constructor
  · intro h
    obtain ⟨c, hc, hcb⟩ := List.mem_map.mp h
    rwa [← Symbol.letter.inj hcb]
  · exact List.mem_map_of_mem

/-! ## Equality is decidable -/

section DecidableEq

variable [DecidableEq β]

mutual

/-- Equality of symbols, along with that of texts. -/
def Symbol.decEq : (a b : Symbol β) → Decidable (a = b)
  | .letter b, .letter c =>
    if h : b = c then .isTrue (congrArg _ h) else .isFalse fun heq => h (Symbol.letter.inj heq)
  | .letter _, .mac _ _ => .isFalse nofun
  | .mac _ _, .letter _ => .isFalse nofun
  | .mac k t, .mac k' t' =>
    match Text.decEq k k', Text.decEq t t' with
    | .isTrue hk, .isTrue ht => .isTrue (congrArg₂ _ hk ht)
    | .isFalse hk, _ => .isFalse fun h => hk (Symbol.mac.inj h).1
    | _, .isFalse ht => .isFalse fun h => ht (Symbol.mac.inj h).2

/-- Equality of texts, symbol by symbol. -/
def Text.decEq : (s t : List (Symbol β)) → Decidable (s = t)
  | [], [] => .isTrue rfl
  | [], _ :: _ => .isFalse nofun
  | _ :: _, [] => .isFalse nofun
  | a :: s, b :: t =>
    match Symbol.decEq a b, Text.decEq s t with
    | .isTrue ha, .isTrue hs => .isTrue (congrArg₂ _ ha hs)
    | .isFalse ha, _ => .isFalse fun h => ha (List.cons.inj h).1
    | _, .isFalse hs => .isFalse fun h => hs (List.cons.inj h).2

end

instance : DecidableEq (Symbol β) := Symbol.decEq

end DecidableEq

/-! ## What an attacker can build -/

/-- The texts an attacker without the secret can build from those it has seen. -/
inductive Buildable (secret : Text β) (seen : Set (Text β)) : Text β → Prop
  | seen {t : Text β} (ht : t ∈ seen) : Buildable secret seen t
  | plain (s : List β) : Buildable secret seen (plain s)
  | append {t u : Text β} (ht : Buildable secret seen t) (hu : Buildable secret seen u) :
      Buildable secret seen (t ++ u)
  | part {t u : Text β} (ht : Buildable secret seen t) (hu : u <:+: t) : Buildable secret seen u
  | mac {key t : Text β} (hkey : key ≠ secret) (hk : Buildable secret seen key)
      (ht : Buildable secret seen t) : Buildable secret seen [.mac key t]

variable {secret : Text β} {seen : Set (Text β)}

/-- **Unforgeability.**  A code under the secret was seen before. -/
theorem mac_mem_of_buildable {t x : Text β} (h : Buildable secret seen t)
    (hx : Symbol.mac secret x ∈ t) : ∃ m ∈ seen, Symbol.mac secret x ∈ m := by
  induction h with
  | seen ht => exact ⟨_, ht, hx⟩
  | plain s => exact absurd hx mac_notMem_plain
  | append _ _ iht ihu =>
    rcases List.mem_append.mp hx with h | h
    · exact iht h
    · exact ihu h
  | part _ hu iht => exact iht (hu.subset hx)
  | mac hkey _ _ _ _ =>
    -- the code the attacker computes is under another key
    have heq := List.mem_singleton.mp hx
    exact absurd (Symbol.mac.inj heq).1.symm hkey

/-! ## Reading a text as a string -/

mutual

/-- The string a symbol stands for, when `code` computes the codes. -/
def Symbol.eval (code : List β → List β → List β) : Symbol β → List β
  | .letter b => [b]
  | .mac key text => code (eval code key) (eval code text)

/-- The string a text stands for. -/
def eval (code : List β → List β → List β) : List (Symbol β) → List β
  | [] => []
  | a :: t => Symbol.eval code a ++ eval code t

end

variable (code : List β → List β → List β)

@[simp] theorem eval_nil : eval code [] = [] := by
  rw [eval]

@[simp] theorem eval_letter_cons (b : β) (t : Text β) :
    eval code (.letter b :: t) = b :: eval code t := by
  rw [eval, Symbol.eval, List.singleton_append]

@[simp] theorem eval_mac_cons (key text t : Text β) :
    eval code (.mac key text :: t) = code (eval code key) (eval code text) ++ eval code t := by
  rw [eval, Symbol.eval]

@[simp] theorem eval_append (t u : Text β) : eval code (t ++ u) = eval code t ++ eval code u := by
  induction t with
  | nil => rw [List.nil_append, eval_nil, List.nil_append]
  | cons a t ih => rw [List.cons_append, eval, eval, ih, List.append_assoc]

@[simp] theorem eval_plain (s : List β) : eval code (plain s) = s := by
  induction s with
  | nil => exact eval_nil code
  | cons b s ih =>
    have hcons : plain (b :: s) = .letter b :: plain s := rfl
    rw [hcons, eval_letter_cons, ih]

/-- **Splitting is the same on symbols and on letters.** -/
theorem split_eval [DecidableEq β] {code : List β → List β → List β} {d : β}
    (hd : ∀ key text, d ∉ code key text) (hne : ∀ key text, code key text ≠ []) (t : Text β) :
    Delimited.split d (eval code t) = (Delimited.split (.letter d) t).map (eval code) := by
  induction t with
  | nil => rw [eval_nil, Delimited.split_nil, Delimited.split_nil, List.map_nil]
  | cons a t ih =>
    cases a with
    | letter b =>
      rw [eval_letter_cons]
      by_cases hb : b = d
      · subst hb
        rw [Delimited.split_cons_delim, Delimited.split_cons_delim, ih, List.map_cons, eval_nil]
      · have hb' : Symbol.letter b ≠ .letter d := fun h => hb (Symbol.letter.inj h)
        rw [Delimited.split, Delimited.split, if_neg hb, if_neg hb', ih]
        cases Delimited.split (.letter d) t with
        | nil => simp
        | cons item items => simp
    | mac key text =>
      have hmac : Symbol.mac key text ≠ .letter d := by
        intro h
        cases h
      rw [eval_mac_cons, Delimited.split_append (hd _ _) (hne _ _), Delimited.split, if_neg hmac,
        ih]
      cases Delimited.split (.letter d) t with
      | nil => simp
      | cons item items => simp

end SymbolicMac
