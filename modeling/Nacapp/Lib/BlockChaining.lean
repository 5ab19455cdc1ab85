import Mathlib.Data.List.Basic
import Mathlib.Data.List.GetD

/-!
# Block ciphers in chaining mode

What a library does to encrypt a string with a block cipher: the string is padded to a multiple
of the block length, cut into blocks, and every block is mixed with the one encrypted before it,
the first one with an initialization vector.  The block cipher is a parameter.

* `decrypt_encrypt`: unchaining undoes chaining, over any blocks with an operation that undoes
  itself.
* `unpad_pad`: the padding can be taken off again; it is never empty.
* `decryptBytes_encryptBytes`: decryption undoes encryption.
* `length_encryptBytes`: the length of what is encrypted.
-/

namespace BlockChaining

/-! ## Chaining -/

section Chaining

variable {β : Type*} (E D : β → β) (mix : β → β → β)

/-- Every block is mixed with what the one before it was encrypted to. -/
def encrypt : β → List β → List β
  | _, [] => []
  | iv, b :: bs => E (mix b iv) :: encrypt (E (mix b iv)) bs

def decrypt : β → List β → List β
  | _, [] => []
  | iv, c :: cs => mix (D c) iv :: decrypt c cs

@[simp] theorem length_encrypt (iv : β) (bs : List β) :
    (encrypt E mix iv bs).length = bs.length := by
  induction bs generalizing iv with
  | nil => rfl
  | cons b bs ih => rw [encrypt, List.length_cons, ih, List.length_cons]

variable {E D mix}

/-- **Unchaining undoes chaining.** -/
theorem decrypt_encrypt (hD : ∀ b, D (E b) = b) (hmix : ∀ b iv, mix (mix b iv) iv = b) (iv : β)
    (bs : List β) : decrypt D mix iv (encrypt E mix iv bs) = bs := by
  induction bs generalizing iv with
  | nil => rfl
  | cons b bs ih => rw [encrypt, decrypt, hD, hmix, ih]

end Chaining

/-! ## Blocks of a string -/

section Blocks

variable {α : Type*} [Inhabited α] {n : ℕ}

/-- The first `n` items of a string. -/
def firstBlock (n : ℕ) (s : List α) : Vector α n := Vector.ofFn fun i => s.getD i default

/-- The first `k` blocks of a string. -/
def blocks (n : ℕ) : ℕ → List α → List (Vector α n)
  | 0, _ => []
  | k + 1, s => firstBlock n s :: blocks n k (s.drop n)

/-- The string that blocks make up. -/
def unblocks (bs : List (Vector α n)) : List α := bs.flatMap Vector.toList

omit [Inhabited α] in
@[simp] theorem length_unblocks (bs : List (Vector α n)) :
    (unblocks bs).length = n * bs.length := by
  induction bs with
  | nil => rfl
  | cons b bs ih =>
    rw [unblocks, List.flatMap_cons, List.length_append, ← unblocks, ih, Vector.length_toList,
      List.length_cons, Nat.mul_succ, Nat.add_comm]

theorem length_blocks (k : ℕ) (s : List α) : (blocks n k s).length = k := by
  induction k generalizing s with
  | zero => rfl
  | succ k ih => rw [blocks, List.length_cons, ih]

theorem getElem_firstBlock {s : List α} {i : ℕ} (hi : i < n) :
    (firstBlock n s)[i] = s.getD i default := Vector.getElem_ofFn hi

theorem toList_firstBlock {s : List α} (h : n ≤ s.length) :
    (firstBlock n s).toList = s.take n := by
  refine List.ext_getElem ?_ fun i h₁ h₂ => ?_
  · rw [Vector.length_toList, List.length_take, Nat.min_eq_left h]
  · have hi : i < n := by rwa [Vector.length_toList] at h₁
    rw [Vector.getElem_toList, getElem_firstBlock hi, List.getElem_take,
      List.getD_eq_getElem _ _ (by omega)]

theorem firstBlock_append (b : Vector α n) (s : List α) : firstBlock n (b.toList ++ s) = b := by
  refine Vector.toList_inj.mp ?_
  rw [toList_firstBlock (by rw [List.length_append, Vector.length_toList]; omega)]
  exact List.take_left' Vector.length_toList

/-- The blocks of a string of that many blocks make it up. -/
theorem unblocks_blocks {k : ℕ} {s : List α} (h : s.length = n * k) :
    unblocks (blocks n k s) = s := by
  induction k generalizing s with
  | zero =>
    rw [Nat.mul_zero, List.length_eq_zero_iff] at h
    rw [h]
    rfl
  | succ k ih =>
    have hlength : s.length = n * k + n := by rw [h, Nat.mul_succ]
    rw [blocks, unblocks, List.flatMap_cons, ← unblocks, toList_firstBlock (by omega),
      ih (by rw [List.length_drop]; omega), List.take_append_drop]

/-- Blocks are cut out of the string they make up. -/
theorem blocks_unblocks {k : ℕ} {bs : List (Vector α n)} (h : bs.length = k) :
    blocks n k (unblocks bs) = bs := by
  subst h
  induction bs with
  | nil => rfl
  | cons b bs ih =>
    have hcons : unblocks (b :: bs) = b.toList ++ unblocks bs := List.flatMap_cons
    rw [List.length_cons, blocks, hcons, firstBlock_append, List.drop_left' Vector.length_toList,
      ih]

end Blocks

/-! ## Padding -/

/-- Bytes up to the next multiple of `n`, a whole block where the string ends at one.  Each of
them is the number of them. -/
def pad (n : ℕ) (s : List UInt8) : List UInt8 :=
  let count := n - s.length % n
  s ++ List.replicate count (UInt8.ofNat count)

/-- Takes off what the last byte says, when that is a padding. -/
def unpad (n : ℕ) (s : List UInt8) : Option (List UInt8) :=
  match s.getLast? with
  | none => none
  | some last =>
    let count := last.toNat
    let start := s.length - count
    if 0 < count ∧ count ≤ n ∧ s.drop start = List.replicate count last then some (s.take start)
    else none

theorem length_pad {n : ℕ} (hn : 0 < n) (s : List UInt8) :
    (pad n s).length = n * (s.length / n + 1) := by
  have hmod := Nat.mod_lt s.length hn
  have hdiv := Nat.div_add_mod s.length n
  rw [pad, List.length_append, List.length_replicate, Nat.mul_succ]
  omega

/-- **The padding can be taken off again**, for blocks of less than 256 bytes. -/
theorem unpad_pad {n : ℕ} (hn : 0 < n) (hbyte : n < 256) (s : List UInt8) :
    unpad n (pad n s) = some s := by
  have hmod := Nat.mod_lt s.length hn
  rw [pad]
  generalize hcount : n - s.length % n = count
  have hpos : 0 < count := by omega
  have hbyte' : count < 256 := by omega
  have hlast : (s ++ List.replicate count (UInt8.ofNat count)).getLast? =
      some (UInt8.ofNat count) := by
    obtain ⟨m, rfl⟩ : ∃ m, count = m + 1 := ⟨count - 1, by omega⟩
    rw [List.replicate_succ', ← List.append_assoc, List.getLast?_concat]
  have htoNat : (UInt8.ofNat count).toNat = count :=
    UInt8.toNat_ofNat_of_lt' (hbyte' : count < UInt8.size)
  rw [unpad, hlast]
  dsimp only
  rw [htoNat, List.length_append, List.length_replicate, Nat.add_sub_cancel,
    List.drop_left' rfl, List.take_left' rfl, if_pos ⟨hpos, by omega, rfl⟩]

/-! ## Strings -/

section Strings

variable {n : ℕ} (E D : Vector UInt8 n → Vector UInt8 n) (iv : List UInt8)

/-- Byte by byte. -/
def mixBlocks (a b : Vector UInt8 n) : Vector UInt8 n := Vector.zipWith (· ^^^ ·) a b

theorem mixBlocks_mixBlocks (a b : Vector UInt8 n) : mixBlocks (mixBlocks a b) b = a := by
  ext i hi
  simp only [mixBlocks, Vector.getElem_zipWith]
  rw [UInt8.xor_assoc, UInt8.xor_self, UInt8.xor_zero]

def encryptBytes (s : List UInt8) : List UInt8 :=
  let padded := pad n s
  unblocks (encrypt E mixBlocks (firstBlock n iv) (blocks n (padded.length / n) padded))

def decryptBytes (s : List UInt8) : Option (List UInt8) :=
  unpad n (unblocks (decrypt D mixBlocks (firstBlock n iv) (blocks n (s.length / n) s)))

/-- The ciphertext has as many blocks as the padded string. -/
theorem length_encryptBytes (hn : 0 < n) (s : List UInt8) :
    (encryptBytes E iv s).length = n * (s.length / n + 1) := by
  rw [encryptBytes, length_unblocks, length_encrypt, length_blocks, length_pad hn,
    Nat.mul_div_cancel_left _ hn]

variable {E D iv}

/-- **Decryption undoes encryption.** -/
theorem decryptBytes_encryptBytes (hn : 0 < n) (hbyte : n < 256) (hD : ∀ b, D (E b) = b)
    (s : List UInt8) : decryptBytes D iv (encryptBytes E iv s) = some s := by
  have hpad := length_pad hn s
  have hblocks : (pad n s).length / n = s.length / n + 1 := by
    rw [hpad, Nat.mul_div_cancel_left _ hn]
  rw [decryptBytes, length_encryptBytes E iv hn, Nat.mul_div_cancel_left _ hn, encryptBytes,
    hblocks]
  -- as many blocks are cut out again as were encrypted
  have hcount : (encrypt E mixBlocks (firstBlock n iv)
      (blocks n (s.length / n + 1) (pad n s))).length = s.length / n + 1 := by
    rw [length_encrypt, length_blocks]
  rw [blocks_unblocks hcount, decrypt_encrypt hD mixBlocks_mixBlocks, unblocks_blocks hpad]
  exact unpad_pad hn hbyte s

end Strings

end BlockChaining
