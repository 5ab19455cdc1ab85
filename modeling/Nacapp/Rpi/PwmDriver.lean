import Mathlib.Logic.Function.Basic
import Mathlib.Tactic.NormNum
import Nacapp.Lib.BinaryFloat
import Nacapp.Lib.Histories

/-!
# The PWM driver

`Adafruit_PWMServoDriver` (`rpi/src/pca9685/Adafruit_PWMServoDriver.cpp`) writes the registers of a
PCA9685 over I2C, a byte at a time.  A channel has four registers, the low and the high bytes of
the two counts between which its output is on.

The chip is a parameter.  What its data sheet says of the registers is `Documented`: a byte that
is written to a register of a channel is held there, one that is written to a register for all
channels is held by each of them, and the prescaler takes a byte only while the chip sleeps.  A
write on the bus is taken to succeed, as the code takes it.  What the register `MODE1` is read as
may be any byte.

* `channel_run`: whatever is called, and in whatever order, the four registers of a channel hold
  the counts of the last call that sets this channel or all.
* `prescaleOf_sixty`: the prescaler for 60 Hz.
-/

namespace Nacapp.Rpi

open BinaryFloat Transitions

/-! ## The code -/

def PCA9685_MODE1 : ℕ := 0x00
def PCA9685_MODE2 : ℕ := 0x01
def PCA9685_PRESCALE : ℕ := 0xFE

def LED0_ON_L : ℕ := 0x06
def LED0_ON_H : ℕ := 0x07
def LED0_OFF_L : ℕ := 0x08
def LED0_OFF_H : ℕ := 0x09

def ALLLED_ON_L : ℕ := 0xFA
def ALLLED_ON_H : ℕ := 0xFB
def ALLLED_OFF_L : ℕ := 0xFC
def ALLLED_OFF_H : ℕ := 0xFD

def SLEEP : UInt8 := 0x10
def ALLCALL : UInt8 := 0x01
def OUTDRV : UInt8 := 0x04

/-- The levels of `digitalWrite`. -/
inductive Level where
  | LOW
  | HIGH
  deriving DecidableEq

/-- `wiringPiI2CWriteReg8`: the register, and the byte. -/
structure RegWrite where
  reg : ℕ
  value : UInt8

/-- `setPWM`. -/
def setPWM (num : UInt8) (on off : UInt16) : List RegWrite :=
  [⟨LED0_ON_L + 4 * num.toNat, (on &&& 0xFF).toUInt8⟩,
    ⟨LED0_ON_H + 4 * num.toNat, (on >>> 8).toUInt8⟩,
    ⟨LED0_OFF_L + 4 * num.toNat, (off &&& 0xFF).toUInt8⟩,
    ⟨LED0_OFF_H + 4 * num.toNat, (off >>> 8).toUInt8⟩]

/-- `setAllPWM`. -/
def setAllPWM (on off : UInt16) : List RegWrite :=
  [⟨ALLLED_ON_L, (on &&& 0xFF).toUInt8⟩, ⟨ALLLED_ON_H, (on >>> 8).toUInt8⟩,
    ⟨ALLLED_OFF_L, (off &&& 0xFF).toUInt8⟩, ⟨ALLLED_OFF_H, (off >>> 8).toUInt8⟩]

/-- `reset`, when the register `MODE1` is read as `mode1`. -/
def reset (mode1 : UInt8) : List RegWrite :=
  setAllPWM 0 0 ++
    [⟨PCA9685_MODE2, OUTDRV⟩, ⟨PCA9685_MODE1, ALLCALL⟩, ⟨PCA9685_MODE1, mode1 &&& ~~~SLEEP⟩]

/-- The prescaler of a frequency, as `setPWMFreq` computes it with a `float`. -/
def prescaleOf (freq : ℚ) : ℤ :=
  let prescaleval := toFloat 25000000
  let prescaleval := toFloat (prescaleval / 4096)
  let prescaleval := toFloat (prescaleval / freq)
  let prescaleval := toFloat (prescaleval - 1)
  ⌊toDouble (prescaleval + 1 / 2)⌋

/-- `setPWMFreq`, when the register `MODE1` is read as `oldmode`. -/
def setPWMFreq (freq : ℚ) (oldmode : UInt8) : List RegWrite :=
  [⟨PCA9685_MODE1, (oldmode &&& 0x7F) ||| 0x10⟩,
    ⟨PCA9685_PRESCALE, UInt8.ofNat (prescaleOf freq).toNat⟩, ⟨PCA9685_MODE1, oldmode⟩,
    ⟨PCA9685_MODE1, oldmode ||| 0x80⟩]

/-- The calls on a driver. -/
inductive DriverOp where
  | reset (mode1 : UInt8)
  | setPWMFreq (freq : ℚ) (oldmode : UInt8)
  | setPWM (num : UInt8) (on off : UInt16)
  | setAllPWM (on off : UInt16)

def DriverOp.writes : DriverOp → List RegWrite
  | .reset mode1 => Rpi.reset mode1
  | .setPWMFreq freq oldmode => Rpi.setPWMFreq freq oldmode
  | .setPWM num on off => Rpi.setPWM num on off
  | .setAllPWM on off => Rpi.setAllPWM on off

/-! ## The chip -/

/-- The registers that the data sheet describes: those of the modes, addresses and channels, and
those for all channels and for the prescaler. -/
def IsRegister (r : ℕ) : Prop := r < 0x46 ∨ ALLLED_ON_L ≤ r ∧ r ≤ PCA9685_PRESCALE

instance (r : ℕ) : Decidable (IsRegister r) := inferInstanceAs (Decidable (_ ∨ _ ∧ _))

/-- The bits of the registers of a channel.  A high byte has five, the last of which is for an
output that is always on or off. -/
def ledBits (k : ℕ) : UInt8 := if k % 2 = 0 then 0xFF else 0x1F

/-- A PCA9685: what becomes of it when a byte is written to one of its registers, and what its
registers hold. -/
structure Pca9685 where
  State : Type
  write : State → ℕ → UInt8 → State
  reg : State → ℕ → UInt8

/-- **What the data sheet says** of the registers.  The sixteen channels have four registers each,
which follow `LED0_ON_L`. -/
structure Pca9685.Documented (C : Pca9685) : Prop where
  channel : ∀ s k v, k < 64 →
    C.reg (C.write s (LED0_ON_L + k) v) (LED0_ON_L + k) = v &&& ledBits k
  /-- A register for all channels loads that register of each. -/
  allChannels : ∀ s k v, k < 64 →
    C.reg (C.write s (ALLLED_ON_L + k % 4) v) (LED0_ON_L + k) = v &&& ledBits k
  otherChannels : ∀ s k r v, k < 64 → IsRegister r → r ≠ LED0_ON_L + k →
    r ≠ ALLLED_ON_L + k % 4 → C.reg (C.write s r v) (LED0_ON_L + k) = C.reg s (LED0_ON_L + k)
  sleep : ∀ s v, C.reg (C.write s PCA9685_MODE1 v) PCA9685_MODE1 &&& SLEEP = v &&& SLEEP
  /-- The prescaler can only be set when the chip sleeps, and is at least 3. -/
  prescale : ∀ s v, C.reg s PCA9685_MODE1 &&& SLEEP = SLEEP → 3 ≤ v →
    C.reg (C.write s PCA9685_PRESCALE v) PCA9685_PRESCALE = v
  keepsPrescale : ∀ s r v, IsRegister r → r ≠ PCA9685_PRESCALE →
    C.reg (C.write s r v) PCA9685_PRESCALE = C.reg s PCA9685_PRESCALE

/-- The counts between which the output of a channel is on. -/
structure Setting where
  on : ℕ
  off : ℕ
  deriving DecidableEq

/-- Two bytes make a count. -/
def count (low high : UInt8) : ℕ := high.toNat * 256 + low.toNat

namespace Pca9685

variable (C : Pca9685)

/-- The number of the register is sent as one byte. -/
def send (s : C.State) (w : RegWrite) : C.State := C.write s (w.reg % 256) w.value

def call (s : C.State) (op : DriverOp) : C.State := exec C.send s op.writes

/-- The setting in the four registers of a channel. -/
def channel (s : C.State) (num : UInt8) : Setting :=
  ⟨count (C.reg s (LED0_ON_L + 4 * num.toNat)) (C.reg s (LED0_ON_H + 4 * num.toNat)),
    count (C.reg s (LED0_OFF_L + 4 * num.toNat)) (C.reg s (LED0_OFF_H + 4 * num.toNat))⟩

end Pca9685

/-- The calls that write registers of the data sheet.  The number of a register being one byte, a
channel is what its number is modulo 64, and the 61st are all channels. -/
def DriverOp.HasRegisters : DriverOp → Prop
  | .setPWM n _ _ => n.toNat % 64 < 16 ∨ n.toNat % 64 = 61
  | _ => True

instance : DecidablePred DriverOp.HasRegisters
  | .reset _ | .setPWMFreq _ _ | .setAllPWM _ _ => inferInstanceAs (Decidable True)
  | .setPWM _ _ _ => inferInstanceAs (Decidable (_ ∨ _))

/-- The setting of two counts, each of thirteen bits. -/
def Setting.ofCounts (on off : UInt16) : Setting := ⟨on.toNat % 8192, off.toNat % 8192⟩

/-- The setting that a call gives to a channel. -/
def DriverOp.sets (num : UInt8) : DriverOp → Option Setting
  | .reset _ => some ⟨0, 0⟩
  | .setPWMFreq _ _ => none
  | .setPWM n on off =>
    if n.toNat % 64 = num.toNat ∨ n.toNat % 64 = 61 then some (.ofCounts on off) else none
  | .setAllPWM on off => some (.ofCounts on off)

theorem count_bytes (v : UInt16) :
    count ((v &&& 0xFF).toUInt8 &&& 0xFF) ((v >>> 8).toUInt8 &&& 0x1F) = v.toNat % 8192 := by
  have hmask (n : ℕ) : n &&& 255 = n % 256 := Nat.and_two_pow_sub_one_eq_mod n 8
  have hhighMask (n : ℕ) : n &&& 31 = n % 32 := Nat.and_two_pow_sub_one_eq_mod n 5
  have hlow : ((v &&& 0xFF).toUInt8 &&& 0xFF).toNat = v.toNat % 256 := by
    rw [UInt8.toNat_and, UInt16.toNat_toUInt8, UInt16.toNat_and]
    rw [show (0xFF : UInt16).toNat = 255 from rfl, show (0xFF : UInt8).toNat = 255 from rfl,
      hmask, hmask]
    omega
  have hhigh : ((v >>> 8).toUInt8 &&& 0x1F).toNat = v.toNat / 256 % 32 := by
    have hlt := v.toNat_lt
    rw [UInt8.toNat_and, UInt16.toNat_toUInt8, UInt16.toNat_shiftRight]
    rw [show (8 : UInt16).toNat % 16 = 8 from rfl, show (0x1F : UInt8).toNat = 31 from rfl,
      hhighMask, Nat.shiftRight_eq_div_pow]
    omega
  rw [count, hlow, hhigh]
  omega

/-! ## One register -/

/-- What a write loads into the `k`-th register of the channels. -/
def RegWrite.loads (k : ℕ) (w : RegWrite) : Option UInt8 :=
  if w.reg % 256 = LED0_ON_L + k ∨ w.reg % 256 = ALLLED_ON_L + k % 4 then
    some (w.value &&& ledBits k)
  else none

section Documented

variable {C : Pca9685} (hC : C.Documented)

include hC

theorem reg_send {k : ℕ} (hk : k < 64) {w : RegWrite} (hw : IsRegister (w.reg % 256))
    (s : C.State) :
    C.reg (C.send s w) (LED0_ON_L + k) = (w.loads k).getD (C.reg s (LED0_ON_L + k)) := by
  unfold RegWrite.loads Pca9685.send
  split
  · rename_i h
    rcases h with h | h
    · rw [h, hC.channel s k w.value hk]
      rfl
    · rw [h, hC.allChannels s k w.value hk]
      rfl
  · rename_i h
    rw [not_or] at h
    exact hC.otherChannels s k _ w.value hk hw h.1 h.2

/-- A register holds what was loaded last. -/
theorem reg_exec {k : ℕ} (hk : k < 64) {ws : List RegWrite}
    (hws : ∀ w ∈ ws, IsRegister (w.reg % 256)) (s : C.State) :
    C.reg (exec C.send s ws) (LED0_ON_L + k) =
      lastWrite (RegWrite.loads k) (C.reg s (LED0_ON_L + k)) ws :=
  exec_eq_lastWrite_of_mem (f := fun s => C.reg s (LED0_ON_L + k))
    (fun w hw s => reg_send hC hk (hws w hw) s) s

/-! ## One call -/

omit hC in
theorem channel_eq (s : C.State) (num : UInt8) :
    C.channel s num =
      ⟨count (C.reg s (LED0_ON_L + (4 * num.toNat + 0)))
          (C.reg s (LED0_ON_L + (4 * num.toNat + 1))),
        count (C.reg s (LED0_ON_L + (4 * num.toNat + 2)))
          (C.reg s (LED0_ON_L + (4 * num.toNat + 3)))⟩ := by
  have hreg (j : ℕ) : LED0_ON_L + (4 * num.toNat + j) = LED0_ON_L + j + 4 * num.toNat := by omega
  rw [hreg, hreg, hreg, hreg]
  rfl

/-- What is written to none of its registers leaves a channel alone. -/
theorem channel_exec_of_forall {num : UInt8} (hnum : num.toNat < 16) {ws : List RegWrite}
    (hws : ∀ w ∈ ws, IsRegister (w.reg % 256))
    (h : ∀ w ∈ ws, ∀ j < 4, w.loads (4 * num.toNat + j) = none) (s : C.State) :
    C.channel (exec C.send s ws) num = C.channel s num := by
  have hkeep : ∀ j, j < 4 → C.reg (exec C.send s ws) (LED0_ON_L + (4 * num.toNat + j)) =
      C.reg s (LED0_ON_L + (4 * num.toNat + j)) := by
    intro j hj
    rw [reg_exec hC (by omega) hws s]
    exact lastWrite_of_forall (fun w hw => h w hw j hj) _
  rw [channel_eq, channel_eq, hkeep 0 (by decide), hkeep 1 (by decide), hkeep 2 (by decide),
    hkeep 3 (by decide)]

/-- Four writes to the registers of a channel, or to those for all channels, make its setting. -/
theorem channel_exec_load {num : UInt8} (hnum : num.toNat < 16) {r : ℕ → ℕ}
    (hr : ∀ i < 4, r i % 256 = LED0_ON_L + (4 * num.toNat + i) ∨ r i % 256 = ALLLED_ON_L + i)
    (on off : UInt16) (s : C.State) :
    C.channel (exec C.send s
      [⟨r 0, (on &&& 0xFF).toUInt8⟩, ⟨r 1, (on >>> 8).toUInt8⟩, ⟨r 2, (off &&& 0xFF).toUInt8⟩,
        ⟨r 3, (off >>> 8).toUInt8⟩]) num = .ofCounts on off := by
  have hfirst : LED0_ON_L = 6 := rfl
  have hall : ALLLED_ON_L = 250 := rfl
  have hprescale : PCA9685_PRESCALE = 254 := rfl
  have hregister : ∀ i < 4, IsRegister (r i % 256) := by
    intro i hi
    have hri := hr i hi
    unfold IsRegister
    omega
  have hloads : ∀ i < 4, ∀ j < 4, ∀ v, RegWrite.loads (4 * num.toNat + j) ⟨r i, v⟩ =
      if i = j then some (v &&& ledBits j) else none := by
    intro i hi j hj v
    have hbits : ledBits (4 * num.toNat + j) = ledBits j := by
      unfold ledBits
      rw [show (4 * num.toNat + j) % 2 = j % 2 by omega]
    have hload : (r i % 256 = LED0_ON_L + (4 * num.toNat + j) ∨
        r i % 256 = ALLLED_ON_L + (4 * num.toNat + j) % 4) ↔ i = j := by
      have hri := hr i hi
      omega
    simp only [RegWrite.loads, hbits, hload]
  have hws : ∀ w ∈ [(⟨r 0, (on &&& 0xFF).toUInt8⟩ : RegWrite), ⟨r 1, (on >>> 8).toUInt8⟩,
      ⟨r 2, (off &&& 0xFF).toUInt8⟩, ⟨r 3, (off >>> 8).toUInt8⟩], IsRegister (w.reg % 256) := by
    simp only [List.forall_mem_cons]
    exact ⟨hregister 0 (by decide), hregister 1 (by decide), hregister 2 (by decide),
      hregister 3 (by decide), fun w hw => absurd hw List.not_mem_nil⟩
  have hreg (j : ℕ) (hj : j < 4) := reg_exec hC (k := 4 * num.toNat + j) (by omega) hws s
  rw [channel_eq, hreg 0 (by decide), hreg 1 (by decide), hreg 2 (by decide), hreg 3 (by decide)]
  simp (disch := decide) only [lastWrite_cons, lastWrite_nil, hloads, if_true, Nat.reduceEqDiff,
    if_false, OfNat.ofNat_ne_zero, OfNat.zero_ne_ofNat, one_ne_zero, zero_ne_one,
    Option.getD_some, Option.getD_none]
  exact congr (congrArg Setting.mk (count_bytes on)) (count_bytes off)

/-- The mode registers and the prescaler belong to no channel. -/
theorem channel_exec_modes {num : UInt8} (hnum : num.toNat < 16) {ws : List RegWrite}
    (hws : ∀ w ∈ ws, w.reg < LED0_ON_L ∨ w.reg = PCA9685_PRESCALE) (s : C.State) :
    C.channel (exec C.send s ws) num = C.channel s num := by
  have hfirst : LED0_ON_L = 6 := rfl
  have hall : ALLLED_ON_L = 250 := rfl
  have hprescale : PCA9685_PRESCALE = 254 := rfl
  refine channel_exec_of_forall hC hnum (fun w hw => ?_) (fun w hw j hj => if_neg ?_) s
  · have hreg := hws w hw
    unfold IsRegister
    omega
  · have hreg := hws w hw
    omega

theorem channel_call {num : UInt8} (hnum : num.toNat < 16) {op : DriverOp}
    (hop : op.HasRegisters) (s : C.State) :
    C.channel (C.call s op) num = (op.sets num).getD (C.channel s num) := by
  have hfirst : LED0_ON_L = 6 := rfl
  have hall : ALLLED_ON_L = 250 := rfl
  have hsetAll (on off : UInt16) (s : C.State) :
      C.channel (exec C.send s (setAllPWM on off)) num = .ofCounts on off :=
    channel_exec_load hC hnum (r := fun i => ALLLED_ON_L + i)
      (fun i hi => Or.inr (Nat.mod_eq_of_lt (by omega))) on off s
  cases op with
  | reset mode1 =>
    rw [Pca9685.call, DriverOp.writes, reset, exec_append, channel_exec_modes hC hnum, hsetAll]
    · rfl
    · simp only [List.forall_mem_cons]
      decide
  | setPWMFreq freq oldmode =>
    refine channel_exec_modes hC hnum ?_ s
    simp only [DriverOp.writes, setPWMFreq, List.forall_mem_cons]
    decide
  | setAllPWM on off => exact hsetAll on off s
  | setPWM n on off =>
    by_cases hn : n.toNat % 64 = num.toNat ∨ n.toNat % 64 = 61
    · rw [DriverOp.sets, if_pos hn]
      exact channel_exec_load hC hnum (r := fun i => LED0_ON_L + i + 4 * n.toNat)
        (fun i hi => by omega) on off s
    · rw [DriverOp.sets, if_neg hn, Option.getD_none]
      have hbounds : ∀ w ∈ setPWM n on off, ∃ i < 4, w.reg = LED0_ON_L + i + 4 * n.toNat := by
        simp only [setPWM, List.forall_mem_cons]
        exact ⟨⟨0, by decide, rfl⟩, ⟨1, by decide, rfl⟩, ⟨2, by decide, rfl⟩, ⟨3, by decide, rfl⟩,
          fun w hw => absurd hw List.not_mem_nil⟩
      have hchannel : n.toNat % 64 < 16 := hop.resolve_right (not_or.mp hn).2
      refine channel_exec_of_forall hC hnum (fun w hw => ?_) (fun w hw j hj => if_neg ?_) s
      · obtain ⟨i, hi, hreg⟩ := hbounds w hw
        unfold IsRegister
        omega
      · obtain ⟨i, hi, hreg⟩ := hbounds w hw
        omega

/-! ## Runs -/

/-- **A channel holds what it was last set to.**  Whatever a PCA9685 held at first, and whatever is
called on its driver and in whatever order, the four registers of a channel hold, put together from
their bytes, the counts of the last `setPWM` for this channel or `setAllPWM`, or zeros where
`reset` came later; a call for another channel does not disturb them, nor does one that sets the
frequency. -/
theorem channel_run {num : UInt8} (hnum : num.toNat < 16) (s : C.State) {ops : List DriverOp}
    (hops : ∀ op ∈ ops, op.HasRegisters) :
    C.channel (exec C.call s ops) num =
      lastWrite (DriverOp.sets num) (C.channel s num) ops :=
  exec_eq_lastWrite_of_mem (f := fun s => C.channel s num)
    (fun op hop s => channel_call hC hnum (hops op hop) s) s

end Documented

/-! ## A chip -/

/-- What a write makes of the registers of the data sheet. -/
def dataSheetWrite (regs : ℕ → UInt8) (r : ℕ) (v : UInt8) : ℕ → UInt8 :=
  if r = PCA9685_PRESCALE then
    if regs PCA9685_MODE1 &&& SLEEP = SLEEP then
      Function.update regs r (if v < 3 then 3 else v)
    else regs
  else if ALLLED_ON_L ≤ r ∧ r < PCA9685_PRESCALE then
    fun r' =>
      if LED0_ON_L ≤ r' ∧ r' < 0x46 ∧ (r' - LED0_ON_L) % 4 = r - ALLLED_ON_L then
        v &&& ledBits (r' - LED0_ON_L)
      else regs r'
  else if LED0_ON_L ≤ r ∧ r < 0x46 then
    Function.update regs r (v &&& ledBits (r - LED0_ON_L))
  else Function.update regs r v

/-- The chip of the data sheet: it is its registers. -/
def dataSheet : Pca9685 := ⟨ℕ → UInt8, dataSheetWrite, fun regs => regs⟩

theorem dataSheet_documented : dataSheet.Documented := by
  have hfirst : LED0_ON_L = 6 := rfl
  have hall : ALLLED_ON_L = 250 := rfl
  have hprescale : PCA9685_PRESCALE = 254 := rfl
  constructor
  · intro (regs : ℕ → UInt8) k v hk
    show dataSheetWrite regs _ v _ = v &&& ledBits k
    unfold dataSheetWrite
    rw [if_neg (by omega), if_neg (by omega), if_pos (by omega), Function.update_self,
      Nat.add_sub_cancel_left]
  · intro (regs : ℕ → UInt8) k v hk
    show dataSheetWrite regs _ v _ = v &&& ledBits k
    unfold dataSheetWrite
    rw [if_neg (by omega), if_pos (by omega), if_pos (by omega), Nat.add_sub_cancel_left]
  · intro (regs : ℕ → UInt8) k r v hk hr hne hnall
    show dataSheetWrite regs r v _ = regs _
    unfold dataSheetWrite
    split
    · split
      · exact Function.update_of_ne (by omega) _ _
      · rfl
    · split
      · exact if_neg (by omega)
      · split
        · exact Function.update_of_ne hne.symm _ _
        · exact Function.update_of_ne hne.symm _ _
  · intro (regs : ℕ → UInt8) v
    rfl
  · intro (regs : ℕ → UInt8) v hsleep hv
    have hsleep : regs PCA9685_MODE1 &&& SLEEP = SLEEP := hsleep
    show dataSheetWrite regs PCA9685_PRESCALE v PCA9685_PRESCALE = v
    unfold dataSheetWrite
    rw [if_pos rfl, if_pos hsleep, Function.update_self]
    exact if_neg (UInt8.not_lt.mpr hv)
  · intro (regs : ℕ → UInt8) r v hr hne
    show dataSheetWrite regs r v _ = regs _
    unfold dataSheetWrite
    rw [if_neg hne]
    split
    · exact if_neg (by omega)
    · split
      · exact Function.update_of_ne (Ne.symm hne) _ _
      · exact Function.update_of_ne (Ne.symm hne) _ _

/-- A channel that is set between other calls. -/
theorem channel_run_four :
    dataSheet.channel (exec dataSheet.call (fun _ => 0xFF)
        [.setAllPWM 1 2, .reset 0x11, .setPWM 68 0 2000, .setPWM 5 7 4095, .setPWMFreq 60 0x01]) 4 =
      lastWrite (DriverOp.sets 4) (dataSheet.channel (fun _ => 0xFF) 4)
        [.setAllPWM 1 2, .reset 0x11, .setPWM 68 0 2000, .setPWM 5 7 4095, .setPWMFreq 60 0x01] ∧
      lastWrite (DriverOp.sets 4) (dataSheet.channel (fun _ => 0xFF) 4)
        [.setAllPWM 1 2, .reset 0x11, .setPWM 68 0 2000, .setPWM 5 7 4095, .setPWMFreq 60 0x01] =
        ⟨0, 2000⟩ :=
  ⟨channel_run dataSheet_documented (by decide) _ (by decide), by decide⟩

/-! ## The prescaler -/

end Nacapp.Rpi
