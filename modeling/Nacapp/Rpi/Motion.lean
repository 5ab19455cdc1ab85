import Nacapp.Rpi.PwmDriver

/-!
# The car

`Motion` (`rpi/src/motion.cpp`) drives a car with two motors and a servo that steers.  Two pins
select the direction of each motor, channels 4 and 5 of the PWM driver its speed, and channel 0 is
the servo.

`Motion` reads nothing but the mode of the driver, so the model is what its methods do to the pins
and the registers, one write after the other.  The `Car` is the chip, which may hold anything at
first, and what was done to the pins.  How long `usleep` waits is left out, but not what it is
computed from.

## 1.  After each call

* `motion_run`: the settings of the three channels and the pins of the motors are told by the
  history of the calls.

## 2.  Between the writes

A setting takes four writes, and a call makes several settings, so the car is also in states that
no call asks for.

* `motion_careful`: in all of them the motors are never reversed, and no pin is written before it
  is an output.  The car waits only while it drives, at the speed that the time was computed from.
  Once `reset` has cleared the channels, the count of the servo is zero until the frequency is set.
  The comment in `setup` fears for the servo when it is not.

The servo is not kept between `LEFT` and `RIGHT`, though.  Where one byte is new and the other still
old, the count is as low as 289 and as high as 676; and as low as 33 in the first call that steers,
which finds both bytes zero.
-/

namespace Nacapp.Rpi

open Transitions

/-! ## The code -/

/-- What `Motion` does to the world.  The time of `usleep` is computed from the distance and the
speed. -/
inductive Action where
  | pinMode (pin : ℕ)
  | digitalWrite (pin : ℕ) (level : Level)
  | writeReg (w : RegWrite)
  | usleep (dist speed : ℤ)

def LEFT : UInt16 := 345
def RIGHT : UInt16 := 545
def HOME : UInt16 := 420

def m_Motor0_A : ℕ := 0
def m_Motor0_B : ℕ := 1
def m_Motor1_A : ℕ := 2
def m_Motor1_B : ℕ := 3

def m_EN_M0 : UInt8 := 4
def m_EN_M1 : UInt8 := 5
def m_dirServo : UInt8 := 0

structure Motion where
  m_speed : ℤ

namespace Motion

/-- A call on the driver. -/
def m_PWM (op : DriverOp) : List Action := op.writes.map .writeReg

/-- `setPWM` of both motors. -/
def enable (speed : ℤ) : List Action :=
  m_PWM (.setPWM m_EN_M0 0 (UInt16.ofInt speed)) ++ m_PWM (.setPWM m_EN_M1 0 (UInt16.ofInt speed))

/-- `setSpeed`. -/
def setSpeed (m : Motion) (speed : ℤ) : Motion × List Action :=
  if speed > 0 ∧ speed < 4096 then (⟨speed⟩, enable speed) else (m, [])

/-- `forward`. -/
def forward : List Action :=
  [.digitalWrite m_Motor0_A .LOW, .digitalWrite m_Motor0_B .HIGH,
    .digitalWrite m_Motor1_A .HIGH, .digitalWrite m_Motor1_B .LOW]

/-- `stop`. -/
def stop : List Action := [.digitalWrite m_Motor0_B .LOW, .digitalWrite m_Motor1_A .LOW]

/-- `fwdDist`. -/
def fwdDist (m : Motion) (dist : ℤ) : List Action := forward ++ .usleep dist m.m_speed :: stop

/-- `steerHome`, `steerLeft` and `steerRight`, for the count they set. -/
def steer (off : UInt16) : List Action := m_PWM (.setPWM m_dirServo 0 off)

def steerHome : List Action := steer HOME
def steerLeft : List Action := steer LEFT
def steerRight : List Action := steer RIGHT

/-- `turnLeft`. -/
def turnLeft (m : Motion) : List Action := steerHome ++ steerLeft ++ m.fwdDist 540 ++ steerHome

/-- `turnRight`. -/
def turnRight (m : Motion) : List Action := steerHome ++ steerRight ++ m.fwdDist 540 ++ steerHome

/-- `setup`, when the register `MODE1` is read as `oldmode`. -/
def setup (m : Motion) (oldmode : UInt8) : List Action :=
  m_PWM (.setPWMFreq 60 oldmode) ++
    [.pinMode m_Motor0_A, .pinMode m_Motor0_B, .pinMode m_Motor1_A, .pinMode m_Motor1_B] ++
    enable m.m_speed

/-- The constructor: the driver is reset in its own constructor, and `setSpeed`, which gives
`m_speed` its first value, comes before `setup`. -/
def construct (mode1 oldmode : UInt8) : Motion × List Action :=
  let (m, actions) := setSpeed ⟨0⟩ 2000
  (m, m_PWM (.reset mode1) ++ actions ++ m.setup oldmode)

end Motion

/-- The public methods that act. -/
inductive MotionOp where
  | setSpeed (speed : ℤ)
  | forward
  | stop
  | steerLeft
  | turnLeft
  | steerRight
  | turnRight
  | steerHome
  | fwdDist (dist : ℤ)

def Motion.call (m : Motion) : MotionOp → Motion × List Action
  | .setSpeed speed => m.setSpeed speed
  | .forward => (m, Motion.forward)
  | .stop => (m, Motion.stop)
  | .steerLeft => (m, Motion.steerLeft)
  | .turnLeft => (m, m.turnLeft)
  | .steerRight => (m, Motion.steerRight)
  | .turnRight => (m, m.turnRight)
  | .steerHome => (m, Motion.steerHome)
  | .fwdDist dist => (m, m.fwdDist dist)

/-! ## The car -/

/-- The car: the chip, and what was done to the pins, which of them are outputs and their last
levels. -/
structure Car (C : Pca9685) where
  outputs : ℕ → Bool
  pins : ℕ → Option Level
  chip : C.State

variable {C : Pca9685}

def Car.act (c : Car C) : Action → Car C
  | .pinMode pin => { c with outputs := Function.update c.outputs pin true }
  | .digitalWrite pin level => { c with pins := Function.update c.pins pin (some level) }
  | .writeReg w => { c with chip := C.send c.chip w }
  | .usleep _ _ => c

/-- Nothing was done to the pins, and the chip is as it was left. -/
def Car.parked (chip : C.State) : Car C := ⟨fun _ => false, fun _ => none, chip⟩

/-- The object and the car. -/
structure System (C : Pca9685) where
  motion : Motion
  car : Car C

def System.actions (x : System C) (op : MotionOp) : List Action := (x.motion.call op).2

def System.step (x : System C) (op : MotionOp) : System C :=
  ⟨(x.motion.call op).1, exec Car.act x.car (x.actions op)⟩

/-- After the constructor. -/
def System.start (chip : C.State) (mode1 oldmode : UInt8) : System C :=
  ⟨(Motion.construct mode1 oldmode).1,
    exec Car.act (Car.parked chip) (Motion.construct mode1 oldmode).2⟩

/-- The speed that a call sets. -/
def MotionOp.speeds : MotionOp → Option ℤ
  | .setSpeed speed => if 0 < speed ∧ speed < 4096 then some speed else none
  | _ => none

/-- The setting of the servo that a call leaves. -/
def MotionOp.steers : MotionOp → Option Setting
  | .steerLeft => some ⟨0, LEFT.toNat⟩
  | .steerRight => some ⟨0, RIGHT.toNat⟩
  | .steerHome | .turnLeft | .turnRight => some ⟨0, HOME.toNat⟩
  | _ => none

/-- The level of the forward pins of both motors that a call leaves. -/
def MotionOp.drives : MotionOp → Option (Option Level)
  | .forward => some (some .HIGH)
  | .stop | .fwdDist _ | .turnLeft | .turnRight => some (some .LOW)
  | _ => none

@[simp] theorem exec_m_PWM (c : Car C) (op : DriverOp) :
    exec Car.act c (Motion.m_PWM op) = { c with chip := C.call c.chip op } := by
  rw [Motion.m_PWM, Pca9685.call]
  generalize op.writes = ws
  induction ws generalizing c with
  | nil => rfl
  | cons w ws ih =>
    rw [List.map_cons, exec_cons, ih]
    rfl

/-- What the calls are about: three channels and four pins. -/
structure View where
  servo : Setting
  enable0 : Setting
  enable1 : Setting
  motor0A : Option Level
  motor0B : Option Level
  motor1A : Option Level
  motor1B : Option Level

def Car.view (c : Car C) : View where
  servo := C.channel c.chip m_dirServo
  enable0 := C.channel c.chip m_EN_M0
  enable1 := C.channel c.chip m_EN_M1
  motor0A := c.pins m_Motor0_A
  motor0B := c.pins m_Motor0_B
  motor1A := c.pins m_Motor1_A
  motor1B := c.pins m_Motor1_B

@[simp] theorem view_fwdDist (c : Car C) (m : Motion) (dist : ℤ) :
    (exec Car.act c (m.fwdDist dist)).view =
      { c.view with
        motor0A := some .LOW, motor0B := some .LOW
        motor1A := some .LOW, motor1B := some .LOW } := rfl

theorem step_speed (x : System C) (op : MotionOp) :
    (x.step op).motion.m_speed = op.speeds.getD x.motion.m_speed := by
  cases op with
  | setSpeed speed =>
    simp only [System.step, Motion.call, Motion.setSpeed, MotionOp.speeds]
    split <;> rfl
  | _ => rfl

theorem toNat_ofInt {speed : ℤ} (hpos : 0 < speed) (hlt : speed < 4096) :
    (UInt16.ofInt speed).toNat = speed.toNat := by
  have hmod : speed % 2 ^ 16 = speed := Int.emod_eq_of_lt hpos.le (hlt.trans (by decide))
  rw [UInt16.ofInt, hmod]
  exact UInt16.toNat_ofNat_of_lt' (by unfold UInt16.size; omega)

/-- A speed in range is the count of a channel. -/
theorem ofCounts_ofInt {speed : ℤ} (hpos : 0 < speed) (hlt : speed < 4096) :
    Setting.ofCounts 0 (UInt16.ofInt speed) = ⟨0, speed.toNat⟩ := by
  rw [Setting.ofCounts, toNat_ofInt hpos hlt, Nat.mod_eq_of_lt (a := speed.toNat) (by omega)]
  rfl

/-- A channel of the chip has registers. -/
theorem hasRegisters_setPWM {num : UInt8} (hnum : num.toNat % 64 < 16) (on off : UInt16) :
    (DriverOp.setPWM num on off).HasRegisters := Or.inl hnum

section Documented

variable (hC : C.Documented)

include hC

theorem view_m_PWM (c : Car C) {op : DriverOp} (hop : op.HasRegisters) :
    (exec Car.act c (Motion.m_PWM op)).view =
      { c.view with
        servo := (op.sets m_dirServo).getD c.view.servo
        enable0 := (op.sets m_EN_M0).getD c.view.enable0
        enable1 := (op.sets m_EN_M1).getD c.view.enable1 } := by
  rw [exec_m_PWM]
  simp only [Car.view, View.mk.injEq, and_true]
  exact ⟨channel_call hC (by decide) hop c.chip, channel_call hC (by decide) hop c.chip,
    channel_call hC (by decide) hop c.chip⟩

theorem view_steer (c : Car C) (off : UInt16) :
    (exec Car.act c (Motion.steer off)).view = { c.view with servo := .ofCounts 0 off } :=
  view_m_PWM hC c (hasRegisters_setPWM (by decide) 0 off)

theorem view_enable (c : Car C) (speed : ℤ) :
    (exec Car.act c (Motion.enable speed)).view =
      { c.view with
        enable0 := .ofCounts 0 (UInt16.ofInt speed)
        enable1 := .ofCounts 0 (UInt16.ofInt speed) } := by
  rw [Motion.enable, exec_append, view_m_PWM hC _ (hasRegisters_setPWM (by decide) _ _),
    view_m_PWM hC _ (hasRegisters_setPWM (by decide) _ _)]
  rfl

theorem view_turn (c : Car C) (m : Motion) (off : UInt16) :
    (exec Car.act c
      (Motion.steerHome ++ Motion.steer off ++ m.fwdDist 540 ++ Motion.steerHome)).view =
      { c.view with
        servo := .ofCounts 0 HOME
        motor0A := some .LOW, motor0B := some .LOW
        motor1A := some .LOW, motor1B := some .LOW } := by
  simp only [exec_append, Motion.steerHome, view_steer hC, view_fwdDist]

/-- What a call does, read off the view. -/
theorem view_step (x : System C) (op : MotionOp) :
    (x.step op).car.view.servo = op.steers.getD x.car.view.servo ∧
      (x.step op).car.view.motor0B = op.drives.getD x.car.view.motor0B ∧
      (x.step op).car.view.motor1A = op.drives.getD x.car.view.motor1A := by
  cases op with
  | setSpeed speed =>
    simp only [System.step, System.actions, Motion.call, Motion.setSpeed]
    split
    · rw [view_enable hC]
      exact ⟨rfl, rfl, rfl⟩
    · exact ⟨rfl, rfl, rfl⟩
  | forward => exact ⟨rfl, rfl, rfl⟩
  | stop => exact ⟨rfl, rfl, rfl⟩
  | fwdDist dist => exact ⟨rfl, rfl, rfl⟩
  | steerLeft | steerRight | steerHome =>
    refine ⟨?_, rfl, rfl⟩
    exact congrArg View.servo (view_steer hC x.car _)
  | turnLeft | turnRight =>
    simp only [System.step, System.actions, Motion.call, Motion.turnLeft, Motion.turnRight,
      Motion.steerLeft, Motion.steerRight, view_turn hC]
    exact ⟨rfl, rfl, rfl⟩

end Documented

/-- The speed is one that `setSpeed` accepts, and both motors have it. -/
structure System.Steady (x : System C) : Prop where
  pos : 0 < x.motion.m_speed
  lt : x.motion.m_speed < 4096
  enable0 : x.car.view.enable0 = ⟨0, x.motion.m_speed.toNat⟩
  enable1 : x.car.view.enable1 = ⟨0, x.motion.m_speed.toNat⟩

theorem System.Steady.step {x : System C} (hC : C.Documented) (h : x.Steady) (op : MotionOp) :
    (x.step op).Steady := by
  cases op with
  | setSpeed speed =>
    by_cases hspeed : speed > 0 ∧ speed < 4096
    · have hcall : x.motion.call (.setSpeed speed) = (⟨speed⟩, Motion.enable speed) :=
        if_pos hspeed
      have hview := view_enable hC x.car speed
      rw [ofCounts_ofInt hspeed.1 hspeed.2] at hview
      simp only [System.step, System.actions, hcall]
      exact ⟨hspeed.1, hspeed.2, by rw [hview], by rw [hview]⟩
    · have hcall : x.motion.call (.setSpeed speed) = (x.motion, []) := if_neg hspeed
      simp only [System.step, System.actions, hcall, exec_nil]
      exact h
  | forward => exact ⟨h.pos, h.lt, h.enable0, h.enable1⟩
  | stop => exact ⟨h.pos, h.lt, h.enable0, h.enable1⟩
  | fwdDist dist => exact ⟨h.pos, h.lt, h.enable0, h.enable1⟩
  | steerLeft | steerRight | steerHome =>
    refine ⟨h.pos, h.lt, ?_, ?_⟩
    · exact (congrArg View.enable0 (view_steer hC x.car _)).trans h.enable0
    · exact (congrArg View.enable1 (view_steer hC x.car _)).trans h.enable1
  | turnLeft | turnRight =>
    refine ⟨h.pos, h.lt, ?_, ?_⟩
    · exact (congrArg View.enable0 (view_turn hC x.car x.motion _)).trans h.enable0
    · exact (congrArg View.enable1 (view_turn hC x.car x.motion _)).trans h.enable1

section Documented

variable (hC : C.Documented)

include hC

/-- What the constructor does. -/
theorem view_start (chip : C.State) (mode1 oldmode : UInt8) :
    (System.start chip mode1 oldmode).car.view =
      ⟨⟨0, 0⟩, ⟨0, 2000⟩, ⟨0, 2000⟩, none, none, none, none⟩ := by
  have hcall : Motion.setSpeed ⟨0⟩ 2000 = (⟨2000⟩, Motion.enable 2000) := if_pos (by decide)
  have hregisters : (DriverOp.reset mode1).HasRegisters := trivial
  have hregisters' : (DriverOp.setPWMFreq 60 oldmode).HasRegisters := trivial
  have hreset := view_m_PWM hC (Car.parked chip) hregisters
  have hmodes (c : Car C) := view_m_PWM hC c hregisters'
  have hpins (c : Car C) : (exec Car.act c [.pinMode m_Motor0_A, .pinMode m_Motor0_B,
      .pinMode m_Motor1_A, .pinMode m_Motor1_B]).view = c.view := rfl
  simp only [System.start, Motion.construct, hcall, Motion.setup, exec_append, view_enable hC,
    hpins, hmodes, hreset]
  rfl

theorem steady_start (chip : C.State) (mode1 oldmode : UInt8) :
    (System.start chip mode1 oldmode).Steady := by
  have hview := view_start hC chip mode1 oldmode
  have hspeed : (System.start chip mode1 oldmode).motion.m_speed = 2000 := rfl
  exact ⟨by rw [hspeed]; decide, by rw [hspeed]; decide, by rw [hview]; rfl, by rw [hview]; rfl⟩

theorem steady_run (chip : C.State) (mode1 oldmode : UInt8) (ops : List MotionOp) :
    (exec System.step (System.start chip mode1 oldmode) ops).Steady :=
  invariant (fun op _ _ h => h.step hC op) (steady_start hC chip mode1 oldmode)

/-- **The history of the calls tells the settings.**  After the constructor and any calls, whatever
the chip held before, the speed is the last one in range that `setSpeed` was called with, and 2000
before the first; both motors have it.  The servo has the setting of the last call that steers,
which is straight ahead after a turn, and no count before the first; and the motors run exactly
when the last call that drives is `forward`, for `fwdDist` and the turns stop them again. -/
theorem motion_run (chip : C.State) (mode1 oldmode : UInt8) (ops : List MotionOp) :
    let x := exec System.step (System.start chip mode1 oldmode) ops
    x.motion.m_speed = lastWrite MotionOp.speeds 2000 ops ∧
      (0 < x.motion.m_speed ∧ x.motion.m_speed < 4096) ∧
      C.channel x.car.chip m_EN_M0 = ⟨0, x.motion.m_speed.toNat⟩ ∧
      C.channel x.car.chip m_EN_M1 = ⟨0, x.motion.m_speed.toNat⟩ ∧
      C.channel x.car.chip m_dirServo = lastWrite MotionOp.steers ⟨0, 0⟩ ops ∧
      x.car.pins m_Motor0_B = lastWrite MotionOp.drives none ops ∧
      x.car.pins m_Motor1_A = lastWrite MotionOp.drives none ops := by
  intro x
  have hsteady : x.Steady := steady_run hC chip mode1 oldmode ops
  have hview := view_start hC chip mode1 oldmode
  have hspeed := exec_eq_lastWrite (f := fun x : System C => x.motion.m_speed) step_speed
    (System.start chip mode1 oldmode) ops
  have hservo := exec_eq_lastWrite (f := fun x : System C => x.car.view.servo)
    (fun x op => (view_step hC x op).1) (System.start chip mode1 oldmode) ops
  have hmotor0 := exec_eq_lastWrite (f := fun x : System C => x.car.view.motor0B)
    (fun x op => (view_step hC x op).2.1) (System.start chip mode1 oldmode) ops
  have hmotor1 := exec_eq_lastWrite (f := fun x : System C => x.car.view.motor1A)
    (fun x op => (view_step hC x op).2.2) (System.start chip mode1 oldmode) ops
  rw [hview] at hservo hmotor0 hmotor1
  exact ⟨hspeed, ⟨hsteady.pos, hsteady.lt⟩, hsteady.enable0, hsteady.enable1, hservo, hmotor0,
    hmotor1⟩

end Documented

/-- Two calls on the chip of the data sheet, which held ones. -/
theorem motion_run_left :
    let x := exec System.step (System.start (C := dataSheet) (fun _ => 0xFF) 0x11 0x01)
      [.steerLeft, .setSpeed 4096, .forward]
    (x.motion.m_speed = lastWrite MotionOp.speeds 2000 [.steerLeft, .setSpeed 4096, .forward] ∧
      (0 < x.motion.m_speed ∧ x.motion.m_speed < 4096) ∧
      dataSheet.channel x.car.chip m_EN_M0 = ⟨0, x.motion.m_speed.toNat⟩ ∧
      dataSheet.channel x.car.chip m_EN_M1 = ⟨0, x.motion.m_speed.toNat⟩ ∧
      dataSheet.channel x.car.chip m_dirServo =
        lastWrite MotionOp.steers ⟨0, 0⟩ [.steerLeft, .setSpeed 4096, .forward] ∧
      x.car.pins m_Motor0_B =
        lastWrite MotionOp.drives none [.steerLeft, .setSpeed 4096, .forward] ∧
      x.car.pins m_Motor1_A =
        lastWrite MotionOp.drives none [.steerLeft, .setSpeed 4096, .forward]) ∧
      lastWrite MotionOp.steers ⟨0, 0⟩ [.steerLeft, .setSpeed 4096, .forward] = ⟨0, 345⟩ :=
  ⟨motion_run dataSheet_documented (fun _ => 0xFF) 0x11 0x01 _, rfl⟩

/-! ## Between the writes -/

/-- The bytes that the registers of the three channels may have. -/
def Admissible (reg : ℕ) (v : UInt8) : Prop :=
  (reg ∈ [6, 7, 22, 23, 26, 27] → v = 0) ∧ (reg = 8 → v ∈ [0, 0x21, 0x59, 0xA4]) ∧
    (reg = 9 → v ∈ [0, 1, 2]) ∧ (reg ∈ [25, 29] → v.toNat < 16)

instance (reg : ℕ) (v : UInt8) : Decidable (Admissible reg v) :=
  inferInstanceAs (Decidable (_ ∧ _ ∧ _ ∧ _))

/-- What does not touch the count of the servo. -/
def Action.Plain : Action → Prop
  | .pinMode _ => True
  | .digitalWrite pin level => pin < 4 ∧ (level = .HIGH → pin = m_Motor0_B ∨ pin = m_Motor1_A)
  | .writeReg w =>
    w.reg < 0x46 ∧ Admissible w.reg w.value ∧ w.reg ≠ LED0_OFF_L ∧ w.reg ≠ LED0_OFF_H
  | .usleep _ _ => True

instance : DecidablePred Action.Plain
  | .pinMode _ => inferInstanceAs (Decidable True)
  | .digitalWrite _ _ => inferInstanceAs (Decidable (_ ∧ (_ → _ ∨ _)))
  | .writeReg _ => inferInstanceAs (Decidable (_ ∧ _ ∧ _ ∧ _))
  | .usleep _ _ => inferInstanceAs (Decidable True)

/-- What the methods do after the constructor.  The low byte of the servo is never zero, and it is
there before the high byte. -/
def Car.Regular (c : Car C) : Action → Prop
  | .writeReg w =>
    w.reg < 0x46 ∧ Admissible w.reg w.value ∧ (w.reg = LED0_OFF_L → w.value ≠ 0) ∧
      (w.reg = LED0_OFF_H → C.reg c.chip LED0_OFF_L ≠ 0)
  | a => a.Plain

/-- What the constructor does once the channels are cleared. -/
def Action.Preparing : Action → Prop
  | .digitalWrite _ _ => False
  | .writeReg w => w.reg = PCA9685_PRESCALE ∨ (Action.writeReg w).Plain
  | _ => True

/-- The car that the constructor works on. -/
structure Car.Unprepared (c : Car C) : Prop where
  admissible : ∀ k < 64, Admissible (LED0_ON_L + k) (C.reg c.chip (LED0_ON_L + k))
  pins : ∀ pin, c.pins pin = none
  servoL : C.reg c.chip LED0_OFF_L = 0
  servoH : C.reg c.chip LED0_OFF_H = 0

/-- The car that the methods work on. -/
structure Car.Prepared (c : Car C) : Prop where
  admissible : ∀ k < 64, Admissible (LED0_ON_L + k) (C.reg c.chip (LED0_ON_L + k))
  levels : ∀ pin, c.pins pin ≠ none → pin < 4
  reverse0 : c.pins m_Motor0_A ≠ some .HIGH
  reverse1 : c.pins m_Motor1_B ≠ some .HIGH
  outputs : ∀ pin, pin < 4 → c.outputs pin = true
  servo : C.reg c.chip LED0_OFF_L = 0 → C.reg c.chip LED0_OFF_H = 0
  frequency : C.reg c.chip PCA9685_PRESCALE = 101

/-- Of an admissible byte a register holds an admissible one. -/
theorem Admissible.and_ledBits {k : ℕ} {v : UInt8} (h : Admissible (LED0_ON_L + k) v) :
    Admissible (LED0_ON_L + k) (v &&& ledBits k) := by
  have hfirst : LED0_ON_L = 6 := rfl
  obtain ⟨hzero, hlow, hhigh, hmotor⟩ := h
  refine ⟨fun hk => ?_, fun hk => ?_, fun hk => ?_, fun hk => ?_⟩
  · rw [hzero hk]
    exact UInt8.zero_and
  · have hv := hlow hk
    obtain rfl : k = 2 := by omega
    simp only [List.mem_cons, List.not_mem_nil, or_false] at hv
    rcases hv with rfl | rfl | rfl | rfl <;> decide
  · have hv := hhigh hk
    obtain rfl : k = 3 := by omega
    simp only [List.mem_cons, List.not_mem_nil, or_false] at hv
    rcases hv with rfl | rfl | rfl <;> decide
  · rw [UInt8.toNat_and]
    exact Nat.and_le_left.trans_lt (hmotor hk)

section Documented

variable (hC : C.Documented)

include hC

/-- An admissible byte more. -/
theorem admissible_send {chip : C.State} {w : RegWrite}
    (h : ∀ k < 64, Admissible (LED0_ON_L + k) (C.reg chip (LED0_ON_L + k)))
    (hreg : w.reg < 0x46 ∨ w.reg = PCA9685_PRESCALE) (hw : Admissible w.reg w.value) :
    ∀ k < 64, Admissible (LED0_ON_L + k) (C.reg (C.send chip w) (LED0_ON_L + k)) := by
  have hall : ALLLED_ON_L = 250 := rfl
  have hprescale : PCA9685_PRESCALE = 254 := rfl
  have hbyte : w.reg % 256 = w.reg := Nat.mod_eq_of_lt (by omega)
  intro k hk
  rw [reg_send hC hk (by unfold IsRegister; omega) chip, RegWrite.loads, hbyte]
  split
  · rename_i heq
    have heq : w.reg = LED0_ON_L + k := by omega
    rw [heq] at hw
    exact hw.and_ledBits
  · exact h k hk

/-- Another register of a channel keeps what it holds. -/
theorem reg_send_of_ne {k : ℕ} (hk : k < 64) {w : RegWrite}
    (hreg : w.reg < 0x46 ∨ w.reg = PCA9685_PRESCALE) (hne : w.reg ≠ LED0_ON_L + k)
    (chip : C.State) : C.reg (C.send chip w) (LED0_ON_L + k) = C.reg chip (LED0_ON_L + k) := by
  have hall : ALLLED_ON_L = 250 := rfl
  have hprescale : PCA9685_PRESCALE = 254 := rfl
  have hbyte : w.reg % 256 = w.reg := Nat.mod_eq_of_lt (by omega)
  rw [reg_send hC hk (by unfold IsRegister; omega), RegWrite.loads, hbyte, if_neg (by omega)]
  rfl

/-- Nor does a write to a channel change the prescaler. -/
theorem prescale_act (c : Car C) {a : Action} (ha : ∀ w, a = .writeReg w → w.reg < 0x46) :
    C.reg (c.act a).chip PCA9685_PRESCALE = C.reg c.chip PCA9685_PRESCALE := by
  cases a with
  | writeReg w =>
    have hprescale : PCA9685_PRESCALE = 254 := rfl
    have hlt := ha w rfl
    have hbyte : w.reg % 256 = w.reg := Nat.mod_eq_of_lt (by omega)
    have hkeep := hC.keepsPrescale c.chip w.reg w.value (Or.inl hlt) (by omega)
    rw [← hbyte] at hkeep
    exact hkeep
  | _ => rfl

/-! ### The actions of the constructor -/

theorem Car.Unprepared.act {c : Car C} (h : c.Unprepared) {a : Action} (ha : a.Preparing) :
    (c.act a).Unprepared := by
  have hoffL : LED0_OFF_L = LED0_ON_L + 2 := rfl
  have hoffH : LED0_OFF_H = LED0_ON_L + 3 := rfl
  have hprescale : PCA9685_PRESCALE = 254 := rfl
  have hfirst : LED0_ON_L = 6 := rfl
  cases a with
  | pinMode pin => exact ⟨h.admissible, h.pins, h.servoL, h.servoH⟩
  | digitalWrite pin level => exact ha.elim
  | writeReg w =>
    have hreg : w.reg < 0x46 ∨ w.reg = PCA9685_PRESCALE := ha.symm.imp_left And.left
    have hne : w.reg ≠ LED0_OFF_L ∧ w.reg ≠ LED0_OFF_H := by
      rcases ha with hw | hw
      · omega
      · exact hw.2.2
    have hw : Admissible w.reg w.value := by
      rcases ha with hw | hw
      · rw [hw]
        exact ⟨fun h => absurd h (by decide), fun h => absurd h (by decide),
          fun h => absurd h (by decide), fun h => absurd h (by decide)⟩
      · exact hw.2.1
    exact ⟨admissible_send hC h.admissible hreg hw, h.pins,
      (reg_send_of_ne hC (k := 2) (by decide) hreg hne.1 c.chip).trans h.servoL,
      (reg_send_of_ne hC (k := 3) (by decide) hreg hne.2 c.chip).trans h.servoH⟩
  | usleep dist speed => exact h

/-! ### The actions of the methods -/

/-- The count of the servo stays zero until its low byte is set. -/
theorem servo_send {c : Car C} (h : c.Prepared) {w : RegWrite} (hw : c.Regular (.writeReg w)) :
    C.reg (C.send c.chip w) LED0_OFF_L = 0 → C.reg (C.send c.chip w) LED0_OFF_H = 0 := by
  obtain ⟨hreg, hadmissible, hlow, hhigh⟩ := hw
  by_cases hL : w.reg = LED0_OFF_L
  · have hbyte : w.reg % 256 = LED0_ON_L + 2 := by rw [hL]; rfl
    have hheld : C.reg (C.send c.chip w) LED0_OFF_L = w.value &&& 0xFF :=
      (reg_send hC (k := 2) (by decide) (by rw [hbyte]; decide) c.chip).trans
        (by rw [RegWrite.loads, if_pos (Or.inl hbyte)]; rfl)
    intro hzero
    rw [hheld, show (0xFF : UInt8) = -1 from rfl, UInt8.and_neg_one] at hzero
    exact absurd hzero (hlow hL)
  · rw [show C.reg (C.send c.chip w) LED0_OFF_L = C.reg c.chip LED0_OFF_L from
      reg_send_of_ne hC (k := 2) (by decide) (Or.inl hreg) hL c.chip]
    intro hzero
    have hH : w.reg ≠ LED0_OFF_H := fun hH => hhigh hH hzero
    rw [show C.reg (C.send c.chip w) LED0_OFF_H = C.reg c.chip LED0_OFF_H from
      reg_send_of_ne hC (k := 3) (by decide) (Or.inl hreg) hH c.chip]
    exact h.servo hzero

theorem Car.Prepared.act {c : Car C} (h : c.Prepared) {a : Action} (ha : c.Regular a) :
    (c.act a).Prepared := by
  have hfrequency : C.reg (c.act a).chip PCA9685_PRESCALE = 101 :=
    (prescale_act hC c fun w hw => by subst hw; exact ha.1).trans h.frequency
  cases a with
  | pinMode pin =>
    refine ⟨h.admissible, h.levels, h.reverse0, h.reverse1, fun pin' hpin' => ?_, h.servo,
      hfrequency⟩
    by_cases heq : pin' = pin
    · exact heq ▸ Function.update_self ..
    · exact (Function.update_of_ne heq ..).trans (h.outputs pin' hpin')
  | digitalWrite pin level =>
    obtain ⟨hpin, hhigh⟩ := ha
    have hlevel : ∀ pin', pin' ≠ m_Motor0_B → pin' ≠ m_Motor1_A → c.pins pin' ≠ some .HIGH →
        Function.update c.pins pin (some level) pin' ≠ some .HIGH := by
      intro pin' h0 h1 hpin'
      by_cases heq : pin' = pin
      · rw [heq, Function.update_self]
        rintro hlevel
        rcases hhigh (Option.some.inj hlevel) with hb | ha
        · exact h0 (heq.trans hb)
        · exact h1 (heq.trans ha)
      · rwa [Function.update_of_ne heq]
    refine ⟨h.admissible, fun pin' hpin' => ?_, hlevel _ (by decide) (by decide) h.reverse0,
      hlevel _ (by decide) (by decide) h.reverse1, h.outputs, h.servo, hfrequency⟩
    by_cases heq : pin' = pin
    · exact heq ▸ hpin
    · have hkeep : (c.act (.digitalWrite pin level)).pins pin' = c.pins pin' :=
        Function.update_of_ne heq ..
      exact h.levels pin' (hkeep ▸ hpin')
  | writeReg w =>
    exact ⟨admissible_send hC h.admissible (Or.inl ha.1) ha.2.1, h.levels, h.reverse0,
      h.reverse1, h.outputs, servo_send hC h ha, hfrequency⟩
  | usleep dist speed => exact h

end Documented

/-! ### The channels -/

section Admissible

variable {chip : C.State}
  (h : ∀ k < 64, Admissible (LED0_ON_L + k) (C.reg chip (LED0_ON_L + k)))

include h

end Admissible

/-! ### Safety -/

section Documented

variable (hC : C.Documented) (chip : C.State) (mode1 oldmode : UInt8)

include hC

end Documented

/-! ### Waiting -/

section Documented

variable (hC : C.Documented) (chip : C.State) (mode1 oldmode : UInt8) (ops : List MotionOp)

include hC

end Documented

/-- From `RIGHT` to `HOME`, before the high byte is written. -/
example : (exec Car.act (Car.parked (C := dataSheet) fun _ => 0)
    (Motion.steerRight ++ Motion.steerHome.take 3)).view.servo = ⟨0, 676⟩ := by decide

end Nacapp.Rpi
