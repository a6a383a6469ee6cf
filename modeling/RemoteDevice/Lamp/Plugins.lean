import RemoteDevice.DeviceResult

/-! The LED plugin and the light plugin: their static variables and the functions that the workers
run, the LED's over the wiringPi calls that it makes on its pin. -/

namespace RemoteDevice.Led

/-- The wiringPi calls on the LED pin, whose state is a `π`: `pinMode(OUTPUT)`, `digitalWrite`,
the three `softPwm` functions, `softPwmCreate` with what it returns, and what can be told of
the pin. -/
structure WiringPi (π : Type) where
  pinModeOutput : π → π
  digitalWrite : Bool → π → π
  softPwmCreate : Int → π → π
  softPwmWrite : Int → π → π
  softPwmStop : π → π
  isOutput : π → Bool
  high : π → Bool
  /-- The duty with which PWM runs on the pin. -/
  duty : π → Option Int

variable {π : Type}

/-- What wiringPi promises of these calls, in the range 0 to 255 with which the plugin creates
its PWM. -/
structure WiringPi.Documented (w : WiringPi π) : Prop where
  pinModeOutput_isOutput : ∀ p, w.isOutput (w.pinModeOutput p) = true
  pinModeOutput_duty : ∀ p, w.duty p = none → w.duty (w.pinModeOutput p) = none
  digitalWrite_high : ∀ b p, w.isOutput p = true → w.high (w.digitalWrite b p) = b
  digitalWrite_duty : ∀ b p, w.duty p = none → w.duty (w.digitalWrite b p) = none
  softPwmCreate_ok : ∀ p, w.duty p = none → w.duty (w.softPwmCreate 0 p) = some 0
  softPwmCreate_failed : ∀ r p, r ≠ 0 → w.softPwmCreate r p = p
  softPwmWrite_duty : ∀ d v p, w.duty p = some d → 0 ≤ v → v ≤ 255 → w.duty (w.softPwmWrite v p) = some v
  softPwmStop_duty : ∀ p, w.duty (w.softPwmStop p) = none
  softPwmStop_high : ∀ p, w.high (w.softPwmStop p) = false

structure Pin where
  output : Bool
  high : Bool
  duty : Option Int
  deriving DecidableEq

def simplePin : WiringPi Pin where
  pinModeOutput p := { p with output := true }
  digitalWrite b p := if p.output then { p with high := b } else p
  softPwmCreate r p := if r = 0 then { p with output := true, high := false, duty := some 0 } else p
  softPwmWrite v p := { p with duty := p.duty.map fun _ => max 0 (min v 255) }
  softPwmStop p := { p with high := false, duty := none }
  isOutput := Pin.output
  high := Pin.high
  duty := Pin.duty

theorem simplePin_documented : simplePin.Documented where
  pinModeOutput_isOutput _ := rfl
  pinModeOutput_duty _ h := h
  digitalWrite_high b p h := by simp_all [simplePin]
  digitalWrite_duty b p h := by
    simp only [simplePin] at h ⊢
    split <;> exact h
  softPwmCreate_ok _ _ := rfl
  softPwmCreate_failed r p h := if_neg h
  softPwmWrite_duty d v p h h0 h255 := by
    simp only [simplePin] at h ⊢
    rw [h, Option.map_some, Option.some.injEq]
    omega
  softPwmStop_duty _ := rfl
  softPwmStop_high _ := rfl

structure State (π : Type) where
  ledState : Bool
  pwmStarted : Bool
  pin : π
  deriving DecidableEq

def lit (w : WiringPi π) (p : π) : Bool :=
  match w.duty p with
  | none => w.high p
  | some d => 0 < d

variable (w : WiringPi π)

def stopPwm (l : State π) : State π :=
  if l.pwmStarted then { l with pin := w.softPwmStop l.pin, pwmStarted := false } else l

def switch (b : Bool) (l : State π) : State π :=
  { l with pin := w.digitalWrite b (w.pinModeOutput l.pin), ledState := b }

/-- `setup` is what `wiringPiSetupGpio` returns. -/
def ledInit (setup : Int) (l : State π) : Int × State π :=
  if setup = -1 then (DeviceResult.gpioSetupFailed, l)
  else (DeviceResult.ok, { switch w false l with pwmStarted := false })

def ledOn (l : State π) : Int × State π := (DeviceResult.ok, switch w true (stopPwm w l))

/-- `created` is what `softPwmCreate` returns. -/
def ledOnBright (brightness created : Int) (l : State π) : Int × State π :=
  if brightness < 0 ∨ brightness > 255 then (DeviceResult.invalidValue, l)
  else if !l.pwmStarted && created ≠ 0 then
    -- `pwm_started` and the cached state stay as they were
    (DeviceResult.deviceFailed, { l with pin := w.softPwmCreate created l.pin })
  else
    let l :=
      if l.pwmStarted then l
      else { l with pin := w.softPwmCreate created l.pin, pwmStarted := true }
    (DeviceResult.ok, { l with pin := w.softPwmWrite brightness l.pin, ledState := 0 < brightness })

def ledOff (l : State π) : Int × State π :=
  let l := if l.pwmStarted then { l with pin := w.softPwmWrite 0 l.pin } else l
  (DeviceResult.ok, switch w false (stopPwm w l))

def ledIsOn (l : State π) : Bool := l.ledState

structure Consistent (l : State π) : Prop where
  pwm : l.pwmStarted = (w.duty l.pin).isSome
  lit : lit w l.pin = l.ledState

variable {w} {l : State π}

theorem Consistent.duty_eq_none (h : Consistent w l) (hp : l.pwmStarted = false) :
    w.duty l.pin = none := by
  have := h.pwm
  rw [hp] at this
  exact Option.not_isSome_iff_eq_none.mp (by rw [← this]; exact Bool.false_ne_true)

section
variable (hw : w.Documented)
include hw

theorem switch_consistent (b : Bool) (hp : l.pwmStarted = false) (hduty : w.duty l.pin = none) :
    Consistent w (switch w b l) := by
  have hoff : w.duty (switch w b l).pin = none :=
    hw.digitalWrite_duty _ _ (hw.pinModeOutput_duty _ hduty)
  refine ⟨?_, ?_⟩
  · rw [hoff]
    exact hp
  · rw [lit, hoff]
    exact hw.digitalWrite_high _ _ (hw.pinModeOutput_isOutput _)

theorem stopPwm_off (h : l.pwmStarted = true ∨ w.duty l.pin = none) :
    (stopPwm w l).pwmStarted = false ∧ w.duty (stopPwm w l).pin = none := by
  unfold stopPwm
  split
  · exact ⟨rfl, hw.softPwmStop_duty _⟩
  · next hp => exact ⟨by simpa using hp, h.resolve_left hp⟩

theorem ledInit_consistent {setup : Int} (hs : setup ≠ -1) (hduty : w.duty l.pin = none) :
    Consistent w (ledInit w setup l).2 ∧ (ledInit w setup l).2.ledState = false := by
  rw [ledInit, if_neg hs]
  exact ⟨switch_consistent (l := { l with pwmStarted := false }) hw false rfl hduty, rfl⟩

theorem ledOn_consistent (h : Consistent w l) : Consistent w (ledOn w l).2 := by
  have hstop := stopPwm_off hw ((Bool.eq_false_or_eq_true _).imp_right h.duty_eq_none)
  exact switch_consistent hw true hstop.1 hstop.2

theorem ledOff_consistent (h : Consistent w l) : Consistent w (ledOff w l).2 := by
  have hstop : ∀ {l : State π}, l.pwmStarted = true ∨ w.duty l.pin = none →
      Consistent w (switch w false (stopPwm w l)) := fun hl =>
    switch_consistent hw false (stopPwm_off hw hl).1 (stopPwm_off hw hl).2
  unfold ledOff
  split
  · next hp => exact hstop (.inl hp)
  · next hp => exact hstop (.inr (h.duty_eq_none (by simpa using hp)))

theorem ledOnBright_consistent (h : Consistent w l) (brightness created : Int) :
    Consistent w (ledOnBright w brightness created l).2 := by
  unfold ledOnBright
  split
  · exact h
  next hrange =>
  split
  · next hfail =>
    simp only [Bool.and_eq_true, decide_eq_true_eq] at hfail
    rw [hw.softPwmCreate_failed _ _ hfail.2]
    exact h
  next hok =>
  have hrun : ∀ {l : State π}, l.pwmStarted = true → (w.duty l.pin).isSome = true →
      Consistent w { l with pin := w.softPwmWrite brightness l.pin, ledState := 0 < brightness } := by
    intro l hp hd
    obtain ⟨d, hd⟩ := Option.isSome_iff_exists.mp hd
    have hduty := hw.softPwmWrite_duty d brightness l.pin hd (by omega) (by omega)
    exact ⟨by rw [hduty]; exact hp, by rw [lit, hduty]⟩
  by_cases hp : l.pwmStarted = true
  · rw [if_pos hp]
    exact hrun hp (by rw [← h.pwm]; exact hp)
  · have hcreated : created = 0 := by simpa [hp] using hok
    have hduty := hw.softPwmCreate_ok l.pin (h.duty_eq_none (by simpa using hp))
    rw [if_neg hp, hcreated]
    exact hrun rfl (by rw [hduty]; rfl)

end

theorem ledOnBright_eq (w : WiringPi π) (brightness created : Int) (l : State π) :
    (ledOnBright w brightness created l).1 = DeviceResult.ok ∧
        (ledOnBright w brightness created l).2.ledState = decide (0 < brightness) ∨
      (ledOnBright w brightness created l).1 ≠ DeviceResult.ok ∧
        (ledOnBright w brightness created l).2.ledState = l.ledState := by
  unfold ledOnBright
  split
  · exact .inr ⟨(by decide : (DeviceResult.invalidValue : Int) ≠ DeviceResult.ok), rfl⟩
  split
  · exact .inr ⟨(by decide : (DeviceResult.deviceFailed : Int) ≠ DeviceResult.ok), rfl⟩
  · exact .inl ⟨rfl, rfl⟩

end RemoteDevice.Led

namespace RemoteDevice.Light

structure State where
  lastLightValue : Int
  deriving DecidableEq

def lightInit (setup : Int) (l : State) : Int × State :=
  if setup = -1 then (DeviceResult.gpioSetupFailed, l) else (DeviceResult.ok, { l with lastLightValue := -1 })

/-- `current` is what `digitalRead` returns; the last component is left in `*value`. -/
def lightRead (current : Int) (l : State) : Int × State × Int :=
  (DeviceResult.ok, { l with lastLightValue := current }, current)

def lightGetLastValue (l : State) : Int := l.lastLightValue

end RemoteDevice.Light
