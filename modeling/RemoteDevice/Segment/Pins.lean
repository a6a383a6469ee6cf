import Mathlib.Data.Fin.VecNotation
import RemoteDevice.Lib.Passes
import RemoteDevice.Segment.Plugin

/-! The seven-segment plugin on its GPIO pins, write by write, and what the pins show beside the
cached state. -/

namespace RemoteDevice.Segment

def segmentAPin : Int := 5
def segmentBPin : Int := 6
def segmentCPin : Int := 13
def segmentDPin : Int := 19
def segmentEPin : Int := 26
def segmentFPin : Int := 20
def segmentGPin : Int := 21
def segmentDpPin : Int := 16

def segmentPins : Fin segmentCount → Int :=
  ![segmentGPin, segmentFPin, segmentEPin, segmentDPin, segmentCPin, segmentBPin, segmentAPin,
    segmentDpPin]

theorem segmentPins_injective : Function.Injective segmentPins := by
  intro i j
  revert i j
  decide

structure Board where
  output : Int → Bool
  levels : Int → Level
  segmentEnabled : Bool
  segmentValue : Int

def Board.pinMode (b : Board) (pin : Int) : Board :=
  { b with output := Function.update b.output pin true }

def Board.digitalWrite (b : Board) (pin : Int) (level : Level) : Board :=
  { b with levels := Function.update b.levels pin level }

def Board.cache (b : Board) (enabled : Bool) (value : Int) : Board :=
  { b with segmentEnabled := enabled, segmentValue := value }

def Board.openPins (b : Board) : Board :=
  (List.finRange segmentCount).foldl (fun b i => b.pinMode (segmentPins i)) b

/-- The loop over `segment_pins` in `segment_all_off` and `segment_write_pattern`. -/
def Board.writePins (b : Board) (values : Fin segmentCount → Level) : Board :=
  (List.finRange segmentCount).foldl (fun b i => b.digitalWrite (segmentPins i) (values i)) b

def Board.segmentAllOff (b : Board) : Board := b.writePins Segment.segmentAllOff

def Board.segmentWritePattern (b : Board) (pattern : BitVec 8) : Board :=
  b.writePins (Segment.segmentWritePattern pattern)

/-- `setup` is what `wiringPiSetupGpio` returns. -/
def Board.segmentInit (b : Board) (setup : Int) : Board × Int :=
  if setup = -1 then (b, DeviceResult.gpioSetupFailed)
  else (b.openPins.segmentAllOff.cache false 0, DeviceResult.ok)

def Board.segmentCleanup (b : Board) : Board := b.segmentAllOff.cache false 0

def Board.segmentDisplay (b : Board) (value : Int) : Board × Int :=
  if value < 0 ∨ value > 9 then (b, DeviceResult.invalidValue)
  else ((b.segmentWritePattern (digitPatterns.getD value.toNat 0)).cache true value, DeviceResult.ok)

def Board.segmentClear (b : Board) : Board × Int := (b.segmentAllOff.cache false 0, DeviceResult.ok)

/-! ## The pins after a loop -/

theorem Board.foldl_pinMode (l : List (Fin segmentCount)) (b : Board) :
    l.foldl (fun b i => b.pinMode (segmentPins i)) b =
      { b with output := Passes.writeAll segmentPins (fun _ => true) l b.output } := by
  induction l generalizing b with
  | nil => rfl
  | cons i l ih => exact ih (b.pinMode (segmentPins i))

theorem Board.foldl_digitalWrite (values : Fin segmentCount → Level) (l : List (Fin segmentCount))
    (b : Board) :
    l.foldl (fun b i => b.digitalWrite (segmentPins i) (values i)) b =
      { b with levels := Passes.writeAll segmentPins values l b.levels } := by
  induction l generalizing b with
  | nil => rfl
  | cons i l ih => exact ih (b.digitalWrite (segmentPins i) (values i))

def Board.Driven (b : Board) : Prop := ∀ i, b.output (segmentPins i) = true

theorem Board.openPins_driven (b : Board) : b.openPins.Driven := by
  intro i
  rw [Board.openPins, Board.foldl_pinMode]
  exact Passes.writeAll_place segmentPins_injective (fun _ => true) (List.mem_finRange i) b.output

theorem Board.writePins_output (b : Board) (values : Fin segmentCount → Level) :
    (b.writePins values).output = b.output := by
  rw [Board.writePins, Board.foldl_digitalWrite]

def Board.plugin (b : Board) : Plugin :=
  ⟨fun i => b.levels (segmentPins i), b.segmentEnabled, b.segmentValue⟩

theorem Board.writePins_plugin (b : Board) (values : Fin segmentCount → Level) (enabled : Bool)
    (value : Int) : ((b.writePins values).cache enabled value).plugin = ⟨values, enabled, value⟩ := by
  have hpins : (fun i => (b.writePins values).levels (segmentPins i)) = values := by
    funext i
    rw [Board.writePins, Board.foldl_digitalWrite]
    exact Passes.writeAll_place segmentPins_injective values (List.mem_finRange i) b.levels
  exact congrArg (fun pins => Plugin.mk pins enabled value) hpins

/-! ## The calls -/

theorem Board.segmentInit_plugin (b : Board) {setup : Int} (h : setup ≠ -1) :
    (b.segmentInit setup).1.plugin = Segment.segmentClear := by
  rw [Board.segmentInit, if_neg h]
  exact Board.writePins_plugin _ _ _ _

theorem Board.segmentCleanup_plugin (b : Board) : b.segmentCleanup.plugin = Segment.segmentClear :=
  Board.writePins_plugin _ _ _ _

theorem Board.segmentClear_plugin (b : Board) : b.segmentClear.1.plugin = Segment.segmentClear :=
  Board.writePins_plugin _ _ _ _

theorem Board.segmentDisplay_plugin (b : Board) (value : Int) :
    (b.segmentDisplay value).1.plugin = (Segment.segmentDisplay b.plugin value).1 ∧
      (b.segmentDisplay value).2 = (Segment.segmentDisplay b.plugin value).2 := by
  unfold Board.segmentDisplay Segment.segmentDisplay
  split
  · exact ⟨rfl, rfl⟩
  · exact ⟨Board.writePins_plugin _ _ _ _, rfl⟩

inductive Call
  | init (setup : Int)
  | display (value : Int)
  | clear
  | cleanup

def Board.call (b : Board) : Call → Board
  | .init setup => (b.segmentInit setup).1
  | .display value => (b.segmentDisplay value).1
  | .clear => b.segmentClear.1
  | .cleanup => b.segmentCleanup

def Board.run (b : Board) (calls : List Call) : Board := calls.foldl Board.call b

theorem Board.run_snoc (b : Board) (calls : List Call) (c : Call) :
    b.run (calls ++ [c]) = (b.run calls).call c := by
  rw [Board.run, List.foldl_append]
  rfl

theorem Board.Driven.writePins {b : Board} (h : b.Driven) (values : Fin segmentCount → Level)
    (enabled : Bool) (value : Int) : ((b.writePins values).cache enabled value).Driven := by
  intro i
  have houtput := congrFun (b.writePins_output values) (segmentPins i)
  exact houtput.trans (h i)

theorem Board.segmentInit_driven (b : Board) {setup : Int} (h : setup ≠ -1) :
    (b.segmentInit setup).1.Driven := by
  rw [Board.segmentInit, if_neg h]
  exact b.openPins_driven.writePins _ _ _

theorem Board.Driven.call {b : Board} (h : b.Driven) (c : Call) : (b.call c).Driven := by
  cases c with
  | init setup =>
    by_cases hsetup : setup = -1
    · rw [Board.call, Board.segmentInit, if_pos hsetup]
      exact h
    · exact b.segmentInit_driven hsetup
  | display value =>
    rw [Board.call, Board.segmentDisplay]
    split
    · exact h
    · exact h.writePins _ _ _
  | clear => exact h.writePins _ _ _
  | cleanup => exact h.writePins _ _ _

theorem Board.Driven.run {b : Board} (h : b.Driven) (calls : List Call) : (b.run calls).Driven := by
  induction calls generalizing b with
  | nil => exact h
  | cons c calls ih => exact ih (h.call c)

/-! ## What the pins show -/

def Level.opposite : Level → Level
  | .low => .high
  | .high => .low

def Board.At (b : Board) (i : Fin segmentCount) (level : Level) : Prop :=
  b.output (segmentPins i) = true ∧ b.levels (segmentPins i) = level

def Board.Shows (b : Board) (lit : Level) : Prop :=
  if b.segmentEnabled then
    ∃ pattern, 0 ≤ b.segmentValue ∧ digitPatterns[b.segmentValue.toNat]? = some pattern ∧
      ∀ i : Fin segmentCount, b.At i (if pattern.getLsbD i then lit else lit.opposite)
  else ∀ i, ¬b.At i lit

structure PinsShowState (lit : Level) (start : Board) (calls : List Call) : Prop where
  shows : ∀ before, before <+: calls → (start.run before).Shows lit
  rejected : ∀ before value, before ++ [Call.display value] <+: calls → value < 0 ∨ value > 9 →
    start.run (before ++ [Call.display value]) = start.run before

def segmentDigit (value : Int) : Plugin :=
  ⟨Segment.segmentWritePattern (digitPatterns.getD value.toNat 0), true, value⟩

theorem segmentDisplay_digit {value : Int} (h : ¬(value < 0 ∨ value > 9)) (p : Plugin) :
    (Segment.segmentDisplay p value).1 = segmentDigit value := by
  rw [Segment.segmentDisplay, if_neg h]
  rfl

theorem Board.Driven.at_iff {b : Board} (h : b.Driven) (i : Fin segmentCount) (level : Level) :
    b.At i level ↔ b.plugin.pins i = level := and_iff_right (h i)

theorem segmentOffLevel_ne_iff (lit : Level) : segmentOffLevel ≠ lit ↔ lit = .high := by
  cases lit <;> decide

theorem Board.Driven.shows_clear {b : Board} (h : b.Driven) (hp : b.plugin = Segment.segmentClear)
    (lit : Level) : b.Shows lit ↔ lit = .high := by
  have henabled : b.segmentEnabled = false := congrArg Plugin.segmentEnabled hp
  rw [Board.Shows, henabled, ← segmentOffLevel_ne_iff]
  have hpins : ∀ i, b.At i lit ↔ segmentOffLevel = lit := by
    intro i
    rw [h.at_iff, hp]
    rfl
  constructor
  · intro hall heq
    exact hall ⟨0, by decide⟩ ((hpins _).mpr heq)
  · intro hne i hi
    exact hne ((hpins i).mp hi)

theorem digitPatterns_lit : ∀ pattern ∈ digitPatterns,
    ∃ i : Fin segmentCount, pattern.getLsbD i = true := by decide

theorem digitPatterns_get {value : Int} (h : ¬(value < 0 ∨ value > 9)) :
    digitPatterns[value.toNat]? = some (digitPatterns.getD value.toNat 0) := by
  have hlt : value.toNat < digitPatterns.length := by
    show value.toNat < 10
    omega
  rw [List.getD_eq_getElem?_getD, List.getElem?_eq_getElem hlt]
  rfl

theorem Board.Driven.shows_digit {b : Board} (h : b.Driven) {value : Int}
    (hvalue : ¬(value < 0 ∨ value > 9)) (hp : b.plugin = segmentDigit value) (lit : Level) :
    b.Shows lit ↔ lit = .low := by
  have henabled : b.segmentEnabled = true := congrArg Plugin.segmentEnabled hp
  have hcached : b.segmentValue = value := congrArg Plugin.segmentValue hp
  have hget := digitPatterns_get hvalue
  have hpins : ∀ i level, b.At i level ↔
      Segment.segmentWritePattern (digitPatterns.getD value.toNat 0) i = level := by
    intro i level
    rw [h.at_iff, hp]
    rfl
  rw [Board.Shows, henabled, hcached]
  constructor
  · rintro ⟨pattern, -, hpattern, hall⟩
    obtain rfl := Option.some.inj (hget.symm.trans hpattern)
    obtain ⟨i, hi⟩ := digitPatterns_lit _ (List.mem_of_getElem? hget)
    have hlevel := (hpins i _).mp (hall i)
    rw [Segment.segmentWritePattern, if_pos hi, if_pos hi] at hlevel
    exact hlevel.symm
  · rintro rfl
    refine ⟨_, by omega, hget, ?_⟩
    intro i
    rw [hpins, Segment.segmentWritePattern]
    split
    · rfl
    · rfl

theorem Board.call_rejected (b : Board) {value : Int} (h : value < 0 ∨ value > 9) :
    b.call (.display value) = b := by
  rw [Board.call, Board.segmentDisplay, if_pos h]

theorem Board.call_clear {b : Board} (hp : b.plugin = Segment.segmentClear) {c : Call}
    (h : ∀ value, c = .display value → value < 0 ∨ value > 9) :
    (b.call c).plugin = Segment.segmentClear := by
  cases c with
  | init setup =>
    by_cases hsetup : setup = -1
    · rw [Board.call, Board.segmentInit, if_pos hsetup]
      exact hp
    · exact b.segmentInit_plugin hsetup
  | display value => rw [b.call_rejected (h value rfl), hp]
  | clear => exact b.segmentClear_plugin
  | cleanup => exact b.segmentCleanup_plugin

theorem Board.run_clear {b : Board} (hp : b.plugin = Segment.segmentClear) {calls : List Call}
    (h : ∀ value, Call.display value ∈ calls → value < 0 ∨ value > 9) :
    (b.run calls).plugin = Segment.segmentClear := by
  induction calls generalizing b with
  | nil => exact hp
  | cons c calls ih =>
    have hcall : (b.call c).plugin = Segment.segmentClear :=
      Board.call_clear hp fun value hc => h value (hc ▸ List.mem_cons_self)
    exact ih hcall fun value hmem => h value (List.mem_cons_of_mem c hmem)

/-- Blanking and digits are written with opposite polarity: one lit level serves exactly the sequences
that show no digit at all. -/
theorem pins_show_state_iff (b : Board) {setup : Int} (hsetup : setup ≠ -1) (lit : Level)
    (calls : List Call) :
    PinsShowState lit (b.segmentInit setup).1 calls ↔
      lit = .high ∧ ∀ value, Call.display value ∈ calls → value < 0 ∨ value > 9 := by
  have hdriven := b.segmentInit_driven hsetup
  have hblank := b.segmentInit_plugin hsetup
  constructor
  · intro h
    have hlit : lit = .high := (hdriven.shows_clear hblank lit).mp (h.shows [] List.nil_prefix)
    refine ⟨hlit, ?_⟩
    intro value hmem
    by_contra hvalue
    obtain ⟨before, after, rfl⟩ := List.append_of_mem hmem
    have hbefore : before ++ [Call.display value] <+: before ++ Call.display value :: after :=
      ⟨after, List.append_assoc before [Call.display value] after⟩
    have hshows := h.shows _ hbefore
    have hdigit : ((b.segmentInit setup).1.run (before ++ [Call.display value])).plugin =
        segmentDigit value := by
      rw [Board.run_snoc, Board.call, (Board.segmentDisplay_plugin _ value).1]
      exact segmentDisplay_digit hvalue _
    -- a digit lights the segments it should turn off
    have hlow := ((hdriven.run _).shows_digit hvalue hdigit lit).mp hshows
    exact Level.noConfusion (hlit.symm.trans hlow)
  · rintro ⟨rfl, hrejected⟩
    constructor
    · intro before hbefore
      have hclear := Board.run_clear hblank fun value hmem => hrejected value (hbefore.subset hmem)
      exact ((hdriven.run before).shows_clear hclear .high).mpr rfl
    · intro before value _ hvalue
      rw [Board.run_snoc]
      exact Board.call_rejected _ hvalue

def boardOff : Board := ⟨fun _ => false, fun _ => .low, false, 0⟩

/-- Rejected digits, a second `segment_init` that fails and one that does not, and the clean-up. -/
theorem pins_show_state_iff_blank :
    PinsShowState .high (boardOff.segmentInit 0).1
      [.display 10, .clear, .init (-1), .display (-1), .init 0, .clear, .cleanup] := by
  refine (pins_show_state_iff boardOff (by decide) .high _).mpr ⟨rfl, ?_⟩
  intro value hvalue
  have hdigit : value = 10 ∨ value = -1 := by simpa using hvalue
  omega

/-- `segment_display(0)` after `segment_init`. -/
theorem no_lit_level :
    ¬∃ lit, PinsShowState lit (boardOff.segmentInit 0).1 [.display 0] := by
  rintro ⟨lit, h⟩
  have hdriven := boardOff.segmentInit_driven (show (0 : Int) ≠ -1 by decide)
  have hblank := boardOff.segmentInit_plugin (show (0 : Int) ≠ -1 by decide)
  have hhigh := (hdriven.shows_clear hblank lit).mp (h.shows [] List.nil_prefix)
  have hdigit := (hdriven.call (.display 0)).shows_digit (show ¬((0 : Int) < 0 ∨ 0 > 9) by decide)
    (Board.segmentDisplay_plugin _ 0).1 lit
  exact Level.noConfusion (hhigh.symm.trans (hdigit.mp (h.shows [.display 0] List.prefix_rfl)))

end RemoteDevice.Segment
