import Mathlib.Algebra.Group.Nat.Defs
import Mathlib.Data.List.Basic

/-! A regular file open for reading: its bytes and the position. Little-endian numbers. -/

structure ByteFile where
  bytes : List UInt8
  pos : Nat
  deriving DecidableEq

namespace ByteFile

def rest (f : ByteFile) : List UInt8 := f.bytes.drop f.pos

/-- `fread(buffer, 1, n, file)`: the bytes read, fewer than `n` at the end of the file. -/
def fread (f : ByteFile) (n : Nat) : List UInt8 × ByteFile :=
  (f.rest.take n, { f with pos := f.pos + (f.rest.take n).length })

/-- `fseek(file, offset, SEEK_CUR)`, which fails when the position would not fit a 64-bit `long`. -/
def fseekCur (f : ByteFile) (offset : Nat) : Option ByteFile :=
  if f.pos + offset < 2 ^ 63 then some { f with pos := f.pos + offset } else none

variable {f : ByteFile}

def advance (f : ByteFile) (n : Nat) : ByteFile := { f with pos := f.pos + n }

@[simp] theorem advance_pos (f : ByteFile) (n : Nat) : (f.advance n).pos = f.pos + n := rfl

@[simp] theorem advance_advance (f : ByteFile) (m n : Nat) :
    (f.advance m).advance n = f.advance (m + n) := by
  simp [advance, Nat.add_assoc]

theorem advance_rest (f : ByteFile) (n : Nat) : (f.advance n).rest = f.rest.drop n := by
  simp [advance, rest, List.drop_drop]

theorem advance_rest_append {bs tail : List UInt8} (h : f.rest = bs ++ tail) :
    (f.advance bs.length).rest = tail := by
  rw [advance_rest, h, List.drop_left]

theorem fread_append {bs tail : List UInt8} (h : f.rest = bs ++ tail) :
    f.fread bs.length = (bs, f.advance bs.length) := by
  have htake : f.rest.take bs.length = bs := by rw [h, List.take_left]
  rw [fread, htake]
  rfl

theorem fread_rest (n : Nat) : (f.fread n).1 ++ (f.fread n).2.rest = f.rest := by
  have h : (f.fread n).2 = f.advance (f.rest.take n).length := rfl
  rw [h, advance_rest, List.length_take, fread]
  rcases Nat.le_total n f.rest.length with hle | hle
  · rw [Nat.min_eq_left hle, List.take_append_drop]
  · rw [Nat.min_eq_right hle, List.take_of_length_le hle, List.drop_length, List.append_nil]

theorem fread_rest_length (n : Nat) :
    (f.fread n).1.length + (f.fread n).2.rest.length = f.rest.length := by
  rw [← List.length_append, fread_rest]

theorem fseekCur_eq {n : Nat} (h : f.pos + n < 2 ^ 63) : f.fseekCur n = some (f.advance n) :=
  if_pos h

end ByteFile

namespace Bytes

def le : Nat → Nat → List UInt8
  | 0, _ => []
  | w + 1, n => UInt8.ofNat n :: le w (n / 256)

def value : List UInt8 → Nat
  | [] => 0
  | b :: bs => b.toNat + 256 * value bs

@[simp] theorem le_length (w n : Nat) : (le w n).length = w := by
  induction w generalizing n with
  | zero => rfl
  | succ w ih => simp [le, ih]

theorem value_le {w n : Nat} (h : n < 256 ^ w) : value (le w n) = n := by
  induction w generalizing n with
  | zero => simp at h; simp [le, value, h]
  | succ w ih =>
    have hq : n / 256 < 256 ^ w := Nat.div_lt_of_lt_mul (by rwa [Nat.pow_succ, Nat.mul_comm] at h)
    simp only [le, value, ih hq, UInt8.toNat_ofNat']
    omega

end Bytes
