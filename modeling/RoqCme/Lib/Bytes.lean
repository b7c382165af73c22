import Mathlib.Algebra.Ring.Nat
import Mathlib.Data.List.Basic

/-! Little-endian integers in byte lists. -/
namespace RoqCme.Lib

/-- The low `k` bytes of `n`, least significant first. -/
def toLittleEndian : Nat → Nat → List UInt8
  | 0, _ => []
  | k + 1, n => UInt8.ofNat (n % 256) :: toLittleEndian k (n / 256)

def ofLittleEndian : List UInt8 → Nat
  | [] => 0
  | b :: bs => b.toNat + 256 * ofLittleEndian bs

@[simp] theorem toLittleEndian_length (k n : Nat) : (toLittleEndian k n).length = k := by
  induction k generalizing n with
  | zero => rfl
  | succ k ih => simp [toLittleEndian, ih]

theorem ofLittleEndian_lt (bs : List UInt8) : ofLittleEndian bs < 256 ^ bs.length := by
  induction bs with
  | nil => simp [ofLittleEndian]
  | cons b bs ih =>
    have hb := b.toNat_lt
    simp only [ofLittleEndian, List.length_cons, Nat.pow_succ]
    omega

theorem ofLittleEndian_toLittleEndian (k n : Nat) :
    ofLittleEndian (toLittleEndian k n) = n % 256 ^ k := by
  induction k generalizing n with
  | zero => simp [toLittleEndian, ofLittleEndian, Nat.mod_one]
  | succ k ih =>
    have hb : (UInt8.ofNat (n % 256)).toNat = n % 256 := by simp
    rw [toLittleEndian, ofLittleEndian, hb, ih, Nat.pow_succ, Nat.mul_comm (256 ^ k) 256,
      Nat.mod_mul]

end RoqCme.Lib
