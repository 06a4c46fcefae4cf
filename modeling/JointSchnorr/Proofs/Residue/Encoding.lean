import Mathlib.Data.List.Induction
import Mathlib.Tactic.Ring
import JointSchnorr.Proofs.Outcome
import JointSchnorr.Residue

namespace JointSchnorr

theorem Bytes.value_ofNat (k n : Nat) : (Bytes.ofNat k n).value = n % 256 ^ k := by
  induction k generalizing n with
  | zero => exact (Nat.mod_one n).symm
  | succ k ih =>
    rw [ofNat, value_append_singleton, ih, UInt8.toNat_ofNat']
    calc
      256 * (n / 256 % 256 ^ k) + n % 256 = n % (256 * 256 ^ k) := by
        rw [Nat.mod_mul, Nat.add_comm]
      _ = n % 256 ^ (k + 1) := by rw [Nat.pow_succ']

theorem Bytes.ofNat_value {k : Nat} {b : Bytes} (h : b.length = k) : Bytes.ofNat k b.value = b := by
  subst h
  induction b using List.reverseRecOn with
  | nil => rfl
  | append_singleton b x ih =>
    have lt := x.toNat_lt
    have high : (256 * value b + x.toNat) / 256 = value b := by omega
    have low : (256 * value b + x.toNat).toUInt8 = x := by
      apply UInt8.toNat_inj.1
      rw [Nat.toUInt8_eq, UInt8.toNat_ofNat']
      omega
    rw [List.length_append, List.length_singleton, value_append_singleton, ofNat, high, low, ih]

theorem Bytes.valueLow_reverse (b : Bytes) : Bytes.valueLow b.reverse = b.value := by
  rw [valueLow, List.foldr_reverse, value]
  congr 1
  funext n x
  exact Nat.add_comm _ _

theorem Bytes.valueLow_append (b c : Bytes) :
    valueLow (b ++ c) = valueLow b + 256 ^ b.length * valueLow c := by
  induction b with
  | nil => simp [valueLow]
  | cons x b ih =>
    change x.toNat + 256 * valueLow (b ++ c) = x.toNat + 256 * valueLow b + _
    rw [ih, List.length_cons, Nat.pow_succ']
    ring

theorem Bytes.valueLow_lt (b : Bytes) : valueLow b < 256 ^ b.length := by
  induction b with
  | nil => exact Nat.one_pos
  | cons x b ih =>
    have lt := x.toNat_lt
    change x.toNat + 256 * valueLow b < _
    rw [List.length_cons, Nat.pow_succ']
    omega

namespace Residue

variable {m : Modulus}

theorem val_lt_pow_bits (a : Residue m) : a.val < 2 ^ m.bits := a.val_lt.trans Nat.lt_log2_self

theorem val_lt_pow_of_bits_le (a : Residue m) {k : Nat} (wide : m.bits ≤ 8 * k) :
    a.val < 256 ^ k :=
  calc
    a.val < 2 ^ m.bits := a.val_lt_pow_bits
    _ ≤ 2 ^ (8 * k) := Nat.pow_le_pow_right Nat.two_pos wide
    _ = 256 ^ k := pow_mul 2 8 k

theorem val_lt_pow_bytes (a : Residue m) : a.val < 256 ^ m.bytes := by
  apply a.val_lt_pow_of_bits_le
  rw [Modulus.bytes]
  omega

@[simp] theorem value_encode (a : Residue m) : a.encode.value = a.val := by
  rw [encode, Bytes.value_ofNat, Nat.mod_eq_of_lt a.val_lt_pow_bytes]

theorem encode_injective : Function.Injective (encode (m := m)) := by
  intro a b h
  apply Residue.ext
  rw [← value_encode a, h, value_encode]

variable {a : Residue m} {b : Bytes} {e : Malformed}

theorem decode_eq_ok_iff : decode b = .ok a ↔ b.length = m.bytes ∧ b.value = a.val := by
  rw [decode, else_error_eq_ok_iff]
  refine and_congr_right fun _ => ?_
  constructor
  · intro h
    split at h
    · cases h
      rfl
    · cases h
  · intro h
    rw [dif_pos (h ▸ a.val_lt)]
    exact congrArg _ (Residue.ext h)

theorem decode_eq_error_iff : (decode b : Except Malformed (Residue m)) = .error e ↔
    b.length ≠ m.bytes ∧ e = .length m.bytes b.length ∨
      b.length = m.bytes ∧ m.value ≤ b.value ∧ e = .unreduced := by
  rw [decode, ← Nat.not_lt]
  by_cases length : b.length = m.bytes <;> by_cases reduced : b.value < m.value <;>
    simp [length, reduced, eq_comm]

theorem decode_encode (a : Residue m) : decode a.encode = .ok a :=
  decode_eq_ok_iff.2 ⟨length_encode a, value_encode a⟩

theorem encode_of_decode (h : decode b = .ok a) : a.encode = b := by
  obtain ⟨length, value⟩ := decode_eq_ok_iff.1 h
  rw [encode, ← value, Bytes.ofNat_value length]

end Residue

end JointSchnorr
