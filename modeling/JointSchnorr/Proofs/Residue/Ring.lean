import Mathlib.Data.ZMod.Basic
import Mathlib.FieldTheory.Finite.Basic
import Mathlib.Tactic.Ring
import JointSchnorr.Residue

namespace JointSchnorr.Residue

variable {m : Modulus}

instance : NeZero m.value := ⟨m.value_pos.ne'⟩

def toZMod (a : Residue m) : ZMod m.value := a.val

theorem toZMod_injective : Function.Injective (toZMod (m := m)) := by
  intro a b h
  apply Residue.ext
  have hmod : a.val ≡ b.val [MOD m.value] := (ZMod.natCast_eq_natCast_iff _ _ _).1 h
  rwa [Nat.ModEq, Nat.mod_eq_of_lt a.val_lt, Nat.mod_eq_of_lt b.val_lt] at hmod

@[simp] theorem toZMod_ofNat (n : Nat) : toZMod (ofNat n : Residue m) = n := by
  simp [toZMod]

@[simp] theorem toZMod_zero : toZMod (0 : Residue m) = 0 := by
  simp [toZMod]

@[simp] theorem toZMod_one : toZMod (1 : Residue m) = 1 := by
  change toZMod (ofNat 1 : Residue m) = 1
  simp

@[simp] theorem toZMod_add (a b : Residue m) : toZMod (a + b) = toZMod a + toZMod b := by
  simp [toZMod]

@[simp] theorem toZMod_mul (a b : Residue m) : toZMod (a * b) = toZMod a * toZMod b := by
  simp [toZMod]

@[simp] theorem toZMod_sub (a b : Residue m) : toZMod (a - b) = toZMod a - toZMod b := by
  simp [toZMod, val_sub, Nat.cast_sub b.val_lt.le, sub_eq_add_neg]

@[simp] theorem toZMod_neg (a : Residue m) : toZMod (-a) = -toZMod a := by
  simp [toZMod, val_neg, Nat.cast_sub a.val_lt.le]

theorem pow_eq_ofNat (a : Residue m) (n : Nat) : a.pow n = ofNat (a.val ^ n) := by
  apply binary_eq (fun k => ofNat (a.val ^ k))
  · rfl
  · intro k
    apply toZMod_injective
    simp only [toZMod_mul, toZMod_ofNat]
    rw [← Nat.cast_mul, ← pow_add, two_mul]
  · intro k
    apply toZMod_injective
    simp [toZMod, pow_succ]

theorem toZMod_pow (a : Residue m) (n : Nat) : toZMod (a.pow n) = toZMod a ^ n := by
  rw [pow_eq_ofNat, toZMod_ofNat, Nat.cast_pow, toZMod]

instance : Zero (Residue m) := ⟨0⟩

instance : One (Residue m) := ⟨1⟩

instance : NatCast (Residue m) := ⟨ofNat⟩

instance : IntCast (Residue m) := ⟨fun n => ofNat (n % m.value).toNat⟩

instance : SMul Nat (Residue m) := ⟨fun n a => ofNat n * a⟩

instance : SMul Int (Residue m) := ⟨fun n a => (n : Residue m) * a⟩

instance : Pow (Residue m) Nat := ⟨pow⟩

theorem toZMod_intCast (n : Int) : toZMod (n : Residue m) = n := by
  have hm : (m.value : Int) ≠ 0 := by exact_mod_cast m.value_pos.ne'
  change toZMod (ofNat (n % m.value).toNat) = n
  rw [toZMod_ofNat, ← Int.cast_natCast, Int.toNat_of_nonneg (Int.emod_nonneg n hm),
    ZMod.intCast_mod]

instance : CommRing (Residue m) :=
  toZMod_injective.commRing toZMod toZMod_zero toZMod_one toZMod_add toZMod_mul toZMod_neg
    toZMod_sub
    (fun n a => by
      change toZMod (ofNat n * a) = n • toZMod a
      rw [toZMod_mul, toZMod_ofNat, nsmul_eq_mul])
    (fun n a => by
      change toZMod ((n : Residue m) * a) = n • toZMod a
      rw [toZMod_mul, toZMod_intCast, zsmul_eq_mul])
    toZMod_pow toZMod_ofNat toZMod_intCast

theorem ofNat_eq_natCast (n : Nat) : (ofNat n : Residue m) = n := rfl

theorem ofNat_val (a : Residue m) : ofNat a.val = a := Residue.ext (Nat.mod_eq_of_lt a.val_lt)

theorem val_pos_iff {a : Residue m} : 0 < a.val ↔ a ≠ 0 := by
  rw [Nat.pos_iff_ne_zero, ne_eq, ne_eq, Residue.ext_iff, val_zero]

section Prime

variable [Fact m.value.Prime]

theorem pow_sub_one_eq_one {a : Residue m} (h : a ≠ 0) : a.pow (m.value - 1) = 1 := by
  have hz : toZMod a ≠ 0 := by
    rw [← toZMod_zero]
    exact fun e => h (toZMod_injective e)
  apply toZMod_injective
  rw [toZMod_pow, toZMod_one]
  exact ZMod.pow_card_sub_one_eq_one hz

theorem mul_inv_of_ne_zero {a : Residue m} (h : a ≠ 0) : a * a.inv = 1 := by
  have two_le : 2 ≤ m.value := (Fact.out : m.value.Prime).two_le
  rw [← pow_sub_one_eq_one h]
  apply toZMod_injective
  rw [toZMod_mul, inv, toZMod_pow, toZMod_pow, ← pow_succ',
    show m.value - 2 + 1 = m.value - 1 by omega]

instance : Field (Residue m) where
  inv a := (inv? a).getD 0
  exists_pair_ne := ⟨0, 1, fun h => by simpa using congrArg toZMod h⟩
  mul_inv_cancel a h := by
    change a * (inv? a).getD 0 = 1
    rw [inv?, if_neg h]
    exact mul_inv_of_ne_zero h
  inv_zero := by
    change (inv? (0 : Residue m)).getD 0 = 0
    rw [inv?, if_pos rfl]
    rfl
  nnqsmul := _
  nnqsmul_def := fun _ _ => rfl
  qsmul := _
  qsmul_def := fun _ _ => rfl

theorem inv?_eq (a : Residue m) : inv? a = if a = 0 then none else some a⁻¹ := by
  by_cases h : a = 0
  · rw [inv?, if_pos h, if_pos h]
  · have hinv : a⁻¹ = a.inv := by
      change (inv? a).getD 0 = a.inv
      rw [inv?, if_neg h]
      rfl
    rw [inv?, if_neg h, if_neg h, hinv]

end Prime

end JointSchnorr.Residue
