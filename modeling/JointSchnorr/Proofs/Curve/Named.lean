import Mathlib.Tactic.NormNum.Prime
import JointSchnorr.Curve.Named
import JointSchnorr.Proofs.Curve.Subgroup
import JointSchnorr.Proofs.Residue.Primality

namespace JointSchnorr.Curve

open List (forall_mem_cons)
open Residue (prime_of_generator)

/-- The number less one has a large prime factor, which is shown prime in the same way, and so on
down to factors that are found by trial division. -/
theorem prime_secp256k1 : secp256k1.p.value.Prime := by
  have h₁ : Nat.Prime 107590001 :=
    prime_of_generator { value := 107590001 } 3 [2, 5, 7, 29, 53] 4 (by norm_num)
      (by decide +kernel)
  have h₂ : Nat.Prime 173378833005251801 :=
    prime_of_generator { value := 173378833005251801 } 6 [2, 5, 2621, 24809, 13331831] 3
      (by norm_num) (by decide +kernel)
  have h₃ : Nat.Prime 22149492674086928081353 :=
    prime_of_generator { value := 22149492674086928081353 } 5 [173378833005251801, 2, 3, 5323] 3
      (forall_mem_cons.2 ⟨h₂, by norm_num⟩) (by decide +kernel)
  have h₄ : Nat.Prime 132896956044521568488119 :=
    prime_of_generator { value := 132896956044521568488119 } 6 [22149492674086928081353, 2, 3] 1
      (forall_mem_cons.2 ⟨h₃, by norm_num⟩) (by decide +kernel)
  have h₅ : Nat.Prime 255515944373312847190720520512484175977 :=
    prime_of_generator { value := 255515944373312847190720520512484175977 } 3
      [107590001, 2, 7, 11, 1627, 2657, 4423, 41201, 96557, 7240687] 3
      (forall_mem_cons.2 ⟨h₁, by norm_num⟩) (by decide +kernel)
  have h₆ : Nat.Prime 205115282021455665897114700593932402728804164701536103180137503955397371 :=
    prime_of_generator
      { value := 205115282021455665897114700593932402728804164701536103180137503955397371 } 10
      [132896956044521568488119, 255515944373312847190720520512484175977, 2, 3, 5, 29, 31, 7723] 2
      (forall_mem_cons.2 ⟨h₄, forall_mem_cons.2 ⟨h₅, by norm_num⟩⟩) (by decide +kernel)
  exact prime_of_generator secp256k1.p 3
    [205115282021455665897114700593932402728804164701536103180137503955397371, 2, 3, 7, 13441] 1
    (forall_mem_cons.2 ⟨h₆, by norm_num⟩) (by decide +kernel)

theorem pow_third_eq_one {m : Modulus} [Fact m.value.Prime] {x : Residue m}
    (third : 3 ∣ m.value - 1) (nonzero : x ≠ 0) : (x * x * x).pow ((m.value - 1) / 3) = 1 := by
  have cube : x * x * x = x ^ 3 := by rw [pow_succ, pow_two]
  rw [← Residue.pow_sub_one_eq_one nonzero, cube, Residue.pow_eq, Residue.pow_eq, ← pow_mul,
    Nat.mul_div_cancel' third]

theorem second_ne_zero_secp256k1 (x : Residue secp256k1.p) :
    ¬(Affine.xy x 0 : Affine secp256k1).InSubgroup := by
  rintro ⟨onCurve, _⟩
  have : Fact secp256k1.p.value.Prime := ⟨prime_secp256k1⟩
  -- such a point would make minus seven a cube
  have cube : x * x * x = -7 := by
    have onCurve : (0 : Residue secp256k1.p) * 0 = x * x * x + 0 * x + 7 := onCurve
    rw [mul_zero, zero_mul, add_zero] at onCurve
    exact eq_neg_of_add_eq_zero_left onCurve.symm
  have nonzero : x ≠ 0 := by
    rintro rfl
    exact absurd cube (by decide +kernel)
  have one := pow_third_eq_one (by decide +kernel) nonzero
  rw [cube] at one
  exact absurd one (by decide +kernel)

instance : secp256k1.Lawful where
  prime := prime_secp256k1
  not_square := by
    have : Fact secp256k1.p.value.Prime := ⟨prime_secp256k1⟩
    have nonzero : secp256k1.nonSquare ≠ 0 := by decide +kernel
    rw [← not_exists, ← Residue.pow_half_eq_one_iff nonzero]
    change secp256k1.nonSquare.pow (secp256k1.p.value / 2) ≠ 1
    decide +kernel
  second_ne_zero := second_ne_zero_secp256k1

end JointSchnorr.Curve
