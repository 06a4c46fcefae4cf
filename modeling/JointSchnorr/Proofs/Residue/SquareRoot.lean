import Mathlib.NumberTheory.LegendreSymbol.Basic
import JointSchnorr.Proofs.Residue.Ring
import JointSchnorr.Residue.SquareRoot

namespace JointSchnorr.Residue

theorem two_pow_dvd_of_testBit {n k : Nat} (low : ∀ j < k, n.testBit j = false) : 2 ^ k ∣ n := by
  apply Nat.dvd_of_mod_eq_zero
  apply Nat.eq_of_testBit_eq
  intro j
  rw [Nat.testBit_mod_two_pow, Nat.zero_testBit]
  by_cases hj : j < k
  · rw [low j hj, Bool.and_false]
  · rw [decide_eq_false hj, Bool.false_and]

theorem testBit_twos {n : Nat} (h : n ≠ 0) :
    n.testBit (twos n) ∧ ∀ j < twos n, n.testBit j = false := by
  obtain ⟨i, set⟩ := Nat.exists_testBit_of_ne_zero h
  have bounded : i < n.log2 + 1 :=
    Nat.lt_succ_of_le ((Nat.le_log2 h).2 (Nat.ge_two_pow_of_testBit set))
  cases found : (List.range (n.log2 + 1)).find? n.testBit with
  | none =>
    have unset := List.find?_eq_none.1 found i (List.mem_range.2 bounded)
    exact absurd set unset
  | some k =>
    obtain ⟨lowest, _, below⟩ := List.find?_range_eq_some.1 found
    rw [twos, found, Option.getD_some]
    exact ⟨lowest, fun j hj => Bool.eq_false_iff.2 (by simpa using below j hj)⟩

theorem shiftRight_twos {n : Nat} (h : n ≠ 0) :
    n = 2 ^ twos n * (n >>> twos n) ∧ (n >>> twos n) % 2 = 1 := by
  obtain ⟨set, low⟩ := testBit_twos h
  constructor
  · rw [Nat.shiftRight_eq_div_pow, Nat.mul_div_cancel' (two_pow_dvd_of_testBit low)]
  · simpa [Nat.testBit, Nat.one_and_eq_mod_two] using set

theorem half_eq_shiftRight_twos {n : Nat} (h : n ≠ 0) (even : n % 2 = 0) :
    ∃ k, twos n = k + 1 ∧ n / 2 = (n >>> twos n) * 2 ^ k := by
  obtain ⟨factored, odd⟩ := shiftRight_twos h
  generalize twos n = s at *
  cases s with
  | zero =>
    rw [Nat.shiftRight_zero] at odd
    exact absurd (odd.symm.trans even) Nat.one_ne_zero
  | succ k =>
    refine ⟨k, rfl, Nat.div_eq_of_eq_mul_right Nat.two_pos ?_⟩
    rw [← mul_assoc, mul_right_comm, ← pow_succ', ← factored]

variable {p : Modulus}

theorem pow_eq (a : Residue p) (n : Nat) : a.pow n = a ^ n := rfl

theorem descend_zero (c t r : Residue p) : descend 0 c t r = r := rfl

theorem descend_succ (k : Nat) (c t r : Residue p) : descend (k + 1) c t r =
    if t ^ 2 ^ k = 1 then descend k (c * c) t r
    else descend k (c * c) (t * (c * c)) (r * c) := rfl

theorem descend_mul_self [Fact p.value.Prime] {k : Nat} {a c t r : Residue p}
    (hc : c ^ 2 ^ k = -1) (ht : t ^ 2 ^ k = 1) (hr : r * r = a * t) :
    descend k c t r * descend k c t r = a := by
  induction k generalizing c t r with
  | zero =>
    rw [pow_zero, pow_one] at ht
    rw [descend_zero, hr, ht, mul_one]
  | succ k ih =>
    have square (x : Residue p) : (x * x) ^ 2 ^ k = x ^ 2 ^ (k + 1) := by
      rw [← pow_two, ← pow_mul, ← pow_succ']
    rw [descend_succ]
    by_cases one : t ^ 2 ^ k = 1
    · rw [if_pos one]
      exact ih ((square c).trans hc) one hr
    · rw [if_neg one]
      apply ih ((square c).trans hc)
      · -- Half the order of `t` is where it becomes minus one, as `c` does, so their product drops.
        have minus : t ^ 2 ^ k = -1 := by
          rw [← square, mul_pow] at ht
          exact (mul_self_eq_one_iff.1 ht).resolve_left one
        rw [mul_pow, minus, square, hc, neg_mul_neg, one_mul]
      · rw [mul_mul_mul_comm, hr, mul_assoc]

theorem toZMod_surjective : Function.Surjective (toZMod (m := p)) := by
  intro x
  refine ⟨ofNat x.val, ?_⟩
  rw [toZMod_ofNat, ZMod.natCast_zmod_val]

/-- Euler's criterion. -/
theorem pow_half_eq_one_iff [Fact p.value.Prime] {a : Residue p} (ha : a ≠ 0) :
    a ^ (p.value / 2) = 1 ↔ ∃ r, r * r = a := by
  have nonzero : a.toZMod ≠ 0 := by
    rw [← toZMod_zero]
    exact toZMod_injective.ne ha
  rw [← toZMod_injective.eq_iff, ← pow_eq, toZMod_pow, toZMod_one, ← ZMod.euler_criterion _ nonzero]
  constructor
  · rintro ⟨x, hx⟩
    obtain ⟨r, rfl⟩ := toZMod_surjective x
    refine ⟨r, toZMod_injective ?_⟩
    rw [toZMod_mul, hx]
  · rintro ⟨r, rfl⟩
    exact ⟨r.toZMod, toZMod_mul r r⟩

theorem pow_half_eq_neg_one [Fact p.value.Prime] {z : Residue p} (hz : ∀ r, r * r ≠ z) :
    z ^ (p.value / 2) = -1 := by
  have nonzero : z ≠ 0 := fun h => hz 0 ((mul_zero 0).trans h.symm)
  have not_one : z ^ (p.value / 2) ≠ 1 := by
    rw [ne_eq, pow_half_eq_one_iff nonzero, not_exists]
    exact hz
  have sign : z.toZMod ^ (p.value / 2) = 1 ∨ z.toZMod ^ (p.value / 2) = -1 := by
    apply ZMod.pow_div_two_eq_neg_one_or_one
    rw [← toZMod_zero]
    exact toZMod_injective.ne nonzero
  rw [← toZMod_pow, pow_eq, ← toZMod_one, ← toZMod_neg, toZMod_injective.eq_iff,
    toZMod_injective.eq_iff] at sign
  exact sign.resolve_left not_one

theorem descend_from_zero (k : Nat) (c t : Residue p) : descend k c t 0 = 0 := by
  induction k generalizing c t with
  | zero => rfl
  | succ k ih => rw [descend_succ, zero_mul, ih, ih, ite_self]

theorem odd_of_not_square [Fact p.value.Prime] {z : Residue p} (hz : ∀ r, r * r ≠ z) :
    p.value % 2 = 1 := by
  have prime : p.value.Prime := Fact.out
  -- modulo two everything is a square
  refine prime.eq_two_or_odd.resolve_left fun two => hz z (Residue.ext ?_)
  have lt : z.val < 2 := two ▸ z.val_lt
  have bit : z.val = 0 ∨ z.val = 1 := by omega
  rw [val_mul, two]
  cases bit with
  | inl zero => rw [zero]
  | inr one => rw [one]

theorem exists_sqrt? [Fact p.value.Prime] {z : Residue p} (hz : ∀ r, r * r ≠ z)
    {a y : Residue p} (hy : y * y = a) : ∃ r, sqrt? z a = some r := by
  have prime : p.value.Prime := Fact.out
  have odd : p.value % 2 = 1 := odd_of_not_square hz
  have nonzero : p.value - 1 ≠ 0 := Nat.sub_ne_zero_of_lt prime.one_lt
  obtain ⟨k, s_eq, half⟩ := half_eq_shiftRight_twos nonzero (by omega)
  obtain ⟨_, q_odd⟩ := shiftRight_twos nonzero
  have half : p.value / 2 = (p.value - 1) >>> twos (p.value - 1) * 2 ^ k := by
    rw [← half]
    omega
  simp only [sqrt?, s_eq, Nat.add_sub_cancel]
  rw [s_eq] at half q_odd
  generalize (p.value - 1) >>> (k + 1) = q at *
  refine ⟨_, if_pos ?_⟩
  by_cases zero : a = 0
  · rw [zero, pow_eq 0 ((q + 1) / 2), zero_pow (by omega), descend_from_zero, mul_zero]
  · apply descend_mul_self
    · rw [pow_eq, ← pow_mul, ← half, pow_half_eq_neg_one hz]
    · rw [pow_eq, ← pow_mul, ← half, pow_half_eq_one_iff zero]
      exact ⟨y, hy⟩
    · rw [pow_eq, pow_eq, ← pow_add, ← pow_succ']
      congr 1
      omega

end JointSchnorr.Residue
