import Mathlib.Algebra.BigOperators.Group.List.Basic
import JointSchnorr.Group
import JointSchnorr.Proofs.Residue.Ring

/-!
Every point has one discrete logarithm, and taking it turns sums of points into sums of scalars, so
an equation between points is an equation between scalars.
-/

namespace JointSchnorr

/-- The laws of an abelian group of prime order in which `multiple` is iterated addition and the
generator reaches every point. -/
class CyclicGroup.Lawful (G : CyclicGroup) : Prop where
  prime : G.order.value.Prime
  add_assoc : ∀ P Q R : G.Point, P + Q + R = P + (Q + R)
  add_comm : ∀ P Q : G.Point, P + Q = Q + P
  zero_add : ∀ P : G.Point, 0 + P = P
  multiple_zero : ∀ P : G.Point, G.multiple 0 P = 0
  multiple_succ : ∀ n (P : G.Point), G.multiple (n + 1) P = G.multiple n P + P
  multiple_order : G.multiple G.order.value G.generator = 0
  generator_ne_zero : G.generator ≠ 0
  exists_multiple : ∀ P : G.Point, ∃ n, G.multiple n G.generator = P

namespace CyclicGroup

variable {G : CyclicGroup} [G.Lawful]

instance : Fact G.order.value.Prime := ⟨Lawful.prime⟩

theorem multiple_add (a b : Nat) (P : G.Point) :
    G.multiple (a + b) P = G.multiple a P + G.multiple b P := by
  induction b with
  | zero => rw [Lawful.multiple_zero, Lawful.add_comm, Lawful.zero_add, Nat.add_zero]
  | succ b ih =>
    rw [← Nat.add_assoc, Lawful.multiple_succ, ih, Lawful.multiple_succ, Lawful.add_assoc]

theorem multiple_mul (a b : Nat) (P : G.Point) :
    G.multiple (a * b) P = G.multiple a (G.multiple b P) := by
  induction a with
  | zero => rw [Nat.zero_mul, Lawful.multiple_zero, Lawful.multiple_zero]
  | succ a ih => rw [Nat.succ_mul, multiple_add, ih, Lawful.multiple_succ]

theorem multiple_mod (n : Nat) :
    G.multiple (n % G.order.value) G.generator = G.multiple n G.generator := by
  have whole : ∀ k, G.multiple (k * G.order.value) G.generator = 0 := by
    intro k
    induction k with
    | zero => rw [Nat.zero_mul, Lawful.multiple_zero]
    | succ k ih => rw [Nat.succ_mul, multiple_add, ih, Lawful.multiple_order, Lawful.zero_add]
  conv_rhs => rw [← Nat.div_add_mod' n G.order.value, multiple_add, whole, Lawful.zero_add]

theorem power_ofNat (n : Nat) : G.power (Residue.ofNat n) = G.multiple n G.generator :=
  multiple_mod n

theorem power_add (a b : G.Scalar) : G.power (a + b) = G.power a + G.power b := by
  change G.power (Residue.ofNat (a.val + b.val)) = _
  rw [power_ofNat, multiple_add]
  rfl

theorem smul_power (k a : G.Scalar) : k • G.power a = G.power (k * a) := by
  change _ = G.power (Residue.ofNat (k.val * a.val))
  rw [power_ofNat, multiple_mul]
  rfl

@[simp] theorem power_zero : G.power 0 = 0 := by
  change G.power (Residue.ofNat 0) = 0
  rw [power_ofNat, Lawful.multiple_zero]

theorem power_one : G.power 1 = G.generator := by
  change G.power (Residue.ofNat 1) = G.generator
  rw [power_ofNat, Lawful.multiple_succ, Lawful.multiple_zero, Lawful.zero_add]

theorem power_eq_zero_iff {a : G.Scalar} : G.power a = 0 ↔ a = 0 := by
  constructor
  · intro h
    by_contra ha
    apply Lawful.generator_ne_zero (G := G)
    calc
      G.generator = G.power (a⁻¹ * a) := by rw [inv_mul_cancel₀ ha, power_one]
      _ = a⁻¹ • G.power a := (smul_power _ _).symm
      _ = a⁻¹ • G.power 0 := by rw [h, power_zero]
      _ = 0 := by rw [smul_power, mul_zero, power_zero]
  · rintro rfl
    exact power_zero

theorem power_injective : Function.Injective G.power := by
  intro a b h
  have diff : G.power (a + -b) = 0 := by
    rw [power_add, h, ← power_add, add_neg_cancel, power_zero]
  exact add_neg_eq_zero.1 (power_eq_zero_iff.1 diff)

theorem power_surjective : Function.Surjective G.power := by
  intro P
  obtain ⟨n, rfl⟩ := Lawful.exists_multiple P
  exact ⟨Residue.ofNat n, power_ofNat n⟩

noncomputable def log (P : G.Point) : G.Scalar := Function.surjInv power_surjective P

@[simp] theorem power_log (P : G.Point) : G.power (log P) = P := Function.surjInv_eq _ P

@[simp] theorem log_power (a : G.Scalar) : log (G.power a) = a := power_injective (power_log _)

theorem log_injective : Function.Injective (log : G.Point → G.Scalar) := by
  intro P Q h
  rw [← power_log P, h, power_log]

theorem eq_iff_log_eq {P Q : G.Point} : P = Q ↔ log P = log Q := log_injective.eq_iff.symm

@[simp] theorem log_zero : log (0 : G.Point) = 0 := by
  rw [← power_zero, log_power]

@[simp] theorem log_add (P Q : G.Point) : log (P + Q) = log P + log Q := by
  apply power_injective
  rw [power_add, power_log, power_log, power_log]

@[simp] theorem log_smul (k : G.Scalar) (P : G.Point) : log (k • P) = k * log P := by
  apply power_injective
  rw [← smul_power, power_log, power_log]

@[simp] theorem log_sum (points : List G.Point) : log (G.sum points) = (points.map log).sum := by
  have start : ∀ P, log (points.foldl (· + ·) P) = log P + (points.map log).sum := by
    induction points with
    | nil => intro P; simp
    | cons Q points ih => intro P; simp [ih, add_assoc]
  rw [sum, start, log_zero, zero_add]

theorem sum_perm {points others : List G.Point} (h : points.Perm others) :
    G.sum points = G.sum others := by
  rw [eq_iff_log_eq, log_sum, log_sum]
  exact (h.map log).sum_eq

end CyclicGroup

end JointSchnorr
