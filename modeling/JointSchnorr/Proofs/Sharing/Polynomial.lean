import Mathlib.LinearAlgebra.Lagrange
import JointSchnorr.Proofs.Refusal
import JointSchnorr.Proofs.Residue.Ring
import JointSchnorr.Sharing.Polynomial

open Polynomial (C X)

namespace JointSchnorr.Suite

variable (S : Suite)

variable {S} in
theorem abscissa_eq_iff {i j : Position} :
    S.abscissa i = S.abscissa j ↔ i.toNat ≡ j.toNat [MOD S.order.value] := by
  have values : S.abscissa i = S.abscissa j ↔ i.toNat + 1 ≡ j.toNat + 1 [MOD S.order.value] :=
    ⟨congrArg Residue.val, fun h => Residue.ext h⟩
  rw [values]
  exact ⟨Nat.ModEq.add_right_cancel' 1, Nat.ModEq.add_right 1⟩

theorem abscissa_injective (large : 2 ^ 32 < S.order.value) : Function.Injective S.abscissa := by
  intro i j h
  apply UInt32.toNat_inj.1
  exact (abscissa_eq_iff.1 h).eq_of_lt_of_lt (i.toNat_lt.trans large) (j.toNat_lt.trans large)

theorem abscissa_ne_zero (large : 2 ^ 32 < S.order.value) (i : Position) : S.abscissa i ≠ 0 := by
  intro h
  have vanishes : (i.toNat + 1) % S.order.value = 0 := congrArg Residue.val h
  have below : i.toNat + 1 < S.order.value := (Nat.succ_le_of_lt i.toNat_lt).trans_lt large
  rw [Nat.mod_eq_of_lt below] at vanishes
  exact Nat.succ_ne_zero _ vanishes

def coincident (positions : List Position) : Option Position :=
  positions.find? fun i => ∃ j ∈ positions, j ≠ i ∧ j.toNat ≡ i.toNat [MOD S.order.value]

theorem coincident_eq_none (large : 2 ^ 32 < S.order.value) (positions : List Position) :
    S.coincident positions = none := by
  rw [coincident, List.find?_eq_none]
  intro i _ h
  obtain ⟨j, _, apart, same⟩ := of_decide_eq_true h
  exact apart (S.abscissa_injective large (S.abscissa_eq_iff.2 same))

theorem abscissas_nodup_of_coincident {positions : List Position} (nodup : positions.Nodup)
    (h : S.coincident positions = none) : (positions.map S.abscissa).Nodup := by
  rw [coincident, List.find?_eq_none] at h
  rw [List.nodup_map_iff_inj_on nodup]
  intro i hi j hj same
  by_contra apart
  exact h j hj (decide_eq_true ⟨i, hi, apart, S.abscissa_eq_iff.1 same⟩)

noncomputable def polynomial (coefficients : List S.Scalar) : Polynomial S.Scalar :=
  coefficients.foldr (fun a f => C a + X * f) 0

@[simp] theorem eval_polynomial (coefficients : List S.Scalar) (x : S.Scalar) :
    (S.polynomial coefficients).eval x = S.evaluate coefficients x := by
  induction coefficients with
  | nil => exact Polynomial.eval_zero
  | cons a rest ih =>
    change (C a + X * S.polynomial rest).eval x = a + x * S.evaluate rest x
    rw [Polynomial.eval_add, Polynomial.eval_C, Polynomial.eval_mul, Polynomial.eval_X, ih]

theorem evaluate_zero (coefficients : List S.Scalar) :
    S.evaluate coefficients 0 = coefficients.headD 0 := by
  cases coefficients with
  | nil => rfl
  | cons a rest =>
    change a + 0 * S.evaluate rest 0 = a
    rw [zero_mul, add_zero]

theorem coeff_polynomial (coefficients : List S.Scalar) (k : Nat) :
    (S.polynomial coefficients).coeff k = coefficients.getD k 0 := by
  induction coefficients generalizing k with
  | nil => exact Polynomial.coeff_zero k
  | cons a rest ih =>
    change (C a + X * S.polynomial rest).coeff k = _
    cases k with
    | zero =>
      rw [Polynomial.coeff_add, Polynomial.coeff_C_zero, Polynomial.coeff_X_mul_zero, add_zero,
        List.getD_cons_zero]
    | succ k =>
      rw [Polynomial.coeff_add, Polynomial.coeff_C_succ, Polynomial.coeff_X_mul, zero_add, ih,
        List.getD_cons_succ]

theorem degree_polynomial_lt (coefficients : List S.Scalar) :
    (S.polynomial coefficients).degree < coefficients.length := by
  rw [Polynomial.degree_lt_iff_coeff_zero]
  intro k hk
  rw [coeff_polynomial, List.getD_eq_getElem?_getD, List.getElem?_eq_none hk, Option.getD_none]

theorem evaluate_eq_sum (coefficients : List S.Scalar) (x : S.Scalar) :
    S.evaluate coefficients x = (coefficients.zipIdx.map fun e => e.1 * x ^ e.2).sum := by
  induction coefficients with
  | nil => rfl
  | cons a rest ih =>
    have shifted : ((rest.zipIdx 1).map fun e => e.1 * x ^ e.2).sum =
        x * (rest.zipIdx.map fun e => e.1 * x ^ e.2).sum := by
      rw [List.zipIdx_succ, List.map_map, ← List.sum_map_mul_left]
      congr 1
      apply List.map_congr_left
      intro e _
      change e.1 * x ^ (e.2 + 1) = x * (e.1 * x ^ e.2)
      rw [pow_succ', mul_left_comm]
    change a + x * S.evaluate rest x = _
    rw [ih, ← shifted, List.zipIdx_cons, List.map_cons, List.sum_cons, pow_zero, mul_one]

theorem product_eq_prod (factors : List S.Scalar) : S.product factors = factors.prod := rfl

variable {S}

theorem prod_others {all : List Position} (distinct : all.Nodup) (i : Position)
    (f : Position → S.Scalar) :
    ((all.filter (· != i)).map f).prod = ∏ j ∈ all.toFinset.erase i, f j := by
  rw [← List.prod_toFinset f (distinct.filter _)]
  congr 1
  ext j
  simp [and_comm]

variable [Fact S.order.value.Prime]

theorem lagrange_eq (i : Position) (all : List Position) :
    S.lagrange i all =
      if ∃ j ∈ all, j ≠ i ∧ S.abscissa j = S.abscissa i then .error (.repeatedPosition i)
      else .ok ((((all.filter (· != i)).map S.abscissa).prod) *
        ((all.filter (· != i)).map fun j => S.abscissa j - S.abscissa i).prod⁻¹) := by
  have vanishes : ((all.filter (· != i)).map fun j => S.abscissa j - S.abscissa i).prod = 0 ↔
      ∃ j ∈ all, j ≠ i ∧ S.abscissa j = S.abscissa i := by
    rw [List.prod_eq_zero_iff, List.mem_map]
    simp [sub_eq_zero, and_assoc]
  have differences : ((all.filter (· != i)).map S.abscissa).map (· - S.abscissa i) =
      (all.filter (· != i)).map fun j => S.abscissa j - S.abscissa i := by
    rw [List.map_map]
    rfl
  simp only [lagrange, differences, product_eq_prod, Residue.inv?_eq, vanishes]
  by_cases h : ∃ j ∈ all, j ≠ i ∧ S.abscissa j = S.abscissa i
  · rw [if_pos h, if_pos h]
  · rw [if_neg h, if_neg h]

theorem lagrange_eq_basis {all : List Position} (distinct : (all.map S.abscissa).Nodup)
    {i : Position} (hi : i ∈ all) :
    S.lagrange i all = .ok ((Lagrange.basis all.toFinset S.abscissa i).eval 0) := by
  have apart : ¬∃ j ∈ all, j ≠ i ∧ S.abscissa j = S.abscissa i := fun ⟨j, hj, hne, h⟩ =>
    hne (List.inj_on_of_nodup_map distinct hj hi h)
  have nodup : all.Nodup := distinct.of_map _
  rw [lagrange_eq, if_neg apart, prod_others nodup, prod_others nodup, Lagrange.basis,
    Polynomial.eval_prod, ← Finset.prod_inv_distrib, ← Finset.prod_mul_distrib]
  congr 1
  apply Finset.prod_congr rfl
  intro j _
  rw [Lagrange.basisDivisor, Polynomial.eval_mul, Polynomial.eval_C, Polynomial.eval_sub,
    Polynomial.eval_X, Polynomial.eval_C, zero_sub, ← neg_sub (S.abscissa i), inv_neg]
  ring

theorem sum_basis_mul_eval {all : List Position} {f : Polynomial S.Scalar}
    (distinct : (all.map S.abscissa).Nodup) (low : f.degree < all.length) :
    (all.map fun i =>
      (Lagrange.basis all.toFinset S.abscissa i).eval 0 * f.eval (S.abscissa i)).sum = f.eval 0 := by
  have nodup : all.Nodup := distinct.of_map _
  have card : f.degree < all.toFinset.card := by
    rwa [List.toFinset_card_of_nodup nodup]
  have inj : Set.InjOn S.abscissa all.toFinset := by
    intro i hi j hj
    exact List.inj_on_of_nodup_map distinct (List.mem_toFinset.1 hi) (List.mem_toFinset.1 hj)
  conv_rhs => rw [Lagrange.eq_interpolate inj card, Lagrange.interpolate_apply,
    Polynomial.eval_finsetSum]
  rw [← List.sum_toFinset _ nodup]
  apply Finset.sum_congr rfl
  intro i _
  rw [Polynomial.eval_mul, Polynomial.eval_C, mul_comm]

theorem interpolate_eq_ok {points : List (Position × S.Scalar)} {f : Polynomial S.Scalar}
    (distinct : (points.map fun p => S.abscissa p.1).Nodup) (low : f.degree < points.length)
    (through : ∀ p ∈ points, p.2 = f.eval (S.abscissa p.1)) :
    S.interpolate points = .ok (f.eval 0) := by
  let all := points.map (·.1)
  have distinct : (all.map S.abscissa).Nodup := by
    rw [List.map_map]
    exact distinct
  let term i := (Lagrange.basis all.toFinset S.abscissa i).eval 0 * f.eval (S.abscissa i)
  have terms : points.mapM (fun p => return (← S.lagrange p.1 all) * p.2) =
      (.ok (points.map fun p => term p.1) : Except Error _) := by
    apply mapM_eq_ok_map
    intro p hp
    rw [lagrange_eq_basis distinct (List.mem_map_of_mem hp), through p hp]
    rfl
  have total : (points.map fun p => term p.1).sum = f.eval 0 := by
    rw [← sum_basis_mul_eval distinct (by rwa [List.length_map]), List.map_map]
    rfl
  rw [interpolate, terms]
  change Except.ok _ = _
  rw [← List.sum_eq_foldl, total]

theorem exists_interpolate_eq (points : List (Position × S.Scalar)) :
    ∃ y, S.interpolate points =
      settle [(S.coincident (points.map (·.1))).map .repeatedPosition] y := by
  let all := points.map (·.1)
  have weight (i : Position) : ∃ w, S.lagrange i all =
      settle [refuseIf (∃ j ∈ all, j ≠ i ∧ j.toNat ≡ i.toNat [MOD S.order.value])
        (.repeatedPosition i)] w := by
    rw [lagrange_eq]
    simp only [abscissa_eq_iff]
    exact ⟨_, ite_error_eq_settle fun _ => rfl⟩
  choose w hw using weight
  -- each weight is refused on its own, so the first refusal is for the first coincidence
  have terms : points.mapM (fun p => return (← S.lagrange p.1 all) * p.2) =
      settle [(S.coincident all).map .repeatedPosition] (points.map fun p => w p.1 * p.2) := by
    have term (p : Position × S.Scalar) : (do return (← S.lagrange p.1 all) * p.2) =
        settle [refuseIf (∃ j ∈ all, j ≠ p.1 ∧ j.toNat ≡ p.1.toNat [MOD S.order.value])
          (.repeatedPosition p.1)] (w p.1 * p.2) := by
      rw [hw]
      exact settle_cons_bind fun _ => rfl
    rw [funext term, mapM_settle, findSome?_refuseIf, coincident, List.find?_map, Option.map_map]
    rfl
  refine ⟨(points.map fun p => w p.1 * p.2).foldl (· + ·) 0, ?_⟩
  rw [interpolate, terms]
  exact settle_cons_bind fun _ => rfl

theorem interpolate_eq {points : List (Position × S.Scalar)} {f : Polynomial S.Scalar}
    (nodup : (points.map (·.1)).Nodup) (low : f.degree < points.length)
    (through : ∀ p ∈ points, p.2 = f.eval (S.abscissa p.1)) :
    S.interpolate points =
      settle [(S.coincident (points.map (·.1))).map .repeatedPosition] (f.eval 0) := by
  cases h : S.coincident (points.map (·.1)) with
  | none =>
    have distinct := S.abscissas_nodup_of_coincident nodup h
    rw [List.map_map] at distinct
    exact interpolate_eq_ok distinct low through
  | some i =>
    obtain ⟨y, hy⟩ := exists_interpolate_eq points
    rw [hy, h]
    rfl

end JointSchnorr.Suite
