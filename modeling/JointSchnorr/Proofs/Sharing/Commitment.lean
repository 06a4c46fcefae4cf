import Mathlib.Data.List.Forall2
import JointSchnorr.Proofs.Group.Lawful
import JointSchnorr.Proofs.Refusal
import JointSchnorr.Proofs.Sharing.Polynomial
import JointSchnorr.Sharing.Dealing

/-!
Arbitrary points commit to the polynomial of their discrete logarithms, and points computed from
commitments are multiples of the generator by its values.
-/

open Polynomial (C X)

namespace JointSchnorr

variable {S : Suite}

namespace Suite

instance [S.Lawful] : Fact S.order.value.Prime := ⟨CyclicGroup.Lawful.prime⟩

@[simp] theorem evaluate_map_log [S.Lawful] (points : List S.Point) (x : S.Scalar) :
    S.evaluate (points.map S.log) x = S.log (S.evaluateHidden points x) := by
  induction points with
  | nil => exact CyclicGroup.log_zero.symm
  | cons A points ih =>
    change S.log A + x * S.evaluate (points.map S.log) x = S.log (A + x • S.evaluateHidden points x)
    rw [ih, CyclicGroup.log_add, CyclicGroup.log_smul]

end Suite

namespace Commitment

theorem checkDegree_eq_ok_iff {c : Commitment S} {q : Quorum} :
    c.checkDegree q = .ok () ↔ c.length = q.threshold.toNat := by
  rw [checkDegree, else_error_eq_ok_iff]
  exact and_iff_left rfl

def wrongDegree (q : Quorum) (c : Commitment S) : Option Error :=
  refuseIf (c.length ≠ q.threshold.toNat) (.commitmentLength q.threshold.toNat c.length)

theorem checkDegree_eq (c : Commitment S) (q : Quorum) :
    c.checkDegree q = settle [wrongDegree q c] () := by
  rw [checkDegree, ← ite_not]
  exact ite_error_eq_settle fun _ => rfl

theorem checkDegree_plain (c : Commitment S) (q : Quorum) :
    FailsOnly Error.Plain (c.checkDegree q) := .ite (.ok ()) (.error trivial)

def jointConstant (cs : List (Commitment S)) : S.Point := S.sum (cs.filterMap (constant? ·))

theorem jointConstant_eq_sum {cs : List (Commitment S)} {points : List S.Point}
    (h : cs.Forall₂ (fun c P => c.constant? = some P) points) :
    jointConstant cs = S.sum points := by
  rw [jointConstant]
  congr 1
  induction h with
  | nil => rfl
  | cons head _ ih => rw [List.filterMap_cons_some head, ih]

def valueAt (c : Commitment S) (x : S.Scalar) : S.Point :=
  S.sum (c.zipIdx.map fun e => x ^ e.2 • e.1)

variable [S.Lawful]

theorem log_valueAt (c : Commitment S) (x : S.Scalar) :
    S.log (c.valueAt x) = (c.zipIdx.map fun e => x ^ e.2 * S.log e.1).sum := by
  rw [valueAt, CyclicGroup.log_sum, List.map_map]
  congr 1
  exact List.map_congr_left fun e _ => CyclicGroup.log_smul _ _

theorem evaluateHidden_eq_valueAt (c : Commitment S) (x : S.Scalar) :
    S.evaluateHidden c x = c.valueAt x := by
  rw [CyclicGroup.eq_iff_log_eq, log_valueAt, ← Suite.evaluate_map_log, Suite.evaluate_eq_sum,
    List.zipIdx_map, List.map_map]
  congr 1
  exact List.map_congr_left fun e _ => mul_comm _ _

noncomputable def polynomial (c : Commitment S) : Polynomial S.Scalar := S.polynomial (c.map S.log)

theorem eval_polynomial (c : Commitment S) (x : S.Scalar) :
    (polynomial c).eval x = S.log (S.evaluateHidden c x) := by
  rw [polynomial, Suite.eval_polynomial, Suite.evaluate_map_log]

theorem eval_polynomial_zero (c : Commitment S) :
    (polynomial c).eval 0 = (c.map S.log).headD 0 := by
  rw [polynomial, Suite.eval_polynomial, Suite.evaluate_zero]

theorem map_log_map_power (coefficients : List S.Scalar) :
    (coefficients.map S.power).map S.log = coefficients := by
  rw [List.map_map]
  exact (List.map_congr_left fun a _ => CyclicGroup.log_power a).trans (List.map_id coefficients)

theorem polynomial_map_power (coefficients : List S.Scalar) :
    polynomial (coefficients.map S.power) = S.polynomial coefficients := by
  rw [polynomial, map_log_map_power]

theorem evaluateHidden_map_power (coefficients : List S.Scalar) (x : S.Scalar) :
    S.evaluateHidden (coefficients.map S.power) x = S.power (S.evaluate coefficients x) := by
  rw [CyclicGroup.eq_iff_log_eq, ← Suite.evaluate_map_log, map_log_map_power, CyclicGroup.log_power]

noncomputable def jointPolynomial (cs : List (Commitment S)) : Polynomial S.Scalar :=
  (cs.map polynomial).sum

theorem eval_jointPolynomial (cs : List (Commitment S)) (x : S.Scalar) :
    (jointPolynomial cs).eval x = (cs.map fun c => (polynomial c).eval x).sum := by
  rw [jointPolynomial, Polynomial.eval_listSum, List.map_map]
  rfl

theorem jointPolynomial_perm {cs others : List (Commitment S)} (h : cs.Perm others) :
    jointPolynomial cs = jointPolynomial others := (h.map polynomial).sum_eq

theorem degree_jointPolynomial_lt {cs : List (Commitment S)} {t : Nat}
    (h : ∀ c ∈ cs, c.length = t) : (jointPolynomial cs).degree < t := by
  rw [← Polynomial.mem_degreeLT]
  apply list_sum_mem
  intro f hf
  obtain ⟨c, hc, rfl⟩ := List.mem_map.1 hf
  rw [Polynomial.mem_degreeLT, ← h c hc, ← List.length_map S.log]
  exact S.degree_polynomial_lt (c.map S.log)

theorem log_jointValue (i : Position) (cs : List (Commitment S)) :
    S.log (jointValue i cs) = (jointPolynomial cs).eval (S.abscissa i) := by
  rw [jointValue, CyclicGroup.log_sum, List.map_map, eval_jointPolynomial]
  congr 1
  exact List.map_congr_left fun c _ => (eval_polynomial c _).symm

theorem jointConstant_perm {cs others : List (Commitment S)} (h : cs.Perm others) :
    jointConstant cs = jointConstant others := CyclicGroup.sum_perm (h.filterMap _)

theorem log_jointConstant (cs : List (Commitment S)) :
    S.log (jointConstant cs) = (jointPolynomial cs).eval 0 := by
  rw [jointConstant, CyclicGroup.log_sum, eval_jointPolynomial]
  induction cs with
  | nil => rfl
  | cons c cs ih =>
    rw [List.map_cons, List.sum_cons, ← ih, eval_polynomial_zero]
    cases c with
    | nil =>
      rw [List.filterMap_cons_none (show constant? ([] : Commitment S) = none from rfl)]
      exact (zero_add _).symm
    | cons A c =>
      rw [List.filterMap_cons_some (show constant? (A :: c : Commitment S) = some A from rfl)]
      rfl

end Commitment

namespace DealtShare

variable [S.Lawful]

theorem matchesCommitment_iff {s : DealtShare S} {c : Commitment S} :
    s.matchesCommitment c = true ↔
      s.value = (Commitment.polynomial c).eval (S.abscissa s.receiver) := by
  rw [matchesCommitment, beq_iff_eq, CyclicGroup.eq_iff_log_eq, CyclicGroup.log_power,
    Commitment.eval_polynomial]

theorem matchesCommitment_map_power_iff {coefficients : List S.Scalar} {s : DealtShare S} :
    s.matchesCommitment (coefficients.map S.power) = true ↔
      s.value = S.evaluate coefficients (S.abscissa s.receiver) := by
  rw [matchesCommitment_iff, Commitment.polynomial_map_power, Suite.eval_polynomial]

end DealtShare

end JointSchnorr
