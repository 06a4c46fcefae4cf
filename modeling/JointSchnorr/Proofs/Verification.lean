import JointSchnorr.Proofs.Group.Residues
import JointSchnorr.Proofs.Signature
import JointSchnorr.Proofs.Transcript

namespace JointSchnorr

variable {S : Suite}

namespace Signature

variable [S.Lawful] {scheme : Scheme} {R P : S.Point} {s : S.Scalar} {m : Bytes} {e : S.Scalar}

noncomputable def responseTo (R P : S.Point) (e : S.Scalar) : S.Scalar := S.log R + e * S.log P

theorem power_eq_iff : S.power s = R + e • P ↔ s = responseTo R P e := by
  rw [CyclicGroup.eq_iff_log_eq, CyclicGroup.log_power, CyclicGroup.log_add, CyclicGroup.log_smul,
    responseTo]

theorem responseTo_injective (hP : P ≠ 0) : Function.Injective (responseTo (S := S) R P) := by
  intro e e' h
  have nonzero : S.log P ≠ 0 := by
    rw [← CyclicGroup.log_zero]
    exact CyclicGroup.log_injective.ne hP
  exact mul_right_cancel₀ nonzero (add_left_cancel h)

theorem verify_eq_responseTo (challenge : S.challenge scheme R P m = .ok e) :
    (⟨R, s⟩ : Signature S).verify scheme P m =
      if s = responseTo R P e then .ok () else .error .badSignature := by
  rw [verify_eq challenge]
  simp only [power_eq_iff]

end Signature

inductive Verifier
  | under (scheme : Scheme)
  | joint (weighted : Bool)
  | threshold

namespace Verifier

def scheme : Verifier → Scheme
  | under scheme => scheme
  | joint true => .aggregate
  | joint false => .single
  | threshold => .threshold

def check : Verifier → Signature S → S.Point → Bytes → Except Error Unit
  | under scheme, g, P, m => g.verify scheme P m
  | joint weighted, g, P, m => g.verifyJoint P m weighted
  | threshold, g, P, m => g.verifyThreshold P m

theorem check_eq_verify (v : Verifier) (g : Signature S) (P : S.Point) (m : Bytes) :
    v.check g P m = g.verify v.scheme P m := by
  cases v with
  | under => rfl
  | joint weighted => cases weighted <;> rfl
  | threshold => rfl

variable [S.Lawful]

/-- One response passes.  It goes on passing under any scheme and for any message that give the same
challenge, and under no others. -/
theorem check_exact {R P : S.Point} {r p : Bytes} (hR : S.encode R = .ok r)
    (hP : S.encode P = .ok p) (nonzero : P ≠ 0) (v : Verifier) (m : Bytes) :
    (∃ s, ∀ s', v.check ⟨R, s'⟩ P m = if s' = s then .ok () else .error .badSignature) ∧
    ∀ s, v.check ⟨R, s⟩ P m = .ok () → ∀ (v' : Verifier) (m' : Bytes),
      v'.check ⟨R, s⟩ P m' =
        if S.toScalar (.challenge v'.scheme) (r ++ p ++ m') =
          S.toScalar (.challenge v.scheme) (r ++ p ++ m) then .ok ()
        else .error .badSignature := by
  have checked (v : Verifier) (m : Bytes) (s : S.Scalar) : v.check ⟨R, s⟩ P m =
      if s = Signature.responseTo R P (S.toScalar (.challenge v.scheme) (r ++ p ++ m)) then .ok ()
      else .error .badSignature := by
    rw [check_eq_verify, Signature.verify_eq_responseTo (Suite.challenge_eq hR hP _ _)]
  refine ⟨⟨_, checked v m⟩, ?_⟩
  intro s passes v' m'
  obtain ⟨rfl, _⟩ := else_error_eq_ok_iff.1 ((checked v m s).symm.trans passes)
  rw [checked v' m']
  simp only [(Signature.responseTo_injective nonzero).eq_iff, eq_comm]

theorem check_exact_of_single :
    let G := Suite.seven.power
    ∃ s, (under .single).check ⟨G 2, s⟩ (G 3) [0] = .ok () ∧
      threshold.check ⟨G 2, s⟩ (G 3) [0, 0] =
        if Suite.seven.toScalar (.challenge .threshold) [2, 3, 0, 0] =
          Suite.seven.toScalar (.challenge .single) [2, 3, 0] then .ok ()
        else .error .badSignature := by
  intro G
  have nonzero : G 3 ≠ 0 := by decide
  obtain ⟨⟨s, passes⟩, sensitive⟩ :=
    check_exact (R := G 2) (P := G 3) (r := [2]) (p := [3]) rfl rfl nonzero (under .single) [0]
  have own := (passes s).trans (if_pos rfl)
  exact ⟨s, own, sensitive s own threshold [0, 0]⟩

end Verifier

end JointSchnorr
