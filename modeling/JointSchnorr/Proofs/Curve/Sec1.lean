import JointSchnorr.Curve.Sec1
import JointSchnorr.Proofs.Residue.Encoding
import JointSchnorr.Proofs.Residue.Ring

namespace JointSchnorr.Curve.Sec1

variable {C : Curve} {P Q : C.Point} {b : Bytes}

theorem encode_of_xy {x y : Residue C.p} (h : P.val = .xy x y) :
    encode P = .ok ((if isOdd y then oddLead else evenLead) :: x.encode) := by
  rw [encode, h]

theorem exists_encode (h : P ≠ C.zero) : ∃ b, encode P = .ok b := by
  cases coordinates : P.val with
  | infinity => exact absurd (Subtype.ext coordinates) h
  | xy x y => exact ⟨_, encode_of_xy coordinates⟩

theorem eq_of_encode (h : encode P = .ok b) :
    ∃ x y, P.val = .xy x y ∧ b = (if isOdd y then oddLead else evenLead) :: x.encode := by
  cases coordinates : P.val with
  | infinity =>
    rw [encode, coordinates] at h
    cases h
  | xy x y =>
    rw [encode_of_xy coordinates] at h
    cases h
    exact ⟨x, y, rfl, rfl⟩

theorem length_of_encode (h : encode P = .ok b) : b.length = C.width + 1 := by
  obtain ⟨x, y, _, rfl⟩ := eq_of_encode h
  rw [List.length_cons, Residue.length_encode, width]

theorem encodeFull_of_xy {x y : Residue C.p} (h : P.val = .xy x y) :
    encodeFull P = .ok (fullLead :: (x.encode ++ y.encode)) := by
  rw [encodeFull, h]

theorem exists_encodeFull (h : P ≠ C.zero) : ∃ b, encodeFull P = .ok b := by
  cases coordinates : P.val with
  | infinity => exact absurd (Subtype.ext coordinates) h
  | xy x y => exact ⟨_, encodeFull_of_xy coordinates⟩

theorem eq_of_encodeFull (h : encodeFull P = .ok b) :
    ∃ x y, P.val = .xy x y ∧ b = fullLead :: (x.encode ++ y.encode) := by
  cases coordinates : P.val with
  | infinity =>
    rw [encodeFull, coordinates] at h
    cases h
  | xy x y =>
    rw [encodeFull_of_xy coordinates] at h
    cases h
    exact ⟨x, y, rfl, rfl⟩

theorem length_of_encodeFull (h : encodeFull P = .ok b) : b.length = 2 * C.width + 1 := by
  obtain ⟨x, y, _, rfl⟩ := eq_of_encodeFull h
  rw [List.length_cons, List.length_append, Residue.length_encode, Residue.length_encode, width,
    Nat.two_mul]

theorem width_pos (C : Curve) : 0 < C.width := by
  rw [width, Modulus.bytes, Modulus.bits]
  omega

theorem lead_injective {odd odd' : Bool}
    (h : (if odd then oddLead else evenLead) = if odd' then oddLead else evenLead) :
    odd = odd' := by
  revert odd odd'
  decide

theorem isOdd_neg (odd : C.p.value % 2 = 1) {y : Residue C.p} (hy : y ≠ 0) :
    isOdd (-y) = !isOdd y := by
  have pos : 0 < y.val := Residue.val_pos_iff.2 hy
  have neg : (-y).val = C.p.value - y.val := by
    rw [Residue.val_neg, Nat.mod_eq_of_lt (Nat.sub_lt C.p.value_pos pos)]
  have lt := y.val_lt
  rw [isOdd, isOdd, neg, Bool.eq_iff_iff, Bool.not_eq_true', beq_iff_eq, beq_eq_false_iff_ne]
  omega

theorem encode_injective [Fact C.p.value.Prime] (odd : C.p.value % 2 = 1)
    (hP : encode P = .ok b) (hQ : encode Q = .ok b) : P = Q := by
  obtain ⟨x, y, hxy, rfl⟩ := eq_of_encode hP
  obtain ⟨x', y', hxy', same⟩ := eq_of_encode hQ
  obtain ⟨lead, body⟩ := List.cons.inj same
  obtain rfl := Residue.encode_injective body
  have parity := lead_injective lead
  have squares : y * y = y' * y' := by
    have onCurve := P.property
    have onCurve' := Q.property
    rw [hxy] at onCurve
    rw [hxy'] at onCurve'
    exact onCurve.1.trans onCurve'.1.symm
  have second : y = y' := by
    cases mul_self_eq_mul_self_iff.1 squares with
    | inl h => exact h
    | inr h =>
      by_cases zero : y' = 0
      · rw [h, zero, neg_zero]
      · rw [h, isOdd_neg odd zero] at parity
        exact absurd parity (Bool.not_ne_self _)
  apply Subtype.ext
  rw [hxy, hxy', second]

end JointSchnorr.Curve.Sec1
