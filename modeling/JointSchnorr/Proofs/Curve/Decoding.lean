import JointSchnorr.Proofs.Curve.Sec1
import JointSchnorr.Proofs.Curve.Subgroup

/-!
The parity of the second coordinate tells a point from its negative, whichever of the two roots is
found, since no point of the subgroup is its own negative.
-/

namespace JointSchnorr.Curve.Sec1

variable {C : Curve}

inductive Spells : Bytes → Affine C → Prop
  | even {X : Bytes} {x y : Residue C.p} (length : X.length = C.width) (first : X.value = x.val)
      (parity : y.val % 2 = 0) : Spells (2 :: X) (.xy x y)
  | odd {X : Bytes} {x y : Residue C.p} (length : X.length = C.width) (first : X.value = x.val)
      (parity : y.val % 2 = 1) : Spells (3 :: X) (.xy x y)
  | full {X Y : Bytes} {x y : Residue C.p} (length : X.length = C.width)
      (length' : Y.length = C.width) (first : X.value = x.val) (second : Y.value = y.val) :
      Spells (4 :: (X ++ Y)) (.xy x y)

def bodyFault (C : Curve) (size : Nat) (body : Bytes) : Malformed :=
  if body.length ≠ size then .length (1 + size) (1 + body.length)
  else if C.p.value ≤ Bytes.value (body.take C.width) ∨
    C.p.value ≤ Bytes.value (body.drop C.width) then .unreduced
  else .offCurve

/-- What is wrong with a string that stands for no point.  Of several faults the first counts. -/
def fault (C : Curve) : Bytes → Malformed
  | [] => .length (1 + C.width) 0
  | lead :: body =>
    if lead = 2 ∨ lead = 3 then bodyFault C C.width body
    else if lead = 4 then bodyFault C (2 * C.width) body
    else .leadByte lead

variable {size : Nat} {odd : Bool} {lead : UInt8} {b body : Bytes} {x y r : Residue C.p}
  {Q : Affine C} {P : C.Point} {e : Malformed}

theorem isOdd_eq_true_iff : isOdd y = true ↔ y.val % 2 = 1 := beq_iff_eq

theorem isOdd_eq_false_iff : isOdd y = false ↔ y.val % 2 = 0 := by
  rw [isOdd, beq_eq_false_iff_ne]
  omega

theorem decode_coordinate_eq_ok_iff (length : b.length = C.width) :
    Residue.decode b = .ok x ↔ b.value = x.val :=
  Residue.decode_eq_ok_iff.trans (and_iff_right length)

theorem length_halves (length : body.length = 2 * C.width) :
    (body.take C.width).length = C.width ∧ (body.drop C.width).length = C.width := by
  rw [List.length_take, List.length_drop]
  omega

theorem decodeFull_eq_ok_iff : decodeFull body = .ok Q ↔
    body.length = 2 * C.width ∧ ∃ x y, Bytes.value (body.take C.width) = x.val ∧
      Bytes.value (body.drop C.width) = y.val ∧ Q = .xy x y := by
  rw [decodeFull, else_error_eq_ok_iff, bind_eq_ok_iff]
  refine and_congr_right fun length => exists_congr fun x => ?_
  obtain ⟨first, second⟩ := length_halves length
  rw [decode_coordinate_eq_ok_iff first, bind_eq_ok_iff, exists_and_left]
  refine and_congr_right fun _ => exists_congr fun y => ?_
  rw [decode_coordinate_eq_ok_iff second]
  refine and_congr_right fun _ => ?_
  change Except.ok (Affine.xy x y) = .ok Q ↔ _
  rw [Except.ok.injEq, eq_comm]

theorem decodeAffine_of_lead_ne (even : lead ≠ 2) (odd : lead ≠ 3) (full : lead ≠ 4) :
    (decodeAffine (lead :: body) : Except _ (Affine C)) = .error (.leadByte lead) :=
  (if_neg even).trans ((if_neg odd).trans (if_neg full))

theorem decode_eq_ok_iff_affine : decode b = .ok P ↔ decodeAffine b = .ok P.val := by
  rw [decode, bind_eq_ok_iff]
  constructor
  · rintro ⟨Q, read, h⟩
    split at h
    · rename_i found
      cases h
      rw [read, point?_eq_some_iff.1 found]
    · cases h
  · intro read
    refine ⟨P.val, read, ?_⟩
    rw [point?_val]

theorem spells_of_encode (h : encode P = .ok b) : Spells b P.val := by
  obtain ⟨x, y, coordinates, rfl⟩ := eq_of_encode h
  rw [coordinates]
  cases parity : isOdd y with
  | false =>
    exact .even (Residue.length_encode x) (Residue.value_encode x) (isOdd_eq_false_iff.1 parity)
  | true =>
    exact .odd (Residue.length_encode x) (Residue.value_encode x) (isOdd_eq_true_iff.1 parity)

theorem encode_of_spells (h : Spells (lead :: body) P.val) (compressed : lead = 2 ∨ lead = 3) :
    encode P = .ok (lead :: body) := by
  generalize coordinates : P.val = Q at h
  cases h with
  | even length first parity =>
    rw [encode_of_xy coordinates, isOdd_eq_false_iff.2 parity,
      Residue.encode_of_decode ((decode_coordinate_eq_ok_iff length).2 first)]
    rfl
  | odd length first parity =>
    rw [encode_of_xy coordinates, isOdd_eq_true_iff.2 parity,
      Residue.encode_of_decode ((decode_coordinate_eq_ok_iff length).2 first)]
    rfl
  | full => exact absurd compressed (by decide)

theorem spells_iff_encode : Spells b P.val ↔ encode P = .ok b ∨ encodeFull P = .ok b := by
  constructor
  · intro h
    generalize coordinates : P.val = Q at h
    have spelled := h
    cases h with
    | even => exact .inl (encode_of_spells (coordinates ▸ spelled) (.inl rfl))
    | odd => exact .inl (encode_of_spells (coordinates ▸ spelled) (.inr rfl))
    | full length length' first second =>
      rw [encodeFull_of_xy coordinates,
        Residue.encode_of_decode ((decode_coordinate_eq_ok_iff length).2 first),
        Residue.encode_of_decode ((decode_coordinate_eq_ok_iff length').2 second)]
      exact .inr rfl
  · rintro (h | h)
    · exact spells_of_encode h
    · obtain ⟨x, y, coordinates, rfl⟩ := eq_of_encodeFull h
      rw [coordinates]
      exact .full (Residue.length_encode x) (Residue.length_encode y) (Residue.value_encode x)
        (Residue.value_encode y)

section Fault

theorem bodyFault_of_length_ne (h : body.length ≠ size) :
    bodyFault C size body = .length (1 + size) (1 + body.length) := if_pos h

theorem bodyFault_of_unreduced (length : body.length = size)
    (h : ¬(Bytes.value (body.take C.width) < C.p.value ∧
      Bytes.value (body.drop C.width) < C.p.value)) : bodyFault C size body = .unreduced := by
  rw [bodyFault, if_neg (not_not.2 length), if_pos (by omega)]

theorem bodyFault_of_reduced (length : body.length = size)
    (first : Bytes.value (body.take C.width) < C.p.value)
    (second : Bytes.value (body.drop C.width) < C.p.value) :
    bodyFault C size body = .offCurve := by
  rw [bodyFault, if_neg (not_not.2 length), if_neg (by omega)]

/-- A fault explains why coordinates cannot be read, or why those that are read make no point. -/
def Explains (C : Curve) (f : Malformed) : Except Malformed (Affine C) → Prop
  | .ok _ => f = .offCurve
  | .error e => f = e

theorem decode_coordinate (length : b.length = C.width) :
    (Residue.decode b : Except _ (Residue C.p)) =
      if h : b.value < C.p.value then .ok ⟨b.value, h⟩ else .error .unreduced := if_pos length

theorem explains_lift (odd : Bool) (x : Residue C.p) : Explains C .offCurve (lift odd x) := by
  rw [lift]
  split <;> rfl

theorem explains_decodeCompressed (odd : Bool) (body : Bytes) :
    Explains C (bodyFault C C.width body) (decodeCompressed odd body) := by
  rw [decodeCompressed]
  by_cases length : body.length = C.width
  · have first : body.take C.width = body := List.take_of_length_le length.le
    have second : Bytes.value (body.drop C.width) < C.p.value := by
      rw [List.drop_of_length_le length.le]
      exact C.p.value_pos
    rw [if_pos length, decode_coordinate length]
    by_cases reduced : Bytes.value body < C.p.value
    · rw [dif_pos reduced, bodyFault_of_reduced length (first.symm ▸ reduced) second]
      exact explains_lift odd _
    · rw [dif_neg reduced, bodyFault_of_unreduced length (first.symm ▸ fun h => reduced h.1)]
      rfl
  · rw [if_neg length, bodyFault_of_length_ne length]
    rfl

theorem explains_decodeFull (body : Bytes) :
    Explains C (bodyFault C (2 * C.width) body) (decodeFull body) := by
  rw [decodeFull]
  by_cases length : body.length = 2 * C.width
  · obtain ⟨length₁, length₂⟩ := length_halves length
    rw [if_pos length, decode_coordinate length₁, decode_coordinate length₂]
    by_cases first : Bytes.value (body.take C.width) < C.p.value
    · by_cases second : Bytes.value (body.drop C.width) < C.p.value
      · rw [dif_pos first, dif_pos second, bodyFault_of_reduced length first second]
        rfl
      · rw [dif_pos first, dif_neg second, bodyFault_of_unreduced length fun h => second h.2]
        rfl
    · rw [dif_neg first, bodyFault_of_unreduced length fun h => first h.1]
      rfl
  · rw [if_neg length, bodyFault_of_length_ne length]
    rfl

theorem explains_decodeAffine (b : Bytes) : Explains C (fault C b) (decodeAffine b) := by
  cases b with
  | nil => rfl
  | cons lead body =>
    by_cases even : lead = 2
    · subst even
      exact explains_decodeCompressed false body
    by_cases odd : lead = 3
    · subst odd
      exact explains_decodeCompressed true body
    by_cases full : lead = 4
    · subst full
      exact explains_decodeFull body
    · rw [decodeAffine_of_lead_ne even odd full, fault, if_neg (not_or.2 ⟨even, odd⟩), if_neg full]
      rfl

theorem eq_fault_of_decode (h : (decode b : Except _ C.Point) = .error e) : e = fault C b := by
  have explained := explains_decodeAffine (C := C) b
  cases bind_eq_error_iff.1 h with
  | inl h =>
    rw [h] at explained
    exact explained.symm
  | inr h =>
    obtain ⟨Q, read, h⟩ := h
    rw [read] at explained
    rw [explained]
    split at h <;> cases h
    rfl

end Fault

section Lawful

variable [C.Lawful]

theorem choose_root (roots : r * r = y * y) (parity : isOdd y = odd ∨ y = 0) :
    (if isOdd r = odd then r else -r) = y := by
  by_cases zero : y = 0
  · rw [zero, mul_zero, mul_self_eq_zero] at roots
    rw [zero, roots, neg_zero, ite_self]
  · have parity := parity.resolve_right zero
    cases mul_self_eq_mul_self_iff.1 roots with
    | inl same => rw [same, if_pos parity]
    | inr opposite =>
      rw [opposite, isOdd_neg (Lawful.p_odd C) zero, parity, if_neg (Bool.not_ne_self odd), neg_neg]

theorem lift_eq_ok_iff : lift odd x = .ok Q ↔
    ∃ y, Q = .xy x y ∧ (Affine.xy x y).OnCurve ∧ (isOdd y = odd ∨ y = 0) := by
  constructor
  · intro h
    rw [lift] at h
    split at h
    · cases h
    · rename_i r found
      have onCurve : r * r = C.cubic x := Residue.mul_self_of_sqrt? found
      cases h
      refine ⟨_, rfl, ?_⟩
      split
      · rename_i parity
        exact ⟨onCurve, .inl parity⟩
      · rename_i parity
        refine ⟨(neg_mul_neg r r).trans onCurve, ?_⟩
        by_cases zero : r = 0
        · exact .inr (neg_eq_zero.2 zero)
        · rw [isOdd_neg (Lawful.p_odd C) zero, Bool.eq_not.2 parity, Bool.not_not]
          exact .inl rfl
  · rintro ⟨y, rfl, onCurve, parity⟩
    obtain ⟨r, found⟩ := Residue.exists_sqrt? Lawful.not_square onCurve
    have roots := (Residue.mul_self_of_sqrt? found).trans onCurve.symm
    rw [lift, found]
    change Except.ok (Affine.xy x (if isOdd r = odd then r else -r)) = _
    rw [choose_root roots parity]

theorem decodeCompressed_eq_ok_iff : decodeCompressed odd body = .ok Q ↔
    body.length = C.width ∧ ∃ x y, Bytes.value body = x.val ∧ Q = .xy x y ∧
      (Affine.xy x y).OnCurve ∧ (isOdd y = odd ∨ y = 0) := by
  rw [decodeCompressed, else_error_eq_ok_iff, bind_eq_ok_iff]
  refine and_congr_right fun length => exists_congr fun x => ?_
  rw [decode_coordinate_eq_ok_iff length, lift_eq_ok_iff, exists_and_left]

theorem decodeAffine_of_spells (h : Spells b Q) (onCurve : Q.OnCurve) :
    decodeAffine b = .ok Q := by
  cases h with
  | even length first parity =>
    exact decodeCompressed_eq_ok_iff.2
      ⟨length, _, _, first, rfl, onCurve, .inl (isOdd_eq_false_iff.2 parity)⟩
  | odd length first parity =>
    exact decodeCompressed_eq_ok_iff.2
      ⟨length, _, _, first, rfl, onCurve, .inl (isOdd_eq_true_iff.2 parity)⟩
  | full length length' first second =>
    refine decodeFull_eq_ok_iff.2 ⟨?_, _, _, ?_, ?_, rfl⟩
    · rw [List.length_append, length, length', Nat.two_mul]
    · rw [List.take_left' length, first]
    · rw [List.drop_left' length, second]

theorem spells_of_decodeAffine (h : decodeAffine b = .ok Q) (member : Q.InSubgroup) :
    Spells b Q := by
  cases b with
  | nil => cases h
  | cons lead body =>
    have compressed (odd : Bool) (h : decodeCompressed odd body = .ok Q) : body.length = C.width ∧
        ∃ x y, Bytes.value body = x.val ∧ Q = .xy x y ∧ isOdd y = odd := by
      obtain ⟨length, x, y, first, rfl, _, parity⟩ := decodeCompressed_eq_ok_iff.1 h
      refine ⟨length, x, y, first, rfl, parity.resolve_right ?_⟩
      rintro rfl
      exact Lawful.second_ne_zero x member
    by_cases even : lead = 2
    · subst even
      obtain ⟨length, x, y, first, rfl, parity⟩ := compressed false h
      exact .even length first (isOdd_eq_false_iff.1 parity)
    by_cases odd : lead = 3
    · subst odd
      obtain ⟨length, x, y, first, rfl, parity⟩ := compressed true h
      exact .odd length first (isOdd_eq_true_iff.1 parity)
    by_cases full : lead = 4
    · subst full
      obtain ⟨length, x, y, first, second, rfl⟩ := decodeFull_eq_ok_iff.1 h
      obtain ⟨length, length'⟩ := length_halves length
      rw [← List.take_append_drop C.width body]
      exact .full length length' first second
    · rw [decodeAffine_of_lead_ne even odd full] at h
      cases h

theorem decode_eq_ok_iff : decode b = .ok P ↔ Spells b P.val := by
  rw [decode_eq_ok_iff_affine]
  exact ⟨fun h => spells_of_decodeAffine h P.property,
    fun h => decodeAffine_of_spells h (onCurve_val P)⟩

theorem decode_eq_ok_iff_encode : decode b = .ok P ↔ encode P = .ok b ∨ encodeFull P = .ok b :=
  decode_eq_ok_iff.trans spells_iff_encode

theorem length_of_decode (h : decode b = .ok P) :
    b.length = C.width + 1 ∨ b.length = 2 * C.width + 1 :=
  (decode_eq_ok_iff_encode.1 h).imp length_of_encode length_of_encodeFull

theorem encode_eq_ok_iff_decode :
    encode P = .ok b ↔ b.length = C.width + 1 ∧ decode b = .ok P := by
  constructor
  · intro h
    exact ⟨length_of_encode h, decode_eq_ok_iff_encode.2 (.inl h)⟩
  · rintro ⟨length, read⟩
    refine (decode_eq_ok_iff_encode.1 read).resolve_right fun full => ?_
    have longer := length_of_encodeFull full
    have pos := width_pos C
    omega

theorem encodeFull_eq_ok_iff_decode :
    encodeFull P = .ok b ↔ b.length = 2 * C.width + 1 ∧ decode b = .ok P := by
  constructor
  · intro h
    exact ⟨length_of_encodeFull h, decode_eq_ok_iff_encode.2 (.inr h)⟩
  · rintro ⟨length, read⟩
    refine (decode_eq_ok_iff_encode.1 read).resolve_left fun compressed => ?_
    have shorter := length_of_encode compressed
    have pos := width_pos C
    omega

theorem existsUnique_decode_of_ne_zero (h : P ≠ C.zero) :
    (∃! b, b.length = C.width + 1 ∧ decode b = .ok P) ∧
      ∃! b, b.length = 2 * C.width + 1 ∧ decode b = .ok P := by
  simp only [← encode_eq_ok_iff_decode, ← encodeFull_eq_ok_iff_decode]
  obtain ⟨b, compressed⟩ := exists_encode h
  obtain ⟨b', full⟩ := exists_encodeFull h
  rw [compressed, full]
  simp only [Except.ok.injEq]
  exact ⟨existsUnique_eq', existsUnique_eq'⟩

end Lawful

/-- The strings that are read, and the one that is written, for curves whose subgroup test is
right. -/
theorem decode_exact (prime : C.p.value.Prime) (not_square : ∀ r, r * r ≠ C.nonSquare)
    (order_odd : C.order.value % 2 = 1)
    (test_exact : ∀ Q : Affine C, Q.InSubgroup ↔ Q.Annihilated) :
    (∀ b (Q : Affine C),
      (∃ P, decode b = .ok P ∧ P.val = Q) ↔ Spells b Q ∧ Q.Annihilated) ∧
    (∀ b, decode b ≠ .ok C.zero) ∧
    (∀ P, P ≠ C.zero → ∃ b, encode P = .ok b ∧ decode b = .ok P) ∧
    (∀ lead body (P : C.Point), lead = 2 ∨ lead = 3 → decode (lead :: body) = .ok P →
      encode P = .ok (lead :: body)) ∧
    encode C.zero = .error .identity ∧
    ∀ b e, (decode b : Except _ C.Point) = .error e → e = fault C b := by
  have : C.Lawful := ⟨prime, not_square, fun x member =>
    Affine.not_annihilated_xy_zero order_odd x ((test_exact _).1 member)⟩
  refine ⟨fun b Q => ?accepted, fun b read => ?proper, fun P nonzero => ?written,
    fun lead body P compressed read => ?canonical, rfl, fun b e => eq_fault_of_decode⟩
  case accepted =>
    constructor
    · rintro ⟨P, read, rfl⟩
      exact ⟨decode_eq_ok_iff.1 read, (test_exact _).1 P.property⟩
    · rintro ⟨spelled, member⟩
      exact ⟨⟨Q, (test_exact Q).2 member⟩, decode_eq_ok_iff.2 spelled, rfl⟩
  case proper =>
    cases decode_eq_ok_iff.1 read
  case written =>
    obtain ⟨b, encoded⟩ := exists_encode nonzero
    exact ⟨b, encoded, decode_eq_ok_iff.2 (spells_of_encode encoded)⟩
  case canonical => exact encode_of_spells (decode_eq_ok_iff.1 read) compressed

theorem decode_exact_of_ten :
    Nat.Prime 7 ∧ (∀ r, r * r ≠ ten.nonSquare) ∧
      (∀ Q : Affine ten, Q.InSubgroup ↔ Q.Annihilated) ∧
      (∃ P, decode [3, 2] = .ok P ∧ P.val = (.xy 2 3 : Affine ten)) ∧
      (Affine.xy 1 0 : Affine ten).OnCurve ∧
      (decode [3, 1] : Except _ ten.Point) = .error .offCurve ∧ fault ten [3, 1] = .offCurve := by
  have prime : Nat.Prime 7 := by decide
  have not_square : ∀ r, r * r ≠ ten.nonSquare := by
    have all : ∀ r : Fin 7, (⟨r, r.isLt⟩ * ⟨r, r.isLt⟩ : Residue ten.p) ≠ ten.nonSquare := by decide
    exact fun r => all ⟨r.val, r.val_lt⟩
  have refused : (decode [3, 1] : Except _ ten.Point) = .error .offCurve := rfl
  obtain ⟨accepted, _, _, _, _, rejected⟩ :=
    decode_exact prime not_square (by decide) test_exact_ten
  refine ⟨prime, not_square, test_exact_ten, ?_, by decide, refused, (rejected _ _ refused).symm⟩
  exact (accepted _ _).2 ⟨.odd rfl rfl rfl, by decide⟩

end JointSchnorr.Curve.Sec1
