import JointSchnorr.Curve.Jacobian
import JointSchnorr.Group

/-!
Membership in the subgroup is part of the type.  `point` decides it again for each computed pair of
coordinates, so no operation has to be trusted to stay inside the group.
-/

namespace JointSchnorr.Curve

variable {C : Curve}

/-- A point of the curve that the order of the subgroup annihilates.  With cofactor one every point
of the curve is such a point. -/
def Affine.InSubgroup : Affine C → Prop
  | infinity => True
  | xy x y =>
    (xy x y : Affine C).OnCurve ∧ (C.cofactor = 1 ∨ (xy x y).multiple C.order.value = infinity)

instance : DecidablePred (Affine.InSubgroup (C := C))
  | .infinity => .isTrue trivial
  | .xy x y => inferInstanceAs (Decidable ((Affine.xy x y).OnCurve ∧
    (C.cofactor = 1 ∨ (Affine.xy x y).multiple C.order.value = .infinity)))

def Point (C : Curve) := { P : Affine C // P.InSubgroup }

instance : DecidableEq C.Point := inferInstanceAs (DecidableEq { P : Affine C // P.InSubgroup })

def zero (C : Curve) : C.Point := ⟨.infinity, trivial⟩

def point? (P : Affine C) : Option C.Point := if h : P.InSubgroup then some ⟨P, h⟩ else none

def point (P : Affine C) : C.Point := (point? P).getD C.zero

@[simp] theorem point?_val (P : C.Point) : point? P.val = some P := dif_pos P.property

theorem point?_eq_some_iff {P : Affine C} {Q : C.Point} : point? P = some Q ↔ P = Q.val := by
  constructor
  · intro h
    unfold point? at h
    split at h
    · cases h; rfl
    · cases h
  · rintro rfl
    exact point?_val Q

def group (C : Curve) : CyclicGroup where
  Point := C.Point
  zero := C.zero
  add P Q := point (P.val.add Q.val)
  multiple n P := point (P.val.multiple n)
  generator := point (.xy C.base.1 C.base.2)
  order := C.order

end JointSchnorr.Curve
