import JointSchnorr.Curve.Point
import JointSchnorr.Proofs.Residue.SquareRoot

namespace JointSchnorr.Curve

variable {C : Curve}

theorem onCurve_val (P : C.Point) : P.val.OnCurve := by
  cases coordinates : P.val with
  | infinity => trivial
  | xy x y =>
    have member := P.property
    rw [coordinates] at member
    exact member.1

def Affine.times : Nat → Affine C → Affine C
  | 0, _ => infinity
  | n + 1, P => (times n P).add P

def Affine.Annihilated (P : Affine C) : Prop := P.OnCurve ∧ P.times C.order.value = infinity

instance : DecidablePred (Affine.Annihilated (C := C)) := fun P =>
  inferInstanceAs (Decidable (P.OnCurve ∧ P.times C.order.value = .infinity))

theorem Affine.times_xy_zero (n : Nat) (x : Residue C.p) :
    (xy x 0).times n = if n % 2 = 0 then infinity else xy x 0 := by
  induction n with
  | zero => rfl
  | succ n ih =>
    rw [times, ih]
    cases Nat.mod_two_eq_zero_or_one n with
    | inl even => rw [if_pos even, if_neg (by omega), add]
    | inr odd => rw [if_neg (by omega), if_pos (by omega), add, if_pos ⟨rfl, add_zero 0⟩]

theorem Affine.not_annihilated_xy_zero (odd : C.order.value % 2 = 1) (x : Residue C.p) :
    ¬(xy x 0 : Affine C).Annihilated := by
  rintro ⟨_, zero⟩
  rw [times_xy_zero, if_neg (by omega)] at zero
  cases zero

/-- What the encodings of points rely on. -/
class Lawful (C : Curve) : Prop where
  prime : C.p.value.Prime
  not_square : ∀ r, r * r ≠ C.nonSquare
  second_ne_zero : ∀ x, ¬(Affine.xy x 0 : Affine C).InSubgroup

instance [C.Lawful] : Fact C.p.value.Prime := ⟨Lawful.prime⟩

theorem Lawful.p_odd (C : Curve) [C.Lawful] : C.p.value % 2 = 1 :=
  Residue.odd_of_not_square Lawful.not_square

/-- A curve with ten points, one of them of order two and five in the subgroup. -/
def ten : Curve where
  p := ⟨7, Nat.succ_pos 6⟩
  a := 2
  b := 4
  nonSquare := 3
  order := { value := 5 }
  cofactor := 2
  base := (2, 3)

theorem test_exact_ten : ∀ Q : Affine ten, Q.InSubgroup ↔ Q.Annihilated
  | .infinity => by decide
  | .xy x y => by
    have all : ∀ x y : Fin 7, (Affine.xy ⟨x, x.isLt⟩ ⟨y, y.isLt⟩ : Affine ten).InSubgroup ↔
        (Affine.xy ⟨x, x.isLt⟩ ⟨y, y.isLt⟩ : Affine ten).Annihilated := by
      decide +kernel
    exact all ⟨x.val, x.val_lt⟩ ⟨y.val, y.val_lt⟩

end JointSchnorr.Curve
