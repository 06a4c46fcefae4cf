import JointSchnorr.Residue

namespace JointSchnorr

structure Curve where
  p : Modulus
  a : Residue p
  b : Residue p
  nonSquare : Residue p
  order : Modulus
  cofactor : Nat
  base : Residue p × Residue p

namespace Curve

inductive Affine (C : Curve)
  | infinity
  | xy (x y : Residue C.p)
  deriving DecidableEq

variable {C : Curve}

def cubic (C : Curve) (x : Residue C.p) : Residue C.p := x * x * x + C.a * x + C.b

namespace Affine

def OnCurve : Affine C → Prop
  | infinity => True
  | xy x y => y * y = C.cubic x

instance : DecidablePred (OnCurve (C := C))
  | infinity => .isTrue trivial
  | xy x y => inferInstanceAs (Decidable (y * y = C.cubic x))

def add : Affine C → Affine C → Affine C
  | infinity, Q => Q
  | P, infinity => P
  | xy x₁ y₁, xy x₂ y₂ =>
    if x₁ = x₂ ∧ y₁ + y₂ = 0 then infinity else
      let slope :=
        if x₁ = x₂ then (3 * (x₁ * x₁) + C.a) * (2 * y₁).inv else (y₂ - y₁) * (x₂ - x₁).inv
      let x := slope * slope - x₁ - x₂
      xy x (slope * (x₁ - x) - y₁)

end Affine

end Curve

end JointSchnorr
