import JointSchnorr.Curve

/-!
Jacobian coordinates: `(X, Y, Z)` stands for `(X / Z², Y / Z³)`, and any triple with `Z = 0` for the
point at infinity.
-/

namespace JointSchnorr.Curve

structure Jacobian (C : Curve) where
  X : Residue C.p
  Y : Residue C.p
  Z : Residue C.p

variable {C : Curve}

namespace Jacobian

def infinity : Jacobian C := ⟨1, 1, 0⟩

def double (P : Jacobian C) : Jacobian C :=
  let yy := P.Y * P.Y
  let zz := P.Z * P.Z
  let s := 4 * (P.X * yy)
  let m := 3 * (P.X * P.X) + C.a * (zz * zz)
  let x := m * m - 2 * s
  ⟨x, m * (s - x) - 8 * (yy * yy), 2 * (P.Y * P.Z)⟩

def addAffine (x y : Residue C.p) (P : Jacobian C) : Jacobian C :=
  if P.Z = 0 then ⟨x, y, 1⟩ else
    let zz := P.Z * P.Z
    let h := x * zz - P.X
    let r := y * (P.Z * zz) - P.Y
    if h = 0 then
      if r = 0 then P.double else infinity
    else
      let hh := h * h
      let hhh := h * hh
      let v := P.X * hh
      let x := r * r - hhh - 2 * v
      ⟨x, r * (v - x) - P.Y * hhh, P.Z * h⟩

def toAffine (P : Jacobian C) : Affine C :=
  if P.Z = 0 then .infinity else
    let w := P.Z.inv
    let ww := w * w
    .xy (P.X * ww) (P.Y * (w * ww))

end Jacobian

def Affine.multiple (n : Nat) : Affine C → Affine C
  | infinity => infinity
  | xy x y => (binary Jacobian.infinity Jacobian.double (Jacobian.addAffine x y) n).toAffine

end JointSchnorr.Curve
