import JointSchnorr.Residue

namespace JointSchnorr

structure CyclicGroup where
  Point : Type
  [decEq : DecidableEq Point]
  zero : Point
  add : Point → Point → Point
  multiple : Nat → Point → Point
  generator : Point
  order : Modulus

namespace CyclicGroup

attribute [instance] decEq

variable (G : CyclicGroup)

abbrev Scalar := Residue G.order

instance : Zero G.Point := ⟨G.zero⟩

instance : Add G.Point := ⟨G.add⟩

instance : SMul G.Scalar G.Point := ⟨fun k P => G.multiple k.val P⟩

def power (k : G.Scalar) : G.Point := k • G.generator

def sum (points : List G.Point) : G.Point := points.foldl (· + ·) 0

end CyclicGroup

end JointSchnorr
