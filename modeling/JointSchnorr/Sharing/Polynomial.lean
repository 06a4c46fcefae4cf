import JointSchnorr.Suite

namespace JointSchnorr.Suite

variable (S : Suite)

/-- The argument at which a position's share is taken.  It is zero only if the order divides the
position's successor. -/
def abscissa (i : Position) : S.Scalar := Residue.ofNat (i.toNat + 1)

def evaluate (coefficients : List S.Scalar) (x : S.Scalar) : S.Scalar :=
  coefficients.foldr (fun a sum => a + x * sum) 0

def evaluateHidden (points : List S.Point) (x : S.Scalar) : S.Point :=
  points.foldr (fun A sum => A + x • sum) 0

def product (factors : List S.Scalar) : S.Scalar := factors.foldr (· * ·) 1

/-- The weight of the value at `i` when the values at `all` are combined to the value at zero.
There is none when another position has the abscissa of `i`. -/
def lagrange (i : Position) (all : List Position) : Except Error S.Scalar :=
  let others := (all.filter (· != i)).map S.abscissa
  match Residue.inv? (S.product (others.map (· - S.abscissa i))) with
  | none => .error (.repeatedPosition i)
  | some w => .ok (S.product others * w)

def interpolate (points : List (Position × S.Scalar)) : Except Error S.Scalar := do
  let positions := points.map (·.1)
  let terms ← points.mapM fun p => return (← S.lagrange p.1 positions) * p.2
  return terms.foldl (· + ·) 0

end JointSchnorr.Suite
