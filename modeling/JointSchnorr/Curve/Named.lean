import JointSchnorr.Curve

namespace JointSchnorr.Curve

def secp256k1 : Curve where
  p := { value := 0xfffffffffffffffffffffffffffffffffffffffffffffffffffffffefffffc2f }
  a := 0
  b := 7
  nonSquare := 3
  order := { value := 0xfffffffffffffffffffffffffffffffebaaedce6af48a03bbfd25e8cd0364141 }
  cofactor := 1
  base :=
    (0x79be667ef9dcbbac55a06295ce870b07029bfcdb2dce28d959f2815b16f81798,
      0x483ada7726a3c4655da4fbfc0e1108a8fd17b448a68554199c47d08ffb10d4b8)

/-- A curve with 1108 points.  Its subgroup is small enough for positions to coincide modulo the
order and for hashes to vanish. -/
def tiny : Curve where
  p := { value := 1153 }
  a := 2
  b := 2
  nonSquare := 5
  order := { value := 277 }
  cofactor := 4
  base := (824, 1088)

end JointSchnorr.Curve
