import JointSchnorr.Curve.Point
import JointSchnorr.Residue.SquareRoot

namespace JointSchnorr.Curve

variable {C : Curve}

def width (C : Curve) : Nat := C.p.bytes

namespace Sec1

def evenLead : UInt8 := 2
def oddLead : UInt8 := 3
def fullLead : UInt8 := 4

def isOdd (y : Residue C.p) : Bool := y.val % 2 == 1

def encode (P : C.Point) : Except Malformed Bytes :=
  match P.val with
  | .infinity => .error .identity
  | .xy x y => .ok ((if isOdd y then oddLead else evenLead) :: x.encode)

def encodeFull (P : C.Point) : Except Malformed Bytes :=
  match P.val with
  | .infinity => .error .identity
  | .xy x y => .ok (fullLead :: (x.encode ++ y.encode))

def encodeFirst (P : C.Point) : Except Malformed Bytes :=
  match P.val with
  | .infinity => .error .identity
  | .xy x _ => .ok x.encode

def lift (odd : Bool) (x : Residue C.p) : Except Malformed (Affine C) :=
  match Residue.sqrt? C.nonSquare (C.cubic x) with
  | none => .error .offCurve
  | some y => .ok (.xy x (if isOdd y = odd then y else -y))

def decodeCompressed (odd : Bool) (body : Bytes) : Except Malformed (Affine C) :=
  if body.length = C.width then do lift odd (← Residue.decode body)
  else .error (.length (1 + C.width) (1 + body.length))

def decodeFull (body : Bytes) : Except Malformed (Affine C) :=
  if body.length = 2 * C.width then do
    let x ← Residue.decode (body.take C.width)
    let y ← Residue.decode (body.drop C.width)
    return .xy x y
  else .error (.length (1 + 2 * C.width) (1 + body.length))

def decodeAffine : Bytes → Except Malformed (Affine C)
  | [] => .error (.length (1 + C.width) 0)
  | lead :: body =>
    if lead = evenLead then decodeCompressed false body
    else if lead = oddLead then decodeCompressed true body
    else if lead = fullLead then decodeFull body
    else .error (.leadByte lead)

def decode (b : Bytes) : Except Malformed C.Point := do
  match point? (← decodeAffine b) with
  | some P => .ok P
  | none => .error .offCurve

end Sec1

end JointSchnorr.Curve
