import JointSchnorr.SigningKey

namespace JointSchnorr

structure Signature (S : Suite) where
  nonce : S.Point
  response : S.Scalar

namespace Signature

variable {S : Suite}

def encode (g : Signature S) : Except Error Bytes :=
  return (← S.encode g.nonce) ++ Residue.encode g.response

/-- The scalar takes the last bytes and the point all before them, at least one. -/
def decode (b : Bytes) : Except Error (Signature S) :=
  if b.length ≤ S.scalarSize then
    .error (.malformed (.length (S.scalarSize + 1) b.length))
  else do
    let cut := b.length - S.scalarSize
    return ⟨← S.decode (b.take cut), ← S.decodeScalar (b.drop cut)⟩

def verify (g : Signature S) (scheme : Scheme) (P : S.Point) (m : Bytes) : Except Error Unit := do
  let c ← S.challenge scheme g.nonce P m
  if S.power g.response = g.nonce + c • P then .ok () else .error .badSignature

def verifyJoint (g : Signature S) (P : S.Point) (m : Bytes) (weighted : Bool) : Except Error Unit :=
  g.verify (if weighted then .aggregate else .single) P m

def verifyThreshold (g : Signature S) (P : S.Point) (m : Bytes) : Except Error Unit :=
  g.verify .threshold P m

end Signature

namespace SigningKey

variable {S : Suite}

def signWith (k : SigningKey S) (r : Nonce S) (m : Bytes) : Except Error (Signature S) := do
  let c ← S.challenge .single r.point k.point m
  return ⟨r.point, r.secret + c * k.secret⟩

def sign (k : SigningKey S) (m : Bytes) : Sampler (Except Error (Signature S)) :=
  return k.signWith (← Nonce.generate) m

def signDerived (k : SigningKey S) (m : Bytes) : Except Error (Signature S) := do
  k.signWith (← Nonce.derive k m) m

end SigningKey

end JointSchnorr
