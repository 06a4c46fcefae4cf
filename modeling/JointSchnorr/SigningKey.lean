import JointSchnorr.Tape
import JointSchnorr.Transcript

namespace JointSchnorr

structure SigningKey (S : Suite) where
  secret : S.Scalar
  secret_ne_zero : secret ≠ 0
  point : S.Point
  point_eq : point = S.power secret

namespace SigningKey

variable {S : Suite}

def ofSecret? (secret : S.Scalar) : Option (SigningKey S) :=
  if h : secret = 0 then none else some ⟨secret, h, S.power secret, rfl⟩

def ofSecret (secret : S.Scalar) : Except Error (SigningKey S) :=
  match ofSecret? secret with
  | some k => .ok k
  | none => .error (.malformed .zeroSecret)

def decode (b : Bytes) : Except Error (SigningKey S) := do ofSecret (← S.decodeScalar b)

def generate : Sampler (SigningKey S) := S.draw ofSecret?

def sharedPoint (k : SigningKey S) (peer : S.Point) : Except Error S.Point :=
  if peer = 0 then .error (.malformed .identity) else .ok (k.secret • peer)

end SigningKey

/-- A key pair that is good for one signature. -/
structure Nonce (S : Suite) extends SigningKey S

namespace Nonce

variable {S : Suite}

def generate : Sampler (Nonce S) := return ⟨← SigningKey.generate⟩

def derive (k : SigningKey S) (m : Bytes) : Except Error (Nonce S) := do
  let secret ← (Query.nonce k.secret m).scalar
  return ⟨← SigningKey.ofSecret secret⟩

end Nonce

namespace Suite

variable (S : Suite)

def commitBlinded (P : S.Point) : Sampler (Except Error (Bytes × Bytes)) := do
  let b ← blind
  return (S.commit P b).map fun c => (c, b)

def opens (P : S.Point) (b c : Bytes) : Bool :=
  match S.commit P b with
  | .ok expected => expected == c
  | .error _ => false

end Suite

end JointSchnorr
