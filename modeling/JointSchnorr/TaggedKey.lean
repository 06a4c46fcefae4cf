import JointSchnorr.Event
import JointSchnorr.Signature

namespace JointSchnorr

def Scheme.shift : Scheme → UInt8
  | .single => 0
  | .aggregate => 3
  | .threshold => 6

def Scheme.ofLead? (lead : UInt8) : Option Scheme :=
  if 2 ≤ lead ∧ lead ≤ 4 then some .single
  else if 5 ≤ lead ∧ lead ≤ 7 then some .aggregate
  else if 8 ≤ lead ∧ lead ≤ 10 then some .threshold
  else none

namespace Suite

variable (S : Suite)

def encodeTagged (P : S.Point) (scheme : Scheme) : Except Error Bytes := do
  match ← S.encode P with
  | [] => .error .unencodable
  | lead :: rest =>
    if 2 ≤ lead ∧ lead ≤ 4 then .ok ((lead + scheme.shift) :: rest)
    else .error (.malformed (.leadByte lead))

def decodeTagged : Bytes → Except Error (Scheme × S.Point)
  | [] => .error (.malformed (.length 1 0))
  | lead :: rest =>
    match Scheme.ofLead? lead with
    | none => .error (.malformed (.leadByte lead))
    | some scheme => return (scheme, ← S.decode ((lead - scheme.shift) :: rest))

/-- The first scheme under which the signature verifies, trying the one that the key is tagged with
before all others. -/
def recognise (s r key m : Bytes) : Logged (Option Scheme) :=
  let inputs : Except Error (Signature S × Scheme × S.Point) := do
    let response ← S.decodeScalar s
    let nonce ← S.decode r
    let (hint, P) ← S.decodeTagged key
    return (⟨nonce, response⟩, hint, P)
  match inputs with
  | .error _ => pure none
  | .ok (g, hint, P) => do
    let found := [hint, .single, .aggregate, .threshold].find? fun scheme =>
      (g.verify scheme P m).isOk
    Logged.emit [.recognised hint found]
    return found

end Suite

end JointSchnorr
