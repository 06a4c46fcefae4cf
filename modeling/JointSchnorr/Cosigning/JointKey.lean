import JointSchnorr.Transcript

/-!
Each key is weighted by a hash of the whole ordered list and the key itself, so no signer can choose
a key that cancels the others.
-/

namespace JointSchnorr.Suite

variable (S : Suite)

def coefficient (signers : List S.Point) (X : S.Point) : Except Error S.Scalar :=
  (Query.coefficient signers X).scalar

def jointKey (signers : List S.Point) : Except Error S.Point := do
  S.jointPoint (← signers.mapM fun X => return (← S.coefficient signers X) • X)

def jointNonce (nonces : List S.Point) : Except Error S.Point :=
  if nonces.contains 0 then .error (.malformed .identity) else S.jointPoint nonces

end JointSchnorr.Suite
