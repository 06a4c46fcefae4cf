import JointSchnorr.Sharing.JointShare
import JointSchnorr.Signature

namespace JointSchnorr

structure SignatureShare (S : Suite) where
  position : Position
  response : S.Scalar

variable {S : Suite}

/-- The challenge under the joint key `Y` and the joint nonce `V`, and the signer's response to it.
The share of the nonce may not be used again. -/
def JointShare.respond (key nonce : JointShare S) (Y V : S.Point) (m : Bytes) :
    Except Error (S.Scalar × SignatureShare S) :=
  if key.position ≠ nonce.position then .error .notMember
  else do
    let e ← S.challenge .threshold V Y m
    return (e, ⟨key.position, nonce.value + e * key.value⟩)

namespace SignatureShare

def isValid (g : SignatureShare S) (e : S.Scalar) (keys nonces : List (Commitment S)) : Bool :=
  S.power g.response ==
    Commitment.jointValue g.position nonces + e • Commitment.jointValue g.position keys

def checkSigners (q : Quorum) (positions : List Position) : Except Error Unit :=
  if positions.length < q.threshold.toNat then
    .error (.tooFewSigners q.threshold positions.length)
  else do
    checkDistinct positions
    if positions.any (q.parties ≤ ·) then .error .notMember else .ok ()

/-- The joint nonce of `signers` signers, after the checks on all commitments.  The joint key is
computed for the one check that it is not the identity. -/
def checkCommitments (q : Quorum) (signers : Nat) (keys nonces : List (Commitment S)) :
    Except Error S.Point := do
  checkSizes q.parties.toNat [keys.length]
  checkSizes signers [nonces.length]
  keys.forM (Commitment.checkDegree · q)
  nonces.forM (Commitment.checkDegree · q)
  let _ ← S.jointPoint (keys.filterMap (·.constant?))
  S.jointPoint (nonces.filterMap (·.constant?))

def misbehaving (e : S.Scalar) (keys nonces : List (Commitment S))
    (shares : List (SignatureShare S)) : List Position :=
  (shares.filter fun g => !g.isValid e keys nonces).map (·.position)

def interpolate (shares : List (SignatureShare S)) : Except Error S.Scalar :=
  S.interpolate (shares.map fun g => (g.position, g.response))

def reconstruct (q : Quorum) (e : S.Scalar) (shares : List (SignatureShare S))
    (keys nonces : List (Commitment S)) : Logged (Signature S) := do
  checkSigners q (shares.map (·.position))
  let R ← checkCommitments q shares.length keys nonces
  let bad := misbehaving e keys nonces shares
  Logged.emit (bad.map .badResponse)
  if bad ≠ [] then
    Logged.fail (.badResponses bad)
  else
    let s ← interpolate shares
    Logged.emit [.reconstructed shares.length q.threshold]
    return ⟨R, s⟩

end SignatureShare

end JointSchnorr
