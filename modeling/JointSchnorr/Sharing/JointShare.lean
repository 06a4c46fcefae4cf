import JointSchnorr.Sharing.Dealing

namespace JointSchnorr

structure JointShare (S : Suite) where
  position : Position
  value : S.Scalar

variable {S : Suite}

def JointShare.point (s : JointShare S) : S.Point := S.power s.value

namespace Dealing

/-- A party finds its position by its own key, at the first place where it is listed. -/
def ownPosition (d : Dealing S) (keys : List S.Point) : Except Error Position :=
  match (d.positions.zip keys).find? fun e => e.2 == d.key.point with
  | some e => .ok e.1
  | none => .error .notMember

def checkCommitment (q : Quorum) (dealer : Position) (c : Commitment S) (P : S.Point) :
    Except Error Unit := do
  c.checkDegree q
  if c.constant? = some P then .ok () else .error (.constantTerm dealer)

def checkCommitments (d : Dealing S) (keys : List S.Point) (commitments : List (Commitment S)) :
    Except Error Unit :=
  (d.positions.zip (commitments.zip keys)).forM fun (dealer, c, P) =>
    checkCommitment d.quorum dealer c P

def accused (d : Dealing S) (me : Position) (commitments : List (Commitment S))
    (shares : List (DealtShare S)) : List Position :=
  ((d.positions.zip (commitments.zip shares)).filter fun (_, c, s) =>
    s.receiver != me || !s.matchesCommitment c).map (·.1)

/-- The joint share of the party that made this dealing.  The lists name, in the order of the
positions, each dealer's announced key, its commitment and the share it sent to this party. -/
def combine (d : Dealing S) (keys : List S.Point) (commitments : List (Commitment S))
    (shares : List (DealtShare S)) : Logged (JointShare S) := do
  checkSizes d.positions.length [keys.length, commitments.length, shares.length]
  let me ← d.ownPosition keys
  d.checkCommitments keys commitments
  let bad := d.accused me commitments shares
  Logged.emit (bad.map (.badShare me))
  if bad ≠ [] then
    Logged.fail (.badShares me bad)
  else
    Logged.emit [.sharesCombined me d.positions.length]
    return ⟨me, shares.foldl (fun sum s => sum + s.value) 0⟩

end Dealing

end JointSchnorr
