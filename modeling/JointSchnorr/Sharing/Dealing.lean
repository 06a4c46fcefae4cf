import JointSchnorr.Event
import JointSchnorr.Sharing.Polynomial
import JointSchnorr.Sharing.Quorum
import JointSchnorr.SigningKey

namespace JointSchnorr

abbrev Commitment (S : Suite) := List S.Point

structure DealtShare (S : Suite) where
  receiver : Position
  value : S.Scalar

structure Dealing (S : Suite) where
  quorum : Quorum
  key : SigningKey S
  higher : List S.Scalar
  positions : List Position

variable {S : Suite}

namespace Commitment

def checkDegree (c : Commitment S) (q : Quorum) : Except Error Unit :=
  if c.length = q.threshold.toNat then .ok ()
  else .error (.commitmentLength q.threshold.toNat c.length)

def constant? (c : Commitment S) : Option S.Point := c.head?

def jointValue (i : Position) (cs : List (Commitment S)) : S.Point :=
  S.sum (cs.map fun c => S.evaluateHidden c (S.abscissa i))

end Commitment

namespace DealtShare

def ofPolynomial (coefficients : List S.Scalar) (receiver : Position) : DealtShare S :=
  ⟨receiver, S.evaluate coefficients (S.abscissa receiver)⟩

def decode (receiver : Position) (b : Bytes) : Except Error (DealtShare S) :=
  return ⟨receiver, ← S.decodeScalar b⟩

def encode (s : DealtShare S) : Bytes := Residue.encode s.value

def matchesCommitment (s : DealtShare S) (c : Commitment S) : Bool :=
  S.power s.value == S.evaluateHidden c (S.abscissa s.receiver)

end DealtShare

namespace Dealing

/-- Draws the coefficients of a polynomial below degree `t`, all but the constant one. -/
def draw (t : Nat) (secret : S.Scalar) : Sampler (List S.Scalar) :=
  return secret :: (← Sampler.list S.scalar (t - 1))

def roster (q : Quorum) : Option (List Position) → Except Error (List Position)
  | none => .ok q.everyone
  | some positions => do
    checkSizes q.parties.toNat [positions.length]
    checkDistinct positions
    return positions

def deal (q : Quorum) (k : SigningKey S) (given : Option (List Position)) :
    Sampler (Logged (Dealing S)) :=
  match roster q given with
  | .error e => return Logged.fail e
  | .ok positions => do
    let coefficients ← draw q.threshold.toNat k.secret
    return do
      Logged.emit [.dealt q.parties q.threshold]
      return ⟨q, k, coefficients.tail, positions⟩

def generate (q : Quorum) (given : Option (List Position)) : Sampler (Logged (Dealing S)) := do
  deal q (← SigningKey.generate) given

def ofSecret (q : Quorum) (secret : Bytes) : Sampler (Logged (Dealing S)) :=
  match SigningKey.decode secret with
  | .error e => return Logged.fail e
  | .ok k => deal q k none

def coefficients (d : Dealing S) : List S.Scalar := d.key.secret :: d.higher

def commitment (d : Dealing S) : Commitment S := d.coefficients.map S.power

def shareFor (d : Dealing S) (i : Position) : DealtShare S := .ofPolynomial d.coefficients i

def shares (d : Dealing S) : List (DealtShare S) := d.positions.map d.shareFor

def checkOpening (dealer : Position) (P : S.Point) (b c : Bytes) : Logged Unit := do
  let opened ← S.commit P b
  if opened = c then
    return ()
  else
    Logged.emit [.unopenedKey dealer]
    Logged.fail (.keyOpening dealer)

def checkOpenings (d : Dealing S) (keys : List S.Point) (blinds commitments : List Bytes) :
    Logged Unit := do
  checkSizes d.positions.length [keys.length, blinds.length, commitments.length]
  (d.positions.zip (keys.zip (blinds.zip commitments))).forM fun (dealer, P, b, c) =>
    checkOpening dealer P b c

end Dealing

end JointSchnorr
