import JointSchnorr.Hash.Expand
import JointSchnorr.Suite

namespace JointSchnorr

/-- The signing equations.  All check `s • G = R + c • P`, each with its own oracle for `c`. -/
inductive Scheme where
  | single
  | aggregate
  | threshold
  deriving DecidableEq

inductive Oracle where
  | coefficient
  | challenge (scheme : Scheme)
  | nonce
  | commitment
  deriving DecidableEq

def Scheme.label : Scheme → String
  | .single => "challenge-single"
  | .aggregate => "challenge-aggregate"
  | .threshold => "challenge-threshold"

def Oracle.label : Oracle → String
  | .coefficient => "coefficient"
  | .challenge scheme => scheme.label
  | .nonce => "nonce"
  | .commitment => "commitment"

namespace Suite

variable (S : Suite)

def tag (o : Oracle) : Bytes := S.context ++ Bytes.ascii o.label

def wideSize : Nat := (S.order.bits + 128 + 7) / 8

/-- What the hash function digests first when an oracle is asked about `m`. -/
def firstInput (o : Oracle) (m : Bytes) : Bytes :=
  match o with
  | .commitment => S.tag o ++ m
  | _ => S.hash.headInput S.wideSize (S.tag o) m

def reduce (o : Oracle) (head : Bytes) : S.Scalar :=
  Residue.ofNat (S.hash.stretch S.wideSize (S.tag o) head).value

def toScalar (o : Oracle) (m : Bytes) : S.Scalar :=
  S.reduce o (S.hash.digest (S.firstInput o m))

def toCommitment (m : Bytes) : Bytes :=
  (S.hash.digest (S.firstInput .commitment m)).fit S.commitmentSize

end Suite

end JointSchnorr
