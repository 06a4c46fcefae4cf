import JointSchnorr.Oracle

namespace JointSchnorr

namespace Suite

variable (S : Suite)

def encodeAll : List S.Point → Except Error Bytes
  | [] => .ok []
  | P :: rest => return (← S.encode P) ++ (← encodeAll rest)

end Suite

inductive Query (S : Suite)
  | challenge (scheme : Scheme) (nonce key : S.Point) (message : Bytes)
  | coefficient (signers : List S.Point) (key : S.Point)
  | nonce (secret : S.Scalar) (message : Bytes)
  | commitment (point : S.Point) (blind : Bytes)

namespace Query

variable {S : Suite}

def oracle : Query S → Oracle
  | challenge scheme _ _ _ => .challenge scheme
  | coefficient _ _ => .coefficient
  | nonce _ _ => .nonce
  | commitment _ _ => .commitment

def transcript : Query S → Except Error Bytes
  | challenge _ R P m => return (← S.encode R) ++ (← S.encode P) ++ m
  | coefficient signers X => return (← S.encodeAll signers) ++ (← S.encode X)
  | nonce x m => return Residue.encode x ++ m
  | commitment P blind => return (← S.encode P) ++ blind

def firstInput (q : Query S) : Except Error Bytes := q.transcript.map (S.firstInput q.oracle)

def scalar (q : Query S) : Except Error S.Scalar := q.transcript.map (S.toScalar q.oracle)

end Query

namespace Suite

variable (S : Suite)

def challenge (scheme : Scheme) (R P : S.Point) (m : Bytes) : Except Error S.Scalar :=
  (Query.challenge scheme R P m).scalar

def commit (P : S.Point) (blind : Bytes) : Except Error Bytes :=
  (Query.commitment P blind).transcript.map S.toCommitment

end Suite

end JointSchnorr
