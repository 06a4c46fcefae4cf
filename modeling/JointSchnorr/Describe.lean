import JointSchnorr.Cosigning.Session
import JointSchnorr.Sharing.JointShare

namespace JointSchnorr

variable {S : Suite}

def Suite.pointText (S : Suite) (P : S.Point) : Except Error String :=
  if P = 0 then .ok "inf" else (S.encode P).map Bytes.toHex

def describe (name : String) (fields : List (String × String)) : String :=
  name ++ " \x7b " ++ String.join (fields.map fun (f, text) => f ++ ": " ++ text ++ ", ") ++
    ".. \x7d"

def angled (text : String) : String := "<" ++ text ++ ">"

def SigningKey.describe (k : SigningKey S) : Except Error String :=
  return JointSchnorr.describe "KeyPair" [("public", angled (← S.pointText k.point))]

def Nonce.describe (r : Nonce S) : Except Error String :=
  return JointSchnorr.describe "EphemeralKey" [("public", angled (← S.pointText r.point))]

def Session.describe (s : Session S) : Except Error String :=
  return JointSchnorr.describe "Aggregator" [
    ("public_key", angled (← S.pointText s.key.point)),
    ("apk", angled (← S.pointText s.jointKey)),
    ("R", angled (← S.pointText s.jointNonce)),
    ("consumed", if s.spent then "true" else "false")]

def Dealing.describe (d : Dealing S) : Except Error String :=
  return JointSchnorr.describe "ThresholdKey" [
    ("parameters", angled "parameters"),
    ("public_key", angled (← S.pointText d.key.point)),
    ("indices", Position.listText d.positions)]

def JointShare.describe (s : JointShare S) : String :=
  JointSchnorr.describe "LocalShare" [("index", toString s.position.toNat)]

def DealtShare.describe (s : DealtShare S) : String :=
  JointSchnorr.describe "SecretShare" [("receiver_index", toString s.receiver.toNat)]

end JointSchnorr
