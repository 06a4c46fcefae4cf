import JointSchnorr.Curve.Named
import JointSchnorr.Curve.Sec1
import JointSchnorr.Suite

namespace JointSchnorr.Suite

open Curve

def ofCurve (C : Curve) (hash : Hash) (context : Bytes) (commitmentSize : Nat)
    (encode : C.Point → Except Malformed Bytes) (decode : Bytes → Except Malformed C.Point) :
    Suite where
  toCyclicGroup := C.group
  hash := hash
  context := context
  commitmentSize := commitmentSize
  encode P := (encode P).mapError .malformed
  decode b := (decode b).mapError .malformed

def secp256k1Sha256 : Suite :=
  ofCurve secp256k1 sha256 (Bytes.ascii "SCHNORR-MULTIPARTY_SECP256K1_SHA256") 32
    Sec1.encode Sec1.decode

def tiny : Suite := ofCurve Curve.tiny sha256 (Bytes.ascii "TOY") 16 Sec1.encode Sec1.decode

/-- Uncompressed points, a context too long to be used as it is, and commitments longer than a
digest. -/
def long : Suite :=
  ofCurve secp256k1 sha512 (List.replicate 300 0x4c) 80 Sec1.encodeFull Sec1.decode

def firstOnly : Suite :=
  ofCurve secp256k1 sha256 [] 32 Sec1.encodeFirst fun b => Sec1.decode (Sec1.evenLead :: b)

def blank : Suite where
  toCyclicGroup := secp256k1.group
  hash := sha256
  context := Bytes.ascii "EMPTY"
  commitmentSize := 32
  encode _ := .ok []
  decode _ := .error .unencodable

end JointSchnorr.Suite
