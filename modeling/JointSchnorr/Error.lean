import JointSchnorr.Bytes

namespace JointSchnorr

abbrev Position := UInt32

inductive Malformed where
  | length (expected actual : Nat)
  | leadByte (byte : UInt8)
  | unreduced
  | offCurve
  | identity
  | zeroSecret
  deriving DecidableEq

namespace Malformed

def message : Malformed → String
  | .length expected actual => s!"expected {expected} bytes, got {actual}"
  | .leadByte byte => "unknown point prefix 0x" ++ Bytes.toHex [byte]
  | .unreduced => "value is not reduced modulo the field order"
  | .offCurve => "point is not on the curve"
  | .identity => "point is the identity"
  | .zeroSecret => "secret key is zero"

end Malformed

inductive Error where
  | unencodable
  | malformed (cause : Malformed)
  | quorum (parties threshold : UInt32)
  | notMember
  | sizeMismatch (expected actual : Nat)
  | repeatedPosition (position : Position)
  | commitmentLength (expected actual : Nat)
  /-- The constant term that a dealer committed to is not the key that it announced. -/
  | constantTerm (dealer : Position)
  | keyOpening (dealer : Position)
  | badShares (accuser : Position) (accused : List Position)
  | tooFewSigners (threshold : UInt32) (actual : Nat)
  | badResponses (signers : List Position)
  | jointIdentity
  | nonceSpent
  | badSignature
  deriving DecidableEq

def Position.listText (positions : List Position) : String :=
  "[" ++ ", ".intercalate (positions.map fun p => toString p.toNat) ++ "]"

namespace Error

def message : Error → String
  | .unencodable => "An error happened while serialising."
  | .malformed cause => s!"Could not decode the provided bytes: {cause.message}."
  | .quorum parties threshold =>
    s!"Invalid threshold parameters: t = {threshold.toNat} and n = {parties.toNat} " ++
      "must satisfy 0 < t <= n."
  | .notMember => "The local key is not part of the declared signer set."
  | .sizeMismatch expected actual =>
    s!"Inconsistent participant sets: expected {expected} entries, got {actual}."
  | .repeatedPosition position =>
    s!"Party index {position.toNat} was provided more than once."
  | .commitmentLength expected actual =>
    s!"The commitment has {actual} points where the threshold requires {expected}."
  | .constantTerm dealer =>
    s!"The commitment of party {dealer.toNat} does not match its declared public key."
  | .keyOpening dealer =>
    s!"The public key revealed by party {dealer.toNat} does not open its commitment."
  | .badShares accuser accused =>
    s!"Party {accuser.toNat} received secret shares not matching the commitments of " ++
      Position.listText accused ++ "."
  | .tooFewSigners threshold actual =>
    s!"Reconstruction requires at least {threshold.toNat} parties, got {actual}."
  | .badResponses signers =>
    "These participants provided invalid local signatures: " ++ Position.listText signers
  | .jointIdentity => "Could not generate a valid aggregated point with the given inputs."
  | .nonceSpent => "The ephemeral key has already been used to sign."
  | .badSignature => "The signature is not correct."

end Error

end JointSchnorr
