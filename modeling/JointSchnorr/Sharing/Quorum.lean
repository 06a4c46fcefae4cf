import JointSchnorr.Error

namespace JointSchnorr

structure Quorum where
  parties : UInt32
  threshold : UInt32
  threshold_pos : 0 < threshold
  threshold_le : threshold ≤ parties

def Quorum.ofSizes (parties threshold : UInt32) : Except Error Quorum :=
  if h : 0 < threshold ∧ threshold ≤ parties then .ok ⟨parties, threshold, h.1, h.2⟩
  else .error (.quorum parties threshold)

def Quorum.everyone (q : Quorum) : List Position := (List.range q.parties.toNat).map UInt32.ofNat

def repeatedAfter (seen : List Position) : List Position → Option Position
  | [] => none
  | p :: rest => if p ∈ seen then some p else repeatedAfter (p :: seen) rest

def checkDistinct (positions : List Position) : Except Error Unit :=
  match repeatedAfter [] positions with
  | none => .ok ()
  | some p => .error (.repeatedPosition p)

def checkSizes (expected : Nat) (actual : List Nat) : Except Error Unit :=
  match actual.find? (· != expected) with
  | none => .ok ()
  | some n => .error (.sizeMismatch expected n)

end JointSchnorr
