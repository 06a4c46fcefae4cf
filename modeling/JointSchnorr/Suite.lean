import JointSchnorr.Group
import JointSchnorr.Hash.Sha2

namespace JointSchnorr

structure Suite extends CyclicGroup where
  hash : Hash
  context : Bytes
  commitmentSize : Nat
  encode : Point → Except Error Bytes
  decode : Bytes → Except Error Point

namespace Suite

variable (S : Suite)

def decodeScalar (b : Bytes) : Except Error S.Scalar := (Residue.decode b).mapError .malformed

def scalarSize : Nat := S.order.bytes

def jointPoint (points : List S.Point) : Except Error S.Point :=
  let P := S.sum points
  if P = 0 then .error .jointIdentity else .ok P

theorem jointPoint_eq_ok_iff {S : Suite} {points : List S.Point} {P : S.Point} :
    S.jointPoint points = .ok P ↔ S.sum points = P ∧ P ≠ 0 := by
  by_cases h : S.sum points = 0
  · have refused : S.jointPoint points = .error .jointIdentity := if_pos h
    rw [refused]
    constructor
    · intro accepted
      cases accepted
    · rintro ⟨rfl, nonzero⟩
      exact absurd h nonzero
  · have accepted : S.jointPoint points = .ok (S.sum points) := if_neg h
    rw [accepted, Except.ok.injEq]
    constructor
    · rintro rfl
      exact ⟨rfl, h⟩
    · exact And.left

end Suite

end JointSchnorr
