import JointSchnorr.Proofs.Group.Lawful
import JointSchnorr.Proofs.Outcome
import JointSchnorr.Signature

namespace JointSchnorr

variable {S : Suite}

namespace SigningKey

variable [S.Lawful]

theorem log_point (k : SigningKey S) : CyclicGroup.log k.point = k.secret := by
  rw [k.point_eq, CyclicGroup.log_power]

theorem point_ne_zero (k : SigningKey S) : k.point ≠ 0 := by
  rw [k.point_eq, ne_eq, CyclicGroup.power_eq_zero_iff]
  exact k.secret_ne_zero

end SigningKey

namespace Signature

variable {g : Signature S} {scheme : Scheme} {P : S.Point} {m : Bytes} {e : S.Scalar}

theorem verify_eq (challenge : S.challenge scheme g.nonce P m = .ok e) :
    g.verify scheme P m =
      if S.power g.response = g.nonce + e • P then .ok () else .error .badSignature := by
  rw [verify, challenge]
  rfl

theorem verify_eq_ok_iff (challenge : S.challenge scheme g.nonce P m = .ok e) :
    g.verify scheme P m = .ok () ↔ S.power g.response = g.nonce + e • P := by
  rw [verify_eq challenge]
  exact else_error_eq_ok_iff.trans (and_iff_left rfl)

end Signature

end JointSchnorr
