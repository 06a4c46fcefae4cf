import JointSchnorr.Proofs.Sharing.Signing

namespace JointSchnorr

variable {S : Suite}

theorem Suite.jointPoint_eq (points : List S.Point) :
    S.jointPoint points = settle [refuseIf (S.sum points = 0) .jointIdentity] (S.sum points) :=
  ite_error_eq_settle fun _ => rfl

def Commitment.totalAt (cs : List (Commitment S)) (x : S.Scalar) : S.Point :=
  S.sum (cs.map (·.valueAt x))

theorem Commitment.jointValue_eq_totalAt [S.Lawful] (i : Position) (cs : List (Commitment S)) :
    jointValue i cs = totalAt cs (S.abscissa i) := by
  simp only [jointValue, totalAt, evaluateHidden_eq_valueAt]

namespace SignatureShare

def wrongSigners (e : S.Scalar) (keys nonces : List (Commitment S))
    (shares : List (SignatureShare S)) : List Position :=
  (shares.filter fun g => S.power g.response ≠
    Commitment.totalAt nonces (S.abscissa g.position) +
      e • Commitment.totalAt keys (S.abscissa g.position)).map (·.position)

def refusals (q : Quorum) (e : S.Scalar) (shares : List (SignatureShare S))
    (keys nonces : List (Commitment S)) : List (Option Error) :=
  let signers := shares.map (·.position)
  let bad := wrongSigners e keys nonces shares
  [refuseIf (signers.length < q.threshold.toNat) (.tooFewSigners q.threshold signers.length),
    (firstRepeated signers).map .repeatedPosition,
    refuseIf (∃ i ∈ signers, q.parties ≤ i) .notMember,
    wrongSize q.parties.toNat keys.length,
    wrongSize shares.length nonces.length,
    keys.findSome? (Commitment.wrongDegree q),
    nonces.findSome? (Commitment.wrongDegree q),
    refuseIf (Commitment.jointConstant keys = 0) .jointIdentity,
    refuseIf (Commitment.jointConstant nonces = 0) .jointIdentity,
    refuseIf (bad ≠ []) (.badResponses bad)]

variable {q : Quorum} {e : S.Scalar} {shares : List (SignatureShare S)}
  {keys nonces : List (Commitment S)}

theorem checkSigners_eq (q : Quorum) (signers : List Position) :
    checkSigners q signers =
      settle [refuseIf (signers.length < q.threshold.toNat)
          (.tooFewSigners q.threshold signers.length),
        (firstRepeated signers).map .repeatedPosition,
        refuseIf (∃ i ∈ signers, q.parties ≤ i) .notMember] () := by
  rw [checkSigners]
  apply ite_error_eq_settle
  intro _
  rw [checkDistinct_eq]
  apply settle_cons_bind
  intro _
  simp only [List.any_eq_true, decide_eq_true_eq]
  exact ite_error_eq_settle fun _ => rfl

theorem checkCommitments_eq (q : Quorum) (signers : Nat) (keys nonces : List (Commitment S)) :
    checkCommitments q signers keys nonces =
      settle [wrongSize q.parties.toNat keys.length,
        wrongSize signers nonces.length,
        keys.findSome? (Commitment.wrongDegree q),
        nonces.findSome? (Commitment.wrongDegree q),
        refuseIf (Commitment.jointConstant keys = 0) .jointIdentity,
        refuseIf (Commitment.jointConstant nonces = 0) .jointIdentity]
        (Commitment.jointConstant nonces) := by
  simp only [checkCommitments, checkSizes_eq, Commitment.checkDegree_eq, forM_settle,
    Suite.jointPoint_eq, List.map_cons, List.map_nil]
  repeat
    apply settle_cons_bind
    intro _
  rfl

variable [S.Lawful]

theorem misbehaving_eq_wrongSigners :
    misbehaving e keys nonces shares = wrongSigners e keys nonces shares := by
  rw [misbehaving, wrongSigners]
  congr 1
  apply List.filter_congr
  intro g _
  simp [isValid, Commitment.jointValue_eq_totalAt, beq_eq_decide]

theorem outcome_reconstruct_eq (q : Quorum) (e : S.Scalar) (shares : List (SignatureShare S))
    (keys nonces : List (Commitment S)) :
    (reconstruct q e shares keys nonces).outcome =
      settle (refusals q e shares keys nonces ++
          [(S.coincident (shares.map (·.position))).map .repeatedPosition])
        ⟨Commitment.jointConstant nonces, (responsePolynomial e keys nonces).eval 0⟩ := by
  rw [outcome_reconstruct, checkSigners_eq, misbehaving_eq_wrongSigners]
  apply settle_bind
  intro signed
  rw [checkCommitments_eq]
  apply settle_bind
  intro committed
  rw [← ite_not]
  apply ite_error_eq_settle
  intro clean
  -- the checks that passed leave one polynomial for all responses to lie on
  have valid := misbehaving_eq_nil_iff.1 (misbehaving_eq_wrongSigners.trans (not_not.1 clean))
  rw [interpolate_of_checks ((checkSigners_eq _ _).trans (settle_eq_ok_iff.2 ⟨signed, rfl⟩))
    ((checkCommitments_eq _ _ _ _).trans (settle_eq_ok_iff.2 ⟨committed, rfl⟩)) valid]
  exact settle_cons_bind fun _ => rfl

/-- The first refusal that applies decides.  When nothing else is wrong, the responses cannot be
combined if two positions are congruent modulo the order, and these cannot be if the order exceeds
all positions. -/
theorem reconstruct_exact (q : Quorum) (e : S.Scalar) (shares : List (SignatureShare S))
    (keys nonces : List (Commitment S)) :
    ∃ s, S.power s = Commitment.jointConstant nonces + e • Commitment.jointConstant keys ∧
      (reconstruct q e shares keys nonces).outcome =
        settle (refusals q e shares keys nonces ++
            [(S.coincident (shares.map (·.position))).map .repeatedPosition])
          ⟨Commitment.jointConstant nonces, s⟩ ∧
      (2 ^ 32 < S.order.value → (reconstruct q e shares keys nonces).outcome =
        settle (refusals q e shares keys nonces) ⟨Commitment.jointConstant nonces, s⟩) := by
  refine ⟨_, power_eval_responsePolynomial_zero, outcome_reconstruct_eq q e shares keys nonces, ?_⟩
  intro large
  rw [outcome_reconstruct_eq, S.coincident_eq_none large, Option.map_none, settle_append_none]

theorem reconstruct_exact_of_congruent :
    let q : Quorum := ⟨8, 2, by decide, by decide⟩
    let G := Suite.seven.power
    let W := Suite.wide.power
    (reconstruct q 1 [⟨7, 1⟩, ⟨0, 1⟩] (List.replicate 8 [G 1, G 0])
        [[G 1, G 1], [G 1, G 4]]).outcome = .error (.repeatedPosition 7) ∧
      ∃ s, W s = W 2 + (1 : Suite.wide.Scalar) • W 8 ∧
        (reconstruct q 1 [⟨7, 50⟩, ⟨0, 15⟩] (List.replicate 8 [W 1, W 0])
          [[W 1, W 1], [W 1, W 4]]).outcome = .ok ⟨W 2, s⟩ := by
  intro q G W
  obtain ⟨_, _, small, _⟩ := reconstruct_exact q (1 : Suite.seven.Scalar) [⟨7, 1⟩, ⟨0, 1⟩]
    (List.replicate 8 [G 1, G 0]) [[G 1, G 1], [G 1, G 4]]
  obtain ⟨s, equation, _, large⟩ := reconstruct_exact q (1 : Suite.wide.Scalar)
    [⟨7, 50⟩, ⟨0, 15⟩] (List.replicate 8 [W 1, W 0]) [[W 1, W 1], [W 1, W 4]]
  refine ⟨small.trans ?_, s, equation, (large (by decide)).trans ?_⟩
  · subst q G
    rfl
  · subst q W
    rfl

end SignatureShare

end JointSchnorr
