import JointSchnorr.Proofs.Group.Residues
import JointSchnorr.Proofs.Sharing.JointShare
import JointSchnorr.Proofs.Signature
import JointSchnorr.Sharing.Signing

open Polynomial (C X)

namespace JointSchnorr

namespace SignatureShare

variable {S : Suite} {q : Quorum} {e : S.Scalar} {shares : List (SignatureShare S)}
  {keys nonces : List (Commitment S)}

theorem checkSigners_eq_ok_iff {positions : List Position} :
    checkSigners q positions = .ok () ↔
      q.threshold.toNat ≤ positions.length ∧ positions.Nodup ∧ ∀ p ∈ positions, p < q.parties := by
  rw [checkSigners, then_error_eq_ok_iff, check_eq_ok_iff, checkDistinct_eq_ok_iff,
    then_error_eq_ok_iff, Nat.not_lt]
  simp

theorem checkCommitments_eq_ok_iff {signers : Nat} {R : S.Point} :
    checkCommitments q signers keys nonces = .ok R ↔
      (keys.length = q.parties.toNat ∧ nonces.length = signers) ∧
      (∀ c ∈ keys, c.length = q.threshold.toNat) ∧ (∀ c ∈ nonces, c.length = q.threshold.toNat) ∧
      Commitment.jointConstant keys ≠ 0 ∧ Commitment.jointConstant nonces = R ∧ R ≠ 0 := by
  have joint : (∃ Y, S.jointPoint (keys.filterMap (·.constant?)) = .ok Y) ↔
      Commitment.jointConstant keys ≠ 0 := by
    simp [Suite.jointPoint_eq_ok_iff, Commitment.jointConstant]
  rw [checkCommitments, check_eq_ok_iff, check_eq_ok_iff, check_eq_ok_iff, check_eq_ok_iff,
    bind_eq_ok_iff, exists_and_right, joint, Suite.jointPoint_eq_ok_iff, checkSizes_eq_ok_iff,
    checkSizes_eq_ok_iff, forM_eq_ok_iff, forM_eq_ok_iff]
  simp only [Commitment.checkDegree_eq_ok_iff, List.mem_singleton, forall_eq, and_assoc,
    Commitment.jointConstant]

theorem outcome_reconstruct (q : Quorum) (e : S.Scalar) (shares : List (SignatureShare S))
    (keys nonces : List (Commitment S)) :
    (reconstruct q e shares keys nonces).outcome = (do
      checkSigners q (shares.map (·.position))
      let R ← checkCommitments q shares.length keys nonces
      if misbehaving e keys nonces shares = [] then return ⟨R, ← interpolate shares⟩
      else .error (.badResponses (misbehaving e keys nonces shares))) := by
  simp only [reconstruct, Logged.outcome_bind, Logged.outcome_lift, Logged.outcome_emit,
    Logged.outcome_ite, Logged.outcome_fail, Logged.outcome_pure, ne_eq, ite_not]
  rfl

theorem misbehaving_eq_nil_iff :
    misbehaving e keys nonces shares = [] ↔ ∀ g ∈ shares, g.isValid e keys nonces = true := by
  rw [misbehaving, List.map_eq_nil_iff, List.filter_eq_nil_iff]
  simp

theorem mem_misbehaving_iff {p : Position} :
    p ∈ misbehaving e keys nonces shares ↔
      ∃ g ∈ shares, g.isValid e keys nonces = false ∧ g.position = p := by
  simp [misbehaving, and_assoc]

theorem reconstruct_eq_ok_iff {g : Signature S} :
    (reconstruct q e shares keys nonces).outcome = .ok g ↔
      checkSigners q (shares.map (·.position)) = .ok () ∧
      checkCommitments q shares.length keys nonces = .ok g.nonce ∧
      (∀ s ∈ shares, s.isValid e keys nonces = true) ∧
      interpolate shares = .ok g.response := by
  rw [outcome_reconstruct, check_eq_ok_iff, bind_eq_ok_iff]
  simp only [else_error_eq_ok_iff, bind_eq_ok_iff, misbehaving_eq_nil_iff]
  apply and_congr_right
  intro _
  constructor
  · rintro ⟨R, committed, valid, s, value, h⟩
    cases h
    exact ⟨committed, valid, value⟩
  · rintro ⟨committed, valid, value⟩
    exact ⟨g.nonce, committed, valid, g.response, value, rfl⟩

section Response

variable [S.Lawful]

/-- The polynomial that the responses of honest signers lie on. -/
noncomputable def responsePolynomial (e : S.Scalar) (keys nonces : List (Commitment S)) :
    Polynomial S.Scalar :=
  Commitment.jointPolynomial nonces + C e * Commitment.jointPolynomial keys

theorem eval_responsePolynomial (x : S.Scalar) :
    (responsePolynomial e keys nonces).eval x = (Commitment.jointPolynomial nonces).eval x +
      e * (Commitment.jointPolynomial keys).eval x := by
  rw [responsePolynomial, Polynomial.eval_add, Polynomial.eval_mul, Polynomial.eval_C]

theorem responsePolynomial_perm {keys' nonces' : List (Commitment S)} (hk : keys'.Perm keys)
    (hn : nonces'.Perm nonces) :
    responsePolynomial e keys' nonces' = responsePolynomial e keys nonces := by
  rw [responsePolynomial, Commitment.jointPolynomial_perm hk, Commitment.jointPolynomial_perm hn,
    responsePolynomial]

theorem degree_responsePolynomial_lt {t : Nat} (hk : ∀ c ∈ keys, c.length = t)
    (hn : ∀ c ∈ nonces, c.length = t) : (responsePolynomial e keys nonces).degree < t := by
  rw [← Polynomial.mem_degreeLT, responsePolynomial, ← Polynomial.smul_eq_C_mul]
  apply Submodule.add_mem
  · exact Polynomial.mem_degreeLT.2 (Commitment.degree_jointPolynomial_lt hn)
  · exact Submodule.smul_mem _ _
      (Polynomial.mem_degreeLT.2 (Commitment.degree_jointPolynomial_lt hk))

theorem isValid_iff {g : SignatureShare S} :
    g.isValid e keys nonces = true ↔
      g.response = (responsePolynomial e keys nonces).eval (S.abscissa g.position) := by
  rw [isValid, beq_iff_eq, CyclicGroup.eq_iff_log_eq, CyclicGroup.log_power, CyclicGroup.log_add,
    CyclicGroup.log_smul, Commitment.log_jointValue, Commitment.log_jointValue,
    eval_responsePolynomial]

theorem interpolate_eq {f : Polynomial S.Scalar} (nodup : (shares.map (·.position)).Nodup)
    (low : f.degree < shares.length)
    (through : ∀ s ∈ shares, s.response = f.eval (S.abscissa s.position)) :
    interpolate shares =
      settle [(S.coincident (shares.map (·.position))).map .repeatedPosition] (f.eval 0) := by
  have positions : (shares.map fun s => (s.position, s.response)).map (·.1) =
      shares.map (·.position) := List.map_map
  rw [← positions] at nodup ⊢
  apply Suite.interpolate_eq nodup
  · rwa [List.length_map]
  · intro p hp
    obtain ⟨s, hs, rfl⟩ := List.mem_map.1 hp
    exact through s hs

theorem interpolate_of_checks {R : S.Point}
    (signers : checkSigners q (shares.map (·.position)) = .ok ())
    (committed : checkCommitments q shares.length keys nonces = .ok R)
    (valid : ∀ s ∈ shares, s.isValid e keys nonces = true) :
    interpolate shares = settle [(S.coincident (shares.map (·.position))).map .repeatedPosition]
      ((responsePolynomial e keys nonces).eval 0) := by
  obtain ⟨enough, nodup, _⟩ := checkSigners_eq_ok_iff.1 signers
  obtain ⟨_, hk, hn, _⟩ := checkCommitments_eq_ok_iff.1 committed
  have low : (responsePolynomial e keys nonces).degree < shares.length := by
    apply (degree_responsePolynomial_lt hk hn).trans_le
    rw [List.length_map] at enough
    exact_mod_cast enough
  exact interpolate_eq nodup low fun s hs => isValid_iff.1 (valid s hs)

theorem response_of_reconstruct {g : Signature S}
    (h : (reconstruct q e shares keys nonces).outcome = .ok g) :
    g.response = (responsePolynomial e keys nonces).eval 0 := by
  obtain ⟨signers, committed, valid, value⟩ := reconstruct_eq_ok_iff.1 h
  rw [interpolate_of_checks signers committed valid] at value
  exact (settle_eq_ok_iff.1 value).2.symm

theorem power_eval_responsePolynomial_zero :
    S.power ((responsePolynomial e keys nonces).eval 0) =
      Commitment.jointConstant nonces + e • Commitment.jointConstant keys := by
  rw [CyclicGroup.eq_iff_log_eq, CyclicGroup.log_power, CyclicGroup.log_add, CyclicGroup.log_smul,
    Commitment.log_jointConstant, Commitment.log_jointConstant, eval_responsePolynomial]

theorem power_response_of_reconstruct {g : Signature S}
    (h : (reconstruct q e shares keys nonces).outcome = .ok g) :
    S.power g.response =
      Commitment.jointConstant nonces + e • Commitment.jointConstant keys := by
  rw [response_of_reconstruct h, power_eval_responsePolynomial_zero]

theorem reconstruct_eq_of_perm {q' : Quorum} {shares' : List (SignatureShare S)}
    {keys' nonces' : List (Commitment S)} {g g' : Signature S} (hk : keys'.Perm keys)
    (hn : nonces'.Perm nonces) (h : (reconstruct q e shares keys nonces).outcome = .ok g)
    (h' : (reconstruct q' e shares' keys' nonces').outcome = .ok g') : g' = g := by
  have nonce : g'.nonce = g.nonce := by
    obtain ⟨_, committed, _⟩ := reconstruct_eq_ok_iff.1 h
    obtain ⟨_, committed', _⟩ := reconstruct_eq_ok_iff.1 h'
    obtain ⟨_, _, _, _, sum, _⟩ := checkCommitments_eq_ok_iff.1 committed
    obtain ⟨_, _, _, _, sum', _⟩ := checkCommitments_eq_ok_iff.1 committed'
    rw [← sum, ← sum', Commitment.jointConstant_perm hn]
  have response : g'.response = g.response := by
    rw [response_of_reconstruct h, response_of_reconstruct h', responsePolynomial_perm hk hn]
  cases g
  cases g'
  cases nonce
  cases response
  rfl

theorem reconstruct_sound {g : Signature S}
    (h : (reconstruct q e shares keys nonces).outcome = .ok g) :
    g.nonce = Commitment.jointConstant nonces ∧ g.nonce ≠ 0 ∧
      Commitment.jointConstant keys ≠ 0 ∧
      S.power g.response = g.nonce + e • Commitment.jointConstant keys ∧
      (∀ m, S.challenge .threshold g.nonce (Commitment.jointConstant keys) m = .ok e →
        g.verify .threshold (Commitment.jointConstant keys) m = .ok ()) ∧
      ∀ (q' : Quorum) (shares' : List (SignatureShare S)) (keys' nonces' : List (Commitment S))
        (g' : Signature S), keys'.Perm keys → nonces'.Perm nonces →
        (reconstruct q' e shares' keys' nonces').outcome = .ok g' → g' = g := by
  obtain ⟨_, committed, _⟩ := reconstruct_eq_ok_iff.1 h
  obtain ⟨_, _, _, key, nonce, nonzero⟩ := checkCommitments_eq_ok_iff.1 committed
  have equation := power_response_of_reconstruct h
  rw [nonce] at equation
  refine ⟨nonce.symm, nonzero, key, equation, ?_, ?_⟩
  · intro m hm
    exact (Signature.verify_eq_ok_iff hm).2 equation
  · intro q' shares' keys' nonces' g' hk hn h'
    exact reconstruct_eq_of_perm hk hn h h'

theorem reconstruct_sound_of_two :
    let G := Suite.seven.power
    let keys : List (Commitment Suite.seven) := [[G 1, G 2], [G 3, G 1], [G 2, G 0]]
    let nonces : List (Commitment Suite.seven) := [[G 1, G 1], [G 1, G 4]]
    (reconstruct ⟨3, 2, by decide, by decide⟩ 1 [⟨0, 2⟩, ⟨2, 4⟩] keys nonces).outcome =
        .ok ⟨G 2, 1⟩ ∧
      G 1 = G 2 + (1 : Suite.seven.Scalar) • Commitment.jointConstant keys ∧
      ∀ g, (reconstruct ⟨3, 2, by decide, by decide⟩ 1 [⟨2, 4⟩, ⟨1, 3⟩] keys.reverse
        nonces).outcome = .ok g → g = ⟨G 2, 1⟩ := by
  intro G keys nonces
  have run : (reconstruct ⟨3, 2, by decide, by decide⟩ 1 [⟨0, 2⟩, ⟨2, 4⟩] keys nonces).outcome =
      .ok ⟨G 2, 1⟩ := by
    subst G keys nonces
    rfl
  obtain ⟨_, _, _, equation, _, unique⟩ := reconstruct_sound run
  exact ⟨run, equation, fun g => unique _ _ _ _ g keys.reverse_perm (.refl nonces)⟩

end Response

end SignatureShare

end JointSchnorr
