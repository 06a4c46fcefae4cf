import JointSchnorr.Proofs.Cosigning.Agreement
import JointSchnorr.Proofs.Sharing.JointShare
import JointSchnorr.Proofs.Sharing.Opening
import JointSchnorr.Proofs.Sharing.Signing
import JointSchnorr.Suites

namespace JointSchnorr

variable {S : Suite}

def Suite.RejectsIdentity (S : Suite) : Prop := ∀ b, S.encode 0 ≠ .ok b

theorem Suite.rejectsIdentity_residues (m : Modulus) : (Suite.residues m).RejectsIdentity := by
  intro b h
  cases h

theorem Suite.rejectsIdentity_secp256k1Sha256 : Suite.secp256k1Sha256.RejectsIdentity := by
  intro b h
  cases h

theorem Dealing.constant?_ne_zero_of_combine {d : Dealing S} {keys : List S.Point}
    {commitments : List (Commitment S)} {shares : List (DealtShare S)} {l : JointShare S}
    (announced : 0 ∉ keys) (h : (d.combine keys commitments shares).outcome = .ok l) :
    ∀ c ∈ commitments, c.constant? ≠ some 0 := by
  have constants : commitments.map (·.constant?) = keys.map some := by
    rw [← List.forall₂_eq_eq_eq, List.forall₂_map_left_iff, List.forall₂_map_right_iff]
    exact constants_of_combine h
  intro c hc zero
  have listed : c.constant? ∈ keys.map some := constants ▸ List.mem_map_of_mem hc
  obtain ⟨P, hP, same⟩ := List.mem_map.1 listed
  cases same.trans zero
  exact announced hP

section Rejects

variable (rejects : S.RejectsIdentity)

include rejects

theorem Suite.RejectsIdentity.zero_not_mem {points : List S.Point}
    (h : ∀ P ∈ points, ∃ b, S.encode P = .ok b) : 0 ∉ points := by
  intro zero
  obtain ⟨b, encoded⟩ := h 0 zero
  exact rejects b encoded

theorem Suite.proper_of_jointKey {signers : List S.Point} {X : S.Point}
    (h : S.jointKey signers = .ok X) : 0 ∉ signers ∧ S.weightedSum signers = X ∧ X ≠ 0 := by
  obtain ⟨encodable, key⟩ := jointKey_eq_ok_iff.1 h
  exact ⟨rejects.zero_not_mem encodable, key⟩

/-- What is known not to be the identity when an operation succeeds. -/
theorem identity_refused :
    (∀ (signers : List S.Point) (X : S.Point), S.jointKey signers = .ok X →
      0 ∉ signers ∧ S.weightedSum signers = X ∧ X ≠ 0) ∧
    (∀ (nonces : List S.Point) (R : S.Point), S.jointNonce nonces = .ok R →
      0 ∉ nonces ∧ S.sum nonces = R ∧ R ≠ 0) ∧
    (∀ (signers nonces : List S.Point) (k : SigningKey S) (r : Nonce S) (s : Session S),
      (Session.start signers nonces k r).outcome = .ok s →
        (0 ∉ signers ∧ S.weightedSum signers = s.jointKey ∧ s.jointKey ≠ 0) ∧
          0 ∉ nonces ∧ S.sum nonces = s.jointNonce ∧ s.jointNonce ≠ 0) ∧
    (∀ (d : Dealing S) (keys : List S.Point) (blinds published : List Bytes),
      (d.checkOpenings keys blinds published).outcome = .ok () → 0 ∉ keys ∧
        ∀ (d' : Dealing S) (commitments : List (Commitment S)) (shares : List (DealtShare S))
          (l : JointShare S), (d'.combine keys commitments shares).outcome = .ok l →
          (∀ c ∈ commitments, c.constant? ≠ some 0) ∧
            Commitment.jointConstant commitments = S.sum keys) ∧
    (∀ (points : List S.Point) (P : S.Point), S.jointPoint points = .ok P →
      S.sum points = P ∧ P ≠ 0) ∧
    (∀ (q : Quorum) (e : S.Scalar) (shares : List (SignatureShare S))
      (keys nonces : List (Commitment S)) (g : Signature S),
      (SignatureShare.reconstruct q e shares keys nonces).outcome = .ok g →
        Commitment.jointConstant keys ≠ 0 ∧ Commitment.jointConstant nonces = g.nonce ∧
          g.nonce ≠ 0) ∧
    Suite.secp256k1Sha256.RejectsIdentity := by
  refine ⟨fun _ _ => Suite.proper_of_jointKey rejects, fun _ _ => Suite.jointNonce_eq_ok_iff.1,
    ?started, ?opened, fun _ _ => Suite.jointPoint_eq_ok_iff.1, ?reconstructed,
    Suite.rejectsIdentity_secp256k1Sha256⟩
  case started =>
    intro signers nonces k r s h
    obtain ⟨_, key, nonce⟩ := Session.fields_of_start h
    exact ⟨Suite.proper_of_jointKey rejects key, Suite.jointNonce_eq_ok_iff.1 nonce⟩
  case opened =>
    intro d keys blinds published opened
    have announced : 0 ∉ keys :=
      rejects.zero_not_mem fun _ => Dealing.exists_encode_of_checkOpenings opened
    refine ⟨announced, fun d' commitments shares l combined => ?_⟩
    exact ⟨Dealing.constant?_ne_zero_of_combine announced combined,
      Dealing.jointConstant_of_combine combined⟩
  case reconstructed =>
    intro q e shares keys nonces g h
    obtain ⟨_, committed, _⟩ := SignatureShare.reconstruct_eq_ok_iff.1 h
    obtain ⟨_, _, _, proper⟩ := SignatureShare.checkCommitments_eq_ok_iff.1 committed
    exact proper

end Rejects

theorem identity_refused_of_two :
    let G := Suite.seven.power
    let b := List.replicate 32 5
    let c a := Suite.seven.toCommitment (Residue.encode (G a) ++ b)
    let d : Dealing Suite.seven :=
      ⟨⟨2, 1, by decide, by decide⟩, ⟨1, by decide, G 1, rfl⟩, [], [0, 1]⟩
    let secrets : List Suite.seven.Scalar := [1, 3]
    let keys := secrets.map G
    Suite.seven.RejectsIdentity ∧ 0 ∉ [G 2, G 3] ∧ Suite.seven.sum [G 2, G 3] ≠ 0 ∧
      (d.checkOpenings keys (secrets.map fun _ => b) (secrets.map c)).outcome = .ok () ∧
      (d.combine keys [[G 1], [G 3]] [⟨0, 1⟩, ⟨0, 3⟩]).outcome = .ok ⟨0, 4⟩ ∧
      0 ∉ keys ∧ ∀ c ∈ [[G 1], [G 3]], Commitment.constant? c ≠ some 0 := by
  intro G b c d secrets keys
  have rejects : Suite.seven.RejectsIdentity := Suite.rejectsIdentity_residues _
  have joint : Suite.seven.jointNonce [G 2, G 3] = .ok (G 5) := rfl
  have committed : ∀ a ∈ secrets, Suite.seven.commit (G a) b = .ok (c a) :=
    List.forall_mem_cons.2 ⟨rfl, List.forall_mem_singleton.2 rfl⟩
  have opens : (d.checkOpenings keys (secrets.map fun _ => b) (secrets.map c)).outcome =
      .ok () := Dealing.checkOpenings_eq_ok rfl committed
  have combined : (d.combine keys [[G 1], [G 3]] [⟨0, 1⟩, ⟨0, 3⟩]).outcome = .ok ⟨0, 4⟩ := rfl
  obtain ⟨_, nonces, _, opened, _⟩ := identity_refused rejects
  obtain ⟨apart, sum, nonzero⟩ := nonces _ _ joint
  obtain ⟨announced, shared⟩ := opened d _ _ _ opens
  obtain ⟨constants, _⟩ := shared d _ _ _ combined
  exact ⟨rejects, apart, sum ▸ nonzero, opens, combined, announced, constants⟩

/-- Keys that cancel can be revealed and shared, and the identity goes unnoticed in a longer sum. -/
theorem identity_accepted_of_two :
    let G := Suite.seven.power
    let b := List.replicate 32 5
    let c a := Suite.seven.toCommitment (Residue.encode (G a) ++ b)
    let q : Quorum := ⟨2, 1, by decide, by decide⟩
    let d : Dealing Suite.seven := ⟨q, ⟨1, by decide, G 1, rfl⟩, [], [0, 1]⟩
    let secrets : List Suite.seven.Scalar := [1, 6]
    let keys := secrets.map G
    Suite.seven.RejectsIdentity ∧
      ((d.checkOpenings keys (secrets.map fun _ => b) (secrets.map c)).outcome = .ok () ∧
        (d.combine keys [[G 1], [G 6]] [⟨0, 1⟩, ⟨0, 6⟩]).outcome = .ok ⟨0, 0⟩ ∧
        Suite.seven.sum keys = 0) ∧
      (d.combine [G 1, 0] [[G 1], [0]] [⟨0, 1⟩, ⟨0, 0⟩]).outcome = .ok ⟨0, 1⟩ ∧
      Suite.seven.jointPoint [G 1, 0] = .ok (G 1) ∧
      (SignatureShare.reconstruct q 1 [⟨0, 2⟩] [[G 1], [0]] [[G 1]]).outcome = .ok ⟨G 1, 2⟩ := by
  intro G b c q d secrets keys
  have committed : ∀ a ∈ secrets, Suite.seven.commit (G a) b = .ok (c a) :=
    List.forall_mem_cons.2 ⟨rfl, List.forall_mem_singleton.2 rfl⟩
  have opens : (d.checkOpenings keys (secrets.map fun _ => b) (secrets.map c)).outcome =
      .ok () := Dealing.checkOpenings_eq_ok rfl committed
  have cancel : Suite.seven.sum [G 1, G 6] = 0 := by decide
  exact ⟨Suite.rejectsIdentity_residues _, ⟨opens, rfl, cancel⟩, rfl, rfl, rfl⟩

end JointSchnorr
