import JointSchnorr.Proofs.Group.Residues
import JointSchnorr.Proofs.Sharing.Round
import JointSchnorr.Proofs.Sharing.Signing

namespace JointSchnorr.Round

variable {S : Suite} {q r : Quorum} {I J : List Position} {ds es : Round S}

def responseAt (ds es : Round S) (e : S.Scalar) (i : Position) : SignatureShare S :=
  ⟨i, (es.shareAt i).value + e * (ds.shareAt i).value⟩

theorem respond_shareAt {Y V : S.Point} {m : Bytes} {e : S.Scalar}
    (challenge : S.challenge .threshold V Y m = .ok e) (i : Position) :
    (ds.shareAt i).respond (es.shareAt i) Y V m = .ok (e, ds.responseAt es e i) := by
  rw [JointShare.respond, if_neg (fun h => h rfl), challenge]
  rfl

theorem positions_of_perm {e : S.Scalar} {gs : List (SignatureShare S)}
    (h : gs.Perm (J.map (ds.responseAt es e))) : (gs.map (·.position)).Perm J := by
  have positions := h.map (·.position)
  rw [List.map_map] at positions
  exact positions.trans (.of_eq (List.map_id J))

theorem Honest.length_of_mem_commitments (h : ds.Honest q I) :
    ∀ c ∈ ds.commitments, c.length = q.threshold.toNat := by
  intro c hc
  obtain ⟨d, hd, rfl⟩ := List.mem_map.1 hc
  exact (h.regular d hd).length_commitment

theorem checkCommitments_eq_ok (hd : ds.Honest q I) (he : es.Honest r J)
    (ht : r.threshold = q.threshold) :
    SignatureShare.checkCommitments q J.length ds.commitments es.commitments = .ok es.point := by
  rw [SignatureShare.checkCommitments_eq_ok_iff, jointConstant_commitments,
    jointConstant_commitments, ← ht]
  refine ⟨⟨?keys, ?nonces⟩, ?degree, he.length_of_mem_commitments, hd.point_ne_zero, rfl,
    he.point_ne_zero⟩
  case keys => rw [commitments, List.length_map, hd.length_eq]
  case nonces => rw [commitments, List.length_map, he.length_eq, he.length_positions]
  case degree =>
    rw [ht]
    exact hd.length_of_mem_commitments

variable [S.Lawful]

theorem response_responseAt (ds es : Round S) (e : S.Scalar) (i : Position) :
    (ds.responseAt es e i).response =
      (SignatureShare.responsePolynomial e ds.commitments es.commitments).eval (S.abscissa i) := by
  rw [SignatureShare.eval_responsePolynomial, ← value_shareAt, ← value_shareAt]
  rfl

theorem response_of_mem {e : S.Scalar} {gs : List (SignatureShare S)} {s : SignatureShare S}
    (perm : gs.Perm (J.map (ds.responseAt es e))) (hs : s ∈ gs) :
    s.response =
      (SignatureShare.responsePolynomial e ds.commitments es.commitments).eval
        (S.abscissa s.position) := by
  obtain ⟨i, _, rfl⟩ := List.mem_map.1 (perm.mem_iff.1 hs)
  exact response_responseAt ds es e i

theorem responsePolynomial_zero (ds es : Round S) (e : S.Scalar) :
    (SignatureShare.responsePolynomial e ds.commitments es.commitments).eval 0 =
      es.secret + e * ds.secret := by
  rw [SignatureShare.eval_responsePolynomial, eval_jointPolynomial_zero, eval_jointPolynomial_zero]

theorem interpolate_eq_ok (large : 2 ^ 32 < S.order.value) (hd : ds.Honest q I)
    (he : es.Honest r J) (ht : r.threshold = q.threshold) {e : S.Scalar}
    {gs : List (SignatureShare S)} (perm : gs.Perm (J.map (ds.responseAt es e))) :
    SignatureShare.interpolate gs = .ok (es.secret + e * ds.secret) := by
  have length : gs.length = r.parties.toNat := by
    rw [perm.length_eq, List.length_map, he.length_positions]
  have nodup : (gs.map (·.position)).Nodup := (positions_of_perm perm).nodup_iff.2 he.nodup
  have low := SignatureShare.degree_responsePolynomial_lt (e := e) hd.length_of_mem_commitments
    (ht ▸ he.length_of_mem_commitments)
  rw [← responsePolynomial_zero, SignatureShare.interpolate_eq nodup (low.trans_le ?_)
    fun s hs => response_of_mem perm hs, S.coincident_eq_none large]
  · rfl
  · rw [length, ← ht]
    exact_mod_cast r.threshold_toNat_le

theorem reconstruct_eq_ok (large : 2 ^ 32 < S.order.value) (hd : ds.Honest q I)
    (he : es.Honest r J) (ht : r.threshold = q.threshold) (members : ∀ j ∈ J, j < q.parties)
    {e : S.Scalar} {gs : List (SignatureShare S)} (perm : gs.Perm (J.map (ds.responseAt es e))) :
    (SignatureShare.reconstruct q e gs ds.commitments es.commitments).outcome =
      .ok ⟨es.point, es.secret + e * ds.secret⟩ := by
  rw [SignatureShare.reconstruct_eq_ok_iff]
  refine ⟨?signers, ?committed, ?valid, interpolate_eq_ok large hd he ht perm⟩
  case signers =>
    have positions := positions_of_perm perm
    rw [SignatureShare.checkSigners_eq_ok_iff, positions.length_eq, positions.nodup_iff,
      he.length_positions, ← ht]
    exact ⟨r.threshold_toNat_le, he.nodup, fun j hj => members j (positions.mem_iff.1 hj)⟩
  case committed =>
    rw [perm.length_eq, List.length_map]
    exact checkCommitments_eq_ok hd he ht
  case valid =>
    intro s hs
    exact SignatureShare.isValid_iff.2 (response_of_mem perm hs)

/-- Any `t` or more honest parties sign, in whatever order they and the dealers are listed. -/
theorem sign_complete (large : 2 ^ 32 < S.order.value)
    (encodable : ∀ P : S.Point, P ≠ 0 → ∃ b, S.encode P = .ok b) (hd : ds.Honest q I)
    (he : es.Honest r J) (ht : r.threshold = q.threshold) (hI : I.Perm q.everyone)
    (hJ : ∀ j ∈ J, j < q.parties) (m : Bytes) :
    ds.Completes q I ∧ es.Completes r J ∧ (∀ j ∈ J, j ∈ I) ∧
      ∃ (e : S.Scalar) (g : Position → SignatureShare S),
        (∀ j ∈ J, (ds.shareAt j).respond (es.shareAt j) ds.point es.point m = .ok (e, g j)) ∧
        ∀ gs, gs.Perm (J.map g) →
          ∃ σ, (SignatureShare.reconstruct q e gs ds.commitments es.commitments).outcome = .ok σ ∧
            σ.nonce = es.point ∧ σ.response = es.secret + e * ds.secret ∧
            σ.verify .threshold ds.point m = .ok () := by
  obtain ⟨e, challenge⟩ := Suite.exists_challenge encodable .threshold he.point_ne_zero
    hd.point_ne_zero m
  refine ⟨hd.completes encodable, he.completes encodable, ?_, e, ds.responseAt es e,
    fun j _ => respond_shareAt challenge j, ?_⟩
  · intro j hj
    exact hI.mem_iff.2 (q.mem_everyone_iff.2 (hJ j hj))
  · intro gs perm
    have reconstructed := reconstruct_eq_ok large hd he ht hJ perm
    have equation := SignatureShare.power_response_of_reconstruct reconstructed
    rw [jointConstant_commitments, jointConstant_commitments] at equation
    exact ⟨_, reconstructed, rfl, rfl, (Signature.verify_eq_ok_iff challenge).2 equation⟩

set_option maxRecDepth 2000 in
theorem sign_complete_of_two :
    let q : Quorum := ⟨3, 2, by decide, by decide⟩
    let r : Quorum := ⟨2, 2, by decide, by decide⟩
    let dealing (q : Quorum) (positions : List Position) (x a : Suite.wide.Scalar) (h : x ≠ 0) :
        Dealing Suite.wide :=
      ⟨q, ⟨x, h, Suite.wide.power x, rfl⟩, [a], positions⟩
    let ds : Round Suite.wide := [dealing q [2, 0, 1] 2304 4608 (by decide),
      dealing q [2, 0, 1] 6912 0 (by decide), dealing q [2, 0, 1] 4608 2304 (by decide)]
    let es : Round Suite.wide := [dealing r [1, 2] 2304 2304 (by decide),
      dealing r [1, 2] 9216 4608 (by decide)]
    ds.Honest q [2, 0, 1] ∧ es.Honest r [1, 2] ∧
      ∃ (e : Suite.wide.Scalar) (g : Position → SignatureShare Suite.wide),
        (∀ j ∈ [1, 2], (ds.shareAt j).respond (es.shareAt j) ds.point es.point [7] = .ok (e, g j)) ∧
        ∃ σ, (SignatureShare.reconstruct q e [g 2, g 1] ds.commitments es.commitments).outcome =
            .ok σ ∧
          σ.nonce = es.point ∧ σ.response = es.secret + e * ds.secret ∧
          σ.verify .threshold ds.point [7] = .ok () := by
  intro q r dealing ds es
  have hd : ds.Honest q [2, 0, 1] := by
    refine ⟨by decide, rfl, rfl, ?_, by decide, by decide⟩
    simp only [ds, List.forall_mem_cons, List.not_mem_nil, false_imp_iff, implies_true, and_true]
    refine ⟨?_, ?_, ?_⟩
    · exact ⟨.fresh (some [2, 0, 1]), [1, 0, 0, 0, 0, 0, 0, 0, 2, 0, 0, 0, 0, 0, 0, 0], [], _,
        rfl, rfl, rfl⟩
    · exact ⟨.fresh (some [2, 0, 1]), [3, 0, 0, 0, 0, 0, 0, 0, 0, 0, 0, 0, 0, 0, 0, 0], [], _,
        rfl, rfl, rfl⟩
    · exact ⟨.fresh (some [2, 0, 1]), [2, 0, 0, 0, 0, 0, 0, 0, 1, 0, 0, 0, 0, 0, 0, 0], [], _,
        rfl, rfl, rfl⟩
  have he : es.Honest r [1, 2] := by
    refine ⟨by decide, rfl, rfl, ?_, by decide, by decide⟩
    simp only [es, List.forall_mem_cons, List.not_mem_nil, false_imp_iff, implies_true, and_true]
    constructor
    · exact ⟨.fresh (some [1, 2]), [1, 0, 0, 0, 0, 0, 0, 0, 1, 0, 0, 0, 0, 0, 0, 0], [], _,
        rfl, rfl, rfl⟩
    · exact ⟨.fresh (some [1, 2]), [4, 0, 0, 0, 0, 0, 0, 0, 2, 0, 0, 0, 0, 0, 0, 0], [], _,
        rfl, rfl, rfl⟩
  have encodable : ∀ P : Suite.wide.Point, P ≠ 0 → ∃ b, Suite.wide.encode P = .ok b :=
    fun P hP => ⟨_, if_neg hP⟩
  have members : ∀ j ∈ [1, 2], j < q.parties :=
    List.forall_mem_cons.2 ⟨by decide, List.forall_mem_singleton.2 (by decide)⟩
  obtain ⟨_, _, _, e, g, responses, reconstructed⟩ :=
    sign_complete (by decide) encodable hd he rfl (by decide) members [7]
  have swapped : [g 2, g 1].Perm ([1, 2].map g) := .swap (g 1) (g 2) []
  exact ⟨hd, he, e, g, responses, reconstructed [g 2, g 1] swapped⟩

end JointSchnorr.Round
