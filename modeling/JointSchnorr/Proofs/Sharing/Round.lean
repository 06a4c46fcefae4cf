import JointSchnorr.Proofs.Sharing.Dealing
import JointSchnorr.Proofs.Sharing.JointShare
import JointSchnorr.Proofs.Sharing.Opening
import JointSchnorr.Proofs.Signature

namespace JointSchnorr

variable {S : Suite} {q : Quorum} {positions : List Position}

abbrev Round (S : Suite) := List (Dealing S)

namespace Round

variable (ds : Round S)

def keys : List S.Point := ds.map (·.key.point)

def point : S.Point := S.sum ds.keys

def secret : S.Scalar := (ds.map (·.key.secret)).sum

def commitments : List (Commitment S) := ds.map (·.commitment)

def dealtTo (k : Nat) : List (DealtShare S) := ds.filterMap (·.shares[k]?)

def jointShares : List (Except Error (JointShare S)) :=
  ds.mapIdx fun k d => (d.combine ds.keys ds.commitments (ds.dealtTo k)).outcome

def shareAt (i : Position) : JointShare S := ⟨i, ((ds.map (·.shareFor i)).map (·.value)).sum⟩

structure Honest (q : Quorum) (positions : List Position) (ds : Round S) : Prop where
  nodup : positions.Nodup
  length_positions : positions.length = q.parties.toNat
  length_eq : ds.length = q.parties.toNat
  dealt : ∀ d ∈ ds, ∃ (dealer : Dealer) (tape rest : Bytes) (log : Logged (Dealing S)),
    dealer.Serves S q positions ∧ dealer.deal S q tape = some (log, rest) ∧ log.outcome = .ok d
  keys_nodup : ds.keys.Nodup
  point_ne_zero : ds.point ≠ 0

/-- Dealers draw their polynomials and commit to their keys unless their tapes are too short, the
parties accept all keys, and each party gets the joint share at its position. -/
structure Completes (q : Quorum) (positions : List Position) (ds : Round S) : Prop where
  deals : ∀ (dealer : Dealer) (tape rest : Bytes) (log : Logged (Dealing S)),
    dealer.Serves S q positions → dealer.deal S q tape = some (log, rest) →
      ∃ d, log.outcome = .ok d
  opens : ∀ tapes : List Bytes, tapes.length = ds.length → (∀ tape ∈ tapes, 32 ≤ tape.length) →
    ∃ openings : List (Bytes × Bytes),
      (ds.zip tapes).map (fun e => (S.commitBlinded e.1.key.point).run' e.2) =
        openings.map (some <| .ok ·) ∧
      ∀ d ∈ ds, (d.checkOpenings ds.keys (openings.map (·.2)) (openings.map (·.1))).outcome = .ok ()
  combines : ds.jointShares = positions.map (.ok <| ds.shareAt ·)

variable {ds}

theorem Honest.regular (h : ds.Honest q positions) : ∀ d ∈ ds, d.Regular q positions := by
  intro d hd
  obtain ⟨dealer, tape, rest, log, serves, run, dealt⟩ := h.dealt d hd
  obtain ⟨d', outcome, regular⟩ := dealer.regular_of_deal h.nodup h.length_positions serves run
  rw [dealt] at outcome
  cases outcome
  exact regular

theorem Honest.dealtTo_eq (h : ds.Honest q positions) {k : Nat} {i : Position}
    (hi : positions[k]? = some i) : ds.dealtTo k = ds.map (·.shareFor i) := by
  rw [dealtTo, ← List.filterMap_eq_map]
  apply List.filterMap_congr
  intro d hd
  rw [Dealing.shares, List.getElem?_map, (h.regular d hd).positions_eq, hi]
  rfl

theorem jointConstant_commitments (ds : Round S) :
    Commitment.jointConstant ds.commitments = ds.point := by
  apply Commitment.jointConstant_eq_sum
  apply forall₂_map_map
  intro d _
  exact d.constant?_commitment

variable [S.Lawful]

theorem Honest.combine_eq_ok (h : ds.Honest q positions) {k : Nat} {d : Dealing S} {i : Position}
    (hd : ds[k]? = some d) (hi : positions[k]? = some i) :
    (d.combine ds.keys ds.commitments (ds.dealtTo k)).outcome = .ok (ds.shareAt i) := by
  have regular := h.regular d (List.mem_of_getElem? hd)
  have length : ds.length = d.positions.length := by
    rw [h.length_eq, regular.positions_eq, h.length_positions]
  rw [h.dealtTo_eq hi, Dealing.combine_eq_ok_iff]
  refine ⟨?lengths, ?own, ?committed, ?matching, rfl⟩
  case lengths =>
    simp only [keys, commitments, List.length_map]
    exact ⟨length, length, length⟩
  case own =>
    apply Dealing.ownPosition_eq_ok h.keys_nodup
    · rw [regular.positions_eq, hi]
      rfl
    · rw [keys, List.getElem?_map, hd]
      rfl
  case committed =>
    apply forall₂_map_map
    intro d' hd'
    rw [regular.quorum_eq]
    exact ⟨(h.regular d' hd').length_commitment, d'.constant?_commitment⟩
  case matching =>
    apply forall₂_map_map
    intro d' _
    exact ⟨rfl, d'.matchesCommitment_shareFor i⟩

theorem Honest.jointShares_eq (h : ds.Honest q positions) :
    ds.jointShares = positions.map (.ok <| ds.shareAt ·) := by
  have length : ds.length = positions.length := h.length_eq.trans h.length_positions.symm
  rw [jointShares, List.mapIdx_eq_iff]
  intro k
  rw [List.getElem?_map]
  cases hd : ds[k]? with
  | none =>
    rw [List.getElem?_eq_none (length ▸ List.getElem?_eq_none_iff.1 hd)]
    rfl
  | some d =>
    obtain ⟨hlt, _⟩ := List.getElem?_eq_some_iff.1 hd
    have hi : positions[k]? = some positions[k] := List.getElem?_eq_getElem (length ▸ hlt)
    rw [hi, Option.map_some, Option.map_some, h.combine_eq_ok hd hi]

theorem Honest.opens (h : ds.Honest q positions)
    (encodable : ∀ P : S.Point, P ≠ 0 → ∃ b, S.encode P = .ok b) {tapes : List Bytes}
    (many : tapes.length = ds.length) (long : ∀ tape ∈ tapes, 32 ≤ tape.length) :
    ∃ openings : List (Bytes × Bytes),
      (ds.zip tapes).map (fun e => (S.commitBlinded e.1.key.point).run' e.2) =
        openings.map (some <| .ok ·) ∧
      ∀ d ∈ ds, (d.checkOpenings ds.keys (openings.map (·.2)) (openings.map (·.1))).outcome =
        .ok () := by
  choose c hc using fun (d : Dealing S) (b : Bytes) =>
    Suite.exists_commit encodable d.key.point_ne_zero b
  refine ⟨(ds.zip tapes).map fun e => (c e.1 (e.2.take 32), e.2.take 32), ?_, fun d hd => ?_⟩
  · rw [List.map_map]
    apply List.map_congr_left
    rintro ⟨d, tape⟩ he
    exact Suite.run'_commitBlinded (long tape (List.of_mem_zip he).2) (hc d _)
  · have keys_eq : ds.keys = (ds.zip tapes).map fun e => e.1.key.point := by
      rw [keys]
      conv_lhs => rw [← List.map_fst_zip many.ge, List.map_map]
      rfl
    have length : (ds.zip tapes).length = d.positions.length := by
      rw [List.length_zip, many, min_self, h.length_eq, (h.regular d hd).positions_eq,
        h.length_positions]
    rw [keys_eq, List.map_map, List.map_map]
    exact Dealing.checkOpenings_eq_ok length fun e _ => hc e.1 _

theorem Honest.completes (h : ds.Honest q positions)
    (encodable : ∀ P : S.Point, P ≠ 0 → ∃ b, S.encode P = .ok b) : ds.Completes q positions where
  deals dealer tape rest log serves run := by
    obtain ⟨d, dealt, _⟩ := dealer.regular_of_deal h.nodup h.length_positions serves run
    exact ⟨d, dealt⟩
  opens _ := h.opens encodable
  combines := h.jointShares_eq

theorem eval_jointPolynomial_zero (ds : Round S) :
    (Commitment.jointPolynomial ds.commitments).eval 0 = ds.secret := by
  rw [← Commitment.log_jointConstant, jointConstant_commitments, point, CyclicGroup.log_sum, keys,
    List.map_map, secret]
  congr 1
  exact List.map_congr_left fun d _ => d.key.log_point

theorem value_shareAt (ds : Round S) (i : Position) :
    (ds.shareAt i).value = (Commitment.jointPolynomial ds.commitments).eval (S.abscissa i) := by
  change ((ds.map (·.shareFor i)).map (·.value)).sum = _
  rw [Commitment.eval_jointPolynomial, commitments, List.map_map, List.map_map]
  congr 1
  apply List.map_congr_left
  intro d _
  exact DealtShare.matchesCommitment_iff.1 (d.matchesCommitment_shareFor i)

end Round

end JointSchnorr
