import Mathlib.Data.List.Forall2
import JointSchnorr.Proofs.Group.Residues
import JointSchnorr.Proofs.Sharing.Commitment
import JointSchnorr.Proofs.Sharing.Quorum
import JointSchnorr.Sharing.JointShare

namespace JointSchnorr

variable {S : Suite}

theorem forall₂_map_map {α β γ : Type} {l : List α} {f : α → β} {g : α → γ} {R : β → γ → Prop}
    (h : ∀ a ∈ l, R (f a) (g a)) : (l.map f).Forall₂ R (l.map g) := by
  rw [List.forall₂_map_left_iff, List.forall₂_map_right_iff, List.forall₂_same]
  exact h

theorem forall_mem_zip_iff_forall₂ {α β γ : Type} {as : List α} {bs : List β} {cs : List γ}
    {R : β → γ → Prop} (hb : bs.length = as.length) (hc : cs.length = as.length) :
    (∀ a b c, (a, b, c) ∈ as.zip (bs.zip cs) → R b c) ↔ bs.Forall₂ R cs := by
  have seconds : (as.zip (bs.zip cs)).map Prod.snd = bs.zip cs :=
    List.map_snd_zip (by rw [List.length_zip, hb, hc, min_self])
  rw [List.forall₂_iff_zip]
  constructor
  · intro h
    refine ⟨hb.trans hc.symm, fun {b c} hbc => ?_⟩
    rw [← seconds] at hbc
    obtain ⟨⟨a, _⟩, ha, rfl⟩ := List.mem_map.1 hbc
    exact h a b c ha
  · intro h a b c habc
    exact h.2 (List.of_mem_zip habc).2

namespace Dealing

variable {d : Dealing S} {keys : List S.Point} {commitments : List (Commitment S)}
  {shares : List (DealtShare S)}

theorem ownPosition_eq_ok_of_first {k : Nat} {i : Position} (hi : d.positions[k]? = some i)
    (hk : keys[k]? = some d.key.point) (first : ∀ j < k, keys[j]? ≠ some d.key.point) :
    d.ownPosition keys = .ok i := by
  have entry : (d.positions.zip keys)[k]? = some (i, d.key.point) :=
    List.getElem?_zip_eq_some.2 ⟨hi, hk⟩
  have found : (d.positions.zip keys).find? (fun e => e.2 == d.key.point) =
      some (i, d.key.point) := by
    obtain ⟨hlt, here⟩ := List.getElem?_eq_some_iff.1 entry
    rw [List.find?_eq_some_iff_getElem]
    refine ⟨beq_self_eq_true _, k, hlt, here, fun j hj => ?_⟩
    rw [List.getElem_zip, Bool.not_eq_true', beq_eq_false_iff_ne]
    intro same
    exact first j hj (List.getElem?_eq_some_iff.2 ⟨_, same⟩)
  rw [ownPosition, found]

theorem ownPosition_eq_ok {k : Nat} {i : Position} (nodup : keys.Nodup)
    (hi : d.positions[k]? = some i) (hk : keys[k]? = some d.key.point) :
    d.ownPosition keys = .ok i := by
  apply ownPosition_eq_ok_of_first hi hk
  intro j hj same
  obtain ⟨hlt, _⟩ := List.getElem?_eq_some_iff.1 same
  exact hj.ne ((List.getElem?_inj hlt nodup).1 (same.trans hk.symm))

theorem checkCommitment_eq_ok_iff {q : Quorum} {dealer : Position} {c : Commitment S}
    {P : S.Point} :
    checkCommitment q dealer c P = .ok () ↔
      c.length = q.threshold.toNat ∧ c.constant? = some P := by
  rw [checkCommitment, check_eq_ok_iff, Commitment.checkDegree_eq_ok_iff, else_error_eq_ok_iff]
  exact and_congr_right fun _ => and_iff_left rfl

theorem checkCommitments_eq_ok_iff (hc : commitments.length = d.positions.length)
    (hk : keys.length = d.positions.length) :
    d.checkCommitments keys commitments = .ok () ↔
      commitments.Forall₂ (fun c P => c.length = d.quorum.threshold.toNat ∧ c.constant? = some P)
        keys := by
  rw [checkCommitments, forM_eq_ok_iff, ← forall_mem_zip_iff_forall₂ hc hk]
  simp only [Prod.forall, checkCommitment_eq_ok_iff]

theorem accused_eq_nil_iff {me : Position} (hc : commitments.length = d.positions.length)
    (hs : shares.length = d.positions.length) :
    d.accused me commitments shares = [] ↔
      commitments.Forall₂ (fun c s => s.receiver = me ∧ s.matchesCommitment c = true) shares := by
  rw [accused, List.map_eq_nil_iff, List.filter_eq_nil_iff, ← forall_mem_zip_iff_forall₂ hc hs]
  simp

theorem outcome_combine (d : Dealing S) (keys : List S.Point) (commitments : List (Commitment S))
    (shares : List (DealtShare S)) :
    (d.combine keys commitments shares).outcome = (do
      checkSizes d.positions.length [keys.length, commitments.length, shares.length]
      let me ← d.ownPosition keys
      d.checkCommitments keys commitments
      if d.accused me commitments shares = [] then .ok ⟨me, (shares.map (·.value)).sum⟩
      else .error (.badShares me (d.accused me commitments shares))) := by
  have total : (shares.map (·.value)).sum = shares.foldl (fun sum s => sum + s.value) 0 := by
    rw [List.sum_eq_foldl, List.foldl_map]
  rw [total]
  simp only [combine, Logged.outcome_bind, Logged.outcome_lift, Logged.outcome_emit,
    Logged.outcome_ite, Logged.outcome_fail, Logged.outcome_pure, ne_eq, ite_not]
  rfl

theorem combine_eq_ok_iff {l : JointShare S} :
    (d.combine keys commitments shares).outcome = .ok l ↔
      (keys.length = d.positions.length ∧ commitments.length = d.positions.length ∧
        shares.length = d.positions.length) ∧
      d.ownPosition keys = .ok l.position ∧
      commitments.Forall₂ (fun c P => c.length = d.quorum.threshold.toNat ∧ c.constant? = some P)
        keys ∧
      commitments.Forall₂ (fun c s => s.receiver = l.position ∧ s.matchesCommitment c = true)
        shares ∧
      l.value = (shares.map (·.value)).sum := by
  rw [outcome_combine, check_eq_ok_iff, checkSizes_eq_ok_iff, bind_eq_ok_iff]
  simp only [List.forall_mem_cons, List.not_mem_nil, false_imp_iff, implies_true, and_true]
  apply and_congr_right
  rintro ⟨hk, hc, hs⟩
  simp only [check_eq_ok_iff, checkCommitments_eq_ok_iff hc hk, else_error_eq_ok_iff,
    accused_eq_nil_iff hc hs]
  constructor
  · rintro ⟨me, own, committed, matching, total⟩
    cases total
    exact ⟨own, committed, matching, rfl⟩
  · rintro ⟨own, committed, matching, total⟩
    exact ⟨l.position, own, committed, matching, by rw [← total]⟩

theorem degree_of_combine [S.Lawful] {l : JointShare S}
    (h : (d.combine keys commitments shares).outcome = .ok l) :
    (Commitment.jointPolynomial commitments).degree < d.quorum.threshold.toNat := by
  obtain ⟨_, _, committed, _⟩ := combine_eq_ok_iff.1 h
  exact Commitment.degree_jointPolynomial_lt ((List.forall₂_and_left _ _).1 committed).1

theorem constants_of_combine {l : JointShare S}
    (h : (d.combine keys commitments shares).outcome = .ok l) :
    commitments.Forall₂ (fun c P => c.constant? = some P) keys := by
  obtain ⟨_, _, committed, _⟩ := combine_eq_ok_iff.1 h
  exact ((List.forall₂_and_left _ _).1 committed).2

theorem jointConstant_of_combine {l : JointShare S}
    (h : (d.combine keys commitments shares).outcome = .ok l) :
    Commitment.jointConstant commitments = S.sum keys :=
  Commitment.jointConstant_eq_sum (constants_of_combine h)

theorem value_of_combine [S.Lawful] {l : JointShare S}
    (h : (d.combine keys commitments shares).outcome = .ok l) :
    l.value = (Commitment.jointPolynomial commitments).eval (S.abscissa l.position) := by
  obtain ⟨_, _, _, matching, total⟩ := combine_eq_ok_iff.1 h
  have values : (commitments.map fun c => (Commitment.polynomial c).eval (S.abscissa l.position)) =
      shares.map (·.value) := by
    rw [← List.forall₂_eq_eq_eq, List.forall₂_map_left_iff, List.forall₂_map_right_iff]
    apply matching.imp
    rintro c s ⟨receiver, hs⟩
    rw [← receiver]
    exact (DealtShare.matchesCommitment_iff.1 hs).symm
  rw [total, Commitment.eval_jointPolynomial, values]

end Dealing

namespace JointShare

/-- A party of this quorum and these positions gets `l` from the keys and the commitments that all
of them see, and from shares that may be known to no one else. -/
def Obtained (q : Quorum) (positions : List Position) (keys : List S.Point)
    (commitments : List (Commitment S)) (l : JointShare S) : Prop :=
  ∃ (d : Dealing S) (shares : List (DealtShare S)), d.quorum = q ∧ d.positions = positions ∧
    (d.combine keys commitments shares).outcome = .ok l

variable [S.Lawful]

theorem point_eq_jointValue {d : Dealing S} {keys : List S.Point}
    {commitments : List (Commitment S)} {shares : List (DealtShare S)} {l : JointShare S}
    (h : (d.combine keys commitments shares).outcome = .ok l) :
    l.point = Commitment.jointValue l.position commitments := by
  rw [CyclicGroup.eq_iff_log_eq, Commitment.log_jointValue, ← Dealing.value_of_combine h]
  exact CyclicGroup.log_power l.value

theorem agreement (q : Quorum) (positions : List Position) (keys : List S.Point)
    (commitments : List (Commitment S)) :
    (∀ l : JointShare S, l.Obtained q positions keys commitments →
      l.point = Commitment.jointValue l.position commitments) ∧
    ∃ y, S.power y = S.sum keys ∧ ∀ ls : List (JointShare S),
      (∀ l ∈ ls, l.Obtained q positions keys commitments) → q.threshold.toNat ≤ ls.length →
      (ls.map fun l => S.abscissa l.position).Nodup →
      S.interpolate (ls.map fun l => (l.position, l.value)) = .ok y := by
  refine ⟨fun l ⟨d, shares, _, _, h⟩ => point_eq_jointValue h, S.log (S.sum keys),
    CyclicGroup.power_log _, ?_⟩
  intro ls obtained enough distinct
  have pos : 0 < ls.length := q.threshold_toNat_pos.trans_le enough
  -- a single party's checks already fix the degree and the value at zero
  obtain ⟨d, shares, rfl, _, h⟩ := obtained ls[0] (List.getElem_mem pos)
  rw [← Dealing.jointConstant_of_combine h, Commitment.log_jointConstant]
  apply Suite.interpolate_eq_ok
  · rwa [List.map_map]
  · apply (Dealing.degree_of_combine h).trans_le
    rw [List.length_map]
    exact_mod_cast enough
  · intro p hp
    obtain ⟨l, hl, rfl⟩ := List.mem_map.1 hp
    obtain ⟨d, shares, _, _, h⟩ := obtained l hl
    exact Dealing.value_of_combine h

theorem agreement_of_three :
    let G := Suite.seven.power
    let q : Quorum := ⟨3, 2, by decide, by decide⟩
    let keys := [G 1, G 3, G 2]
    let commitments : List (Commitment Suite.seven) := [[G 1, G 2], [G 3, G 1], [G 2, G 0]]
    (∀ l ∈ [⟨0, 2⟩, ⟨1, 5⟩, ⟨2, 1⟩], JointShare.Obtained q [0, 1, 2] keys commitments l) ∧
      ∃ y, G y = Suite.seven.sum keys ∧
        Suite.seven.interpolate [(0, 2), (1, 5)] = .ok y ∧
        Suite.seven.interpolate [(2, 1), (0, 2)] = .ok y := by
  intro G q keys commitments
  have obtained : ∀ l ∈ [⟨0, 2⟩, ⟨1, 5⟩, ⟨2, 1⟩],
      JointShare.Obtained q [0, 1, 2] keys commitments l := by
    subst G q keys commitments
    simp only [List.forall_mem_cons]
    refine ⟨⟨⟨_, ⟨1, by decide, _, rfl⟩, [], _⟩, [⟨0, 3⟩, ⟨0, 4⟩, ⟨0, 2⟩], rfl, rfl, rfl⟩,
      ⟨⟨_, ⟨3, by decide, _, rfl⟩, [], _⟩, [⟨1, 5⟩, ⟨1, 5⟩, ⟨1, 2⟩], rfl, rfl, rfl⟩,
      ⟨⟨_, ⟨2, by decide, _, rfl⟩, [], _⟩, [⟨2, 0⟩, ⟨2, 6⟩, ⟨2, 2⟩], rfl, rfl, rfl⟩, by simp⟩
  obtain ⟨_, y, hy, h⟩ := agreement q [0, 1, 2] keys commitments
  refine ⟨obtained, y, hy, h [⟨0, 2⟩, ⟨1, 5⟩] ?_ (by decide) (by decide),
    h [⟨2, 1⟩, ⟨0, 2⟩] ?_ (by decide) (by decide)⟩
  all_goals
    intro l hl
    exact obtained l (by simp at hl ⊢; tauto)

end JointShare

end JointSchnorr
