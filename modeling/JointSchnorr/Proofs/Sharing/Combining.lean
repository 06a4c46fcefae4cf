import JointSchnorr.Proofs.Sharing.Accusation

namespace JointSchnorr.Dealing

variable {S : Suite}

def listedAs (d : Dealing S) (keys : List S.Point) : Position :=
  (d.positions[keys.idxOf d.key.point]?).getD 0

def misfit (q : Quorum) (dealer : Position) (c : Commitment S) (P : S.Point) : Option Error :=
  (Commitment.wrongDegree q c).or (refuseIf (c.constant? ≠ some P) (.constantTerm dealer))

def cheaters (dealers : List Position) (me : Position) (commitments : List (Commitment S))
    (shares : List (DealtShare S)) : List Position :=
  ((dealers.zip (commitments.zip shares)).filter fun e =>
    e.2.2.receiver ≠ me ∨ S.power e.2.2.value ≠ e.2.1.valueAt (S.abscissa me)).map (·.1)

def exchanged (dealers : List Position) (shares shares' : List (DealtShare S)) : List Position :=
  ((dealers.zip (shares.zip shares')).filter fun e => e.2.2.value ≠ e.2.1.value).map (·.1)

def refusals (d : Dealing S) (keys : List S.Point) (commitments : List (Commitment S))
    (shares : List (DealtShare S)) : List (Option Error) :=
  let me := d.listedAs keys
  let bad := cheaters d.positions me commitments shares
  [keys.length, commitments.length, shares.length].map (wrongSize d.positions.length) ++
    [refuseIf (d.key.point ∉ keys) .notMember,
      (d.positions.zip (commitments.zip keys)).findSome? fun e => misfit d.quorum e.1 e.2.1 e.2.2,
      refuseIf (bad ≠ []) (.badShares me bad)]

variable {d : Dealing S} {keys : List S.Point} {commitments : List (Commitment S)}
  {shares : List (DealtShare S)}

theorem ownPosition_eq (length : keys.length = d.positions.length) :
    d.ownPosition keys =
      settle [refuseIf (d.key.point ∉ keys) .notMember] (d.listedAs keys) := by
  by_cases listed : d.key.point ∈ keys
  · have own := List.getElem?_idxOf listed
    obtain ⟨here, _⟩ := List.getElem?_eq_some_iff.1 own
    have me := List.getElem?_eq_getElem (length ▸ here)
    -- an earlier copy of the key would be in a prefix that ends before its first index
    have first : ∀ j < keys.idxOf d.key.point, keys[j]? ≠ some d.key.point := by
      intro j hj same
      have early : d.key.point ∈ keys.take (j + 1) :=
        List.mem_of_getElem? ((List.getElem?_take_of_lt (Nat.lt_succ_self j)).trans same)
      exact absurd ((List.mem_take_iff_idxOf_lt listed).1 early) (by omega)
    rw [refuseIf, if_neg (not_not.2 listed), settle_none, settle_nil, listedAs, me,
      Option.getD_some]
    exact ownPosition_eq_ok_of_first me own first
  · have missing : (d.positions.zip keys).find? (fun e => e.2 == d.key.point) = none := by
      rw [List.find?_eq_none]
      rintro ⟨i, P⟩ entry same
      exact listed (beq_iff_eq.1 same ▸ (List.of_mem_zip entry).2)
    rw [refuseIf, if_pos listed, settle_some, ownPosition, missing]

theorem checkCommitment_eq (q : Quorum) (dealer : Position) (c : Commitment S) (P : S.Point) :
    checkCommitment q dealer c P = settle [misfit q dealer c P] () := by
  rw [checkCommitment, Commitment.checkDegree_eq, misfit, settle_or]
  apply settle_cons_bind
  intro _
  rw [← ite_not]
  exact ite_error_eq_settle fun _ => rfl

theorem eq_of_exchanged_eq_nil {dealers : List Position} {shares' : List (DealtShare S)}
    (length : shares.length ≤ dealers.length)
    (receivers : shares'.map (·.receiver) = shares.map (·.receiver))
    (kept : exchanged dealers shares shares' = []) : shares' = shares := by
  induction shares generalizing dealers shares' with
  | nil => exact List.map_eq_nil_iff.1 receivers
  | cons s shares ih =>
    obtain ⟨s', shares', rfl, receiver, receivers⟩ := List.map_eq_cons_iff.1 receivers
    cases dealers with
    | nil => exact absurd length (Nat.not_succ_le_zero _)
    | cons i dealers =>
      rw [exchanged, List.map_eq_nil_iff, List.zip_cons_cons, List.zip_cons_cons,
        List.filter_eq_nil_iff, List.forall_mem_cons, ← List.filter_eq_nil_iff,
        ← List.map_eq_nil_iff] at kept
      have value : s'.value = s.value := by simpa using kept.1
      rw [ih (Nat.le_of_succ_le_succ length) receivers kept.2]
      cases s
      cases s'
      cases receiver
      cases value
      rfl

variable [S.Lawful]

theorem accused_eq_cheaters (d : Dealing S) (me : Position) (commitments : List (Commitment S))
    (shares : List (DealtShare S)) :
    d.accused me commitments shares = cheaters d.positions me commitments shares := by
  rw [accused, cheaters]
  congr 1
  apply List.filter_congr
  rintro ⟨dealer, c, s⟩ _
  by_cases receiver : s.receiver = me
  · simp [receiver, DealtShare.matchesCommitment, Commitment.evaluateHidden_eq_valueAt, bne,
      beq_eq_decide]
  · simp [receiver]

theorem outcome_combine_eq (d : Dealing S) (keys : List S.Point)
    (commitments : List (Commitment S)) (shares : List (DealtShare S)) :
    (d.combine keys commitments shares).outcome =
      settle (d.refusals keys commitments shares)
        ⟨d.listedAs keys, (shares.map (·.value)).sum⟩ := by
  rw [outcome_combine, checkSizes_eq, refusals]
  apply settle_bind
  intro sized
  have length : keys.length = d.positions.length :=
    wrongSize_eq_none_iff.1 (sized _ List.mem_cons_self)
  rw [ownPosition_eq length]
  apply settle_cons_bind
  intro _
  rw [checkCommitments]
  simp only [checkCommitment_eq]
  rw [forM_settle]
  apply settle_cons_bind
  intro _
  rw [← ite_not, accused_eq_cheaters]
  exact ite_error_eq_settle fun _ => rfl

theorem cheaters_eq_exchanged {dealers : List Position} {me : Position}
    {shares' : List (DealtShare S)}
    (matching : commitments.Forall₂ (fun c s => s.receiver = me ∧ s.matchesCommitment c = true)
      shares)
    (receivers : shares'.map (·.receiver) = shares.map (·.receiver)) :
    cheaters dealers me commitments shares' = exchanged dealers shares shares' := by
  induction matching generalizing dealers shares' with
  | nil =>
    cases List.map_eq_nil_iff.1 receivers
    cases dealers <;> rfl
  | @cons c s commitments shares own _ ih =>
    obtain ⟨s', shares', rfl, receiver, receivers⟩ := List.map_eq_cons_iff.1 receivers
    cases dealers with
    | nil => rfl
    | cons i dealers =>
      obtain ⟨rfl, value⟩ := own
      rw [DealtShare.matchesCommitment, beq_iff_eq, Commitment.evaluateHidden_eq_valueAt] at value
      have wrong : s'.receiver ≠ s.receiver ∨ S.power s'.value ≠ c.valueAt (S.abscissa s.receiver) ↔
          s'.value ≠ s.value := by
        rw [← value, receiver, CyclicGroup.power_injective.ne_iff]
        exact or_iff_right fun h => h rfl
      have rest : cheaters dealers s.receiver commitments shares' =
          exchanged dealers shares shares' := ih receivers
      rw [cheaters, exchanged] at rest
      simp only [cheaters, exchanged, List.zip_cons_cons, List.filter_cons, wrong]
      split
      · rw [List.map_cons, List.map_cons, rest]
      · exact rest

/-- The first refusal that applies decides.  Where none does, exchanging some of the values gets
exactly their dealers accused. -/
theorem combine_exact (d : Dealing S) (keys : List S.Point) (commitments : List (Commitment S))
    (shares : List (DealtShare S)) :
    (d.combine keys commitments shares).outcome =
      settle (d.refusals keys commitments shares) ⟨d.listedAs keys, (shares.map (·.value)).sum⟩ ∧
    ∀ l, (d.combine keys commitments shares).outcome = .ok l →
      ∀ shares', shares'.map (·.receiver) = shares.map (·.receiver) → shares' ≠ shares →
        (d.combine keys commitments shares').outcome =
          .error (.badShares l.position (exchanged d.positions shares shares')) := by
  refine ⟨outcome_combine_eq d keys commitments shares, ?_⟩
  intro l h shares' receivers changed
  obtain ⟨⟨hk, hc, hs⟩, own, committed, matching, _⟩ := combine_eq_ok_iff.1 h
  have hs' : shares'.length = d.positions.length := by
    rw [← hs, ← List.length_map (·.receiver), receivers, List.length_map]
  have blamed : d.accused l.position commitments shares' = exchanged d.positions shares shares' :=
    (accused_eq_cheaters d _ _ _).trans (cheaters_eq_exchanged matching receivers)
  exact combine_eq_badShares_iff.2 ⟨⟨hk, hc, hs'⟩, own,
    (checkCommitments_eq_ok_iff hc hk).2 committed, blamed,
    mt (eq_of_exchanged_eq_nil hs.le receivers) changed⟩

theorem combine_exact_of_three :
    let G := Suite.seven.power
    let d : Dealing Suite.seven :=
      ⟨⟨3, 2, by decide, by decide⟩, ⟨1, by decide, G 1, rfl⟩, [2], [0, 1, 2]⟩
    let keys := [G 1, G 3, G 2]
    let commitments : List (Commitment Suite.seven) := [[G 1, G 2], [G 3, G 1], [G 2, G 0]]
    (d.combine keys commitments [⟨0, 3⟩, ⟨0, 4⟩, ⟨0, 2⟩]).outcome = .ok ⟨0, 2⟩ ∧
      (d.combine keys commitments [⟨0, 3⟩, ⟨0, 5⟩, ⟨0, 0⟩]).outcome =
        .error (.badShares 0 [1, 2]) := by
  intro G d keys commitments
  have run : (d.combine keys commitments [⟨0, 3⟩, ⟨0, 4⟩, ⟨0, 2⟩]).outcome = .ok ⟨0, 2⟩ :=
    (combine_exact d keys commitments [⟨0, 3⟩, ⟨0, 4⟩, ⟨0, 2⟩]).1.trans (by
      subst G d keys commitments
      rfl)
  refine ⟨run, (combine_exact d keys commitments _).2 _ run [⟨0, 3⟩, ⟨0, 5⟩, ⟨0, 0⟩] rfl ?_⟩
  intro same
  cases same

end JointSchnorr.Dealing
