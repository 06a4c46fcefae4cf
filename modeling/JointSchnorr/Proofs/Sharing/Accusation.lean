import JointSchnorr.Proofs.Sharing.Dealing
import JointSchnorr.Proofs.Sharing.JointShare

namespace JointSchnorr.Dealing

variable {S : Suite} {d : Dealing S} {keys : List S.Point} {commitments : List (Commitment S)}
  {shares : List (DealtShare S)}

theorem ownPosition_plain (d : Dealing S) (keys : List S.Point) :
    FailsOnly Error.Plain (d.ownPosition keys) := by
  rw [ownPosition]
  split
  · exact .ok _
  · exact .error trivial

theorem checkCommitments_plain (d : Dealing S) (keys : List S.Point)
    (commitments : List (Commitment S)) :
    FailsOnly Error.Plain (d.checkCommitments keys commitments) := by
  apply FailsOnly.forM
  rintro ⟨dealer, c, P⟩
  exact .bind (c.checkDegree_plain d.quorum) fun _ => .ite (.ok ()) (.error trivial)

theorem combine_eq_badShares_iff {me : Position} {bad : List Position} :
    (d.combine keys commitments shares).outcome = .error (.badShares me bad) ↔
      (keys.length = d.positions.length ∧ commitments.length = d.positions.length ∧
        shares.length = d.positions.length) ∧
      d.ownPosition keys = .ok me ∧ d.checkCommitments keys commitments = .ok () ∧
      d.accused me commitments shares = bad ∧ bad ≠ [] := by
  have sizes : checkSizes d.positions.length [keys.length, commitments.length, shares.length] =
      .ok () ↔ keys.length = d.positions.length ∧ commitments.length = d.positions.length ∧
        shares.length = d.positions.length := by
    rw [checkSizes_eq_ok_iff]
    simp
  rw [outcome_combine, ← sizes]
  constructor
  · intro h
    cases bind_eq_error_iff.1 h with
    | inl h => exact (checkSizes_plain _ _ _ h).elim
    | inr h =>
      obtain ⟨_, sized, h⟩ := h
      cases bind_eq_error_iff.1 h with
      | inl h => exact (ownPosition_plain _ _ _ h).elim
      | inr h =>
        obtain ⟨own, found, h⟩ := h
        cases bind_eq_error_iff.1 h with
        | inl h => exact (checkCommitments_plain _ _ _ _ h).elim
        | inr h =>
          obtain ⟨_, committed, h⟩ := h
          by_cases clean : d.accused own commitments shares = []
          · rw [if_pos clean] at h
            cases h
          · rw [if_neg clean] at h
            cases h
            exact ⟨sized, found, committed, rfl, clean⟩
  · rintro ⟨sized, found, committed, rfl, nonempty⟩
    rw [sized, found]
    change (d.checkCommitments keys commitments >>= _) = _
    rw [committed]
    exact if_neg nonempty

theorem mem_accused_iff (nodup : d.positions.Nodup)
    (hc : commitments.length = d.positions.length) (hs : shares.length = d.positions.length)
    {me dealer : Position} {j : Nat} {c : Commitment S} {s : DealtShare S}
    (hj : d.positions[j]? = some dealer) (hcj : commitments[j]? = some c)
    (hsj : shares[j]? = some s) :
    dealer ∈ d.accused me commitments shares ↔ s.receiver ≠ me ∨ s.matchesCommitment c = false := by
  have entry : (dealer, c, s) ∈ d.positions.zip (commitments.zip shares) :=
    List.mem_of_getElem? (List.getElem?_zip_eq_some.2 ⟨hj, List.getElem?_zip_eq_some.2 ⟨hcj, hsj⟩⟩)
  have dealers : ((d.positions.zip (commitments.zip shares)).map (·.1)).Nodup := by
    rwa [List.map_fst_zip (by rw [List.length_zip, hc, hs, min_self])]
  have unique : ∀ e ∈ d.positions.zip (commitments.zip shares), e.1 = dealer → e = (dealer, c, s) :=
    fun e he same => List.inj_on_of_nodup_map dealers he entry same
  simp only [accused, List.mem_map, List.mem_filter, Bool.or_eq_true, bne_iff_ne,
    Bool.not_eq_true']
  constructor
  · rintro ⟨e, ⟨he, bad⟩, same⟩
    rw [unique e he same] at bad
    exact bad
  · intro bad
    exact ⟨(dealer, c, s), ⟨entry, bad⟩, rfl⟩

variable [S.Lawful]

/-- The party at place `k` of the list has position `me`, and `p` is the first place that lists its
key.  If another dealer announced that key before it, the party acts for that dealer's position and
accuses every dealer that followed the protocol, itself included. -/
theorem combine_for_first_place (nodup : d.positions.Nodup) {k p : Nat} {me i : Position}
    (hk : d.positions[k]? = some me) (hp : d.positions[p]? = some i)
    (own : keys[p]? = some d.key.point) (first : ∀ j < p, keys[j]? ≠ some d.key.point) :
    (i = me ↔ p = k) ∧
    (∀ l, (d.combine keys commitments shares).outcome = .ok l → l.position = i) ∧
    ∀ accuser bad,
      (d.combine keys commitments shares).outcome = .error (.badShares accuser bad) →
      accuser = i ∧ ∀ (j : Nat) (dealer : Position) (d' : Dealing S),
        d.positions[j]? = some dealer → commitments[j]? = some d'.commitment →
        shares[j]? = some (d'.shareFor me) → (dealer ∈ bad ↔ p ≠ k) := by
  have found : d.ownPosition keys = .ok i := ownPosition_eq_ok_of_first hp own first
  have place : i = me ↔ p = k := by
    obtain ⟨hlt, _⟩ := List.getElem?_eq_some_iff.1 hp
    rw [← List.getElem?_inj hlt nodup, hp, hk, Option.some_inj]
  refine ⟨place, ?joint, ?blame⟩
  case joint =>
    intro l h
    obtain ⟨_, position, _⟩ := combine_eq_ok_iff.1 h
    cases position.symm.trans found
    rfl
  case blame =>
    intro accuser bad h
    obtain ⟨⟨_, hc, hs⟩, position, _, rfl, _⟩ := combine_eq_badShares_iff.1 h
    cases position.symm.trans found
    refine ⟨rfl, fun j dealer d' hj hcj hsj => ?_⟩
    have addressed : (d'.shareFor me).receiver ≠ i ↔ p ≠ k := by
      change me ≠ i ↔ p ≠ k
      rw [ne_comm, ne_eq, ne_eq, place]
    rw [mem_accused_iff nodup hc hs hj hcj hsj, d'.matchesCommitment_shareFor me, addressed]
    exact or_iff_left Bool.noConfusion

theorem combine_for_first_place_of_later_copy :
    let G := Suite.seven.power
    let q : Quorum := ⟨3, 2, by decide, by decide⟩
    let other : Dealing Suite.seven := ⟨q, ⟨3, by decide, G 3, rfl⟩, [1], [0, 1, 2]⟩
    let mine : Dealing Suite.seven := ⟨q, ⟨1, by decide, G 1, rfl⟩, [2], [0, 1, 2]⟩
    let keys := [other.key.point, mine.key.point, mine.key.point]
    let commitments := [other.commitment, mine.commitment, mine.commitment]
    let shares := [other.shareFor 1, mine.shareFor 1, ⟨1, 0⟩]
    ∃ bad, (mine.combine keys commitments shares).outcome = .error (.badShares 1 bad) ∧
      0 ∉ bad ∧ 1 ∉ bad := by
  intro G q other mine keys commitments shares
  have run : (mine.combine keys commitments shares).outcome = .error (.badShares 1 [2]) := rfl
  have nodup : mine.positions.Nodup := (by decide : ([0, 1, 2] : List Position).Nodup)
  have place : mine.positions[1]? = some 1 := rfl
  have own : keys[1]? = some mine.key.point := rfl
  have first : ∀ j < 1, keys[j]? ≠ some mine.key.point := by
    intro j hj
    rw [Nat.lt_one_iff.1 hj]
    exact fun h => absurd (Option.some.inj h) (by decide : G 3 ≠ G 1)
  obtain ⟨_, honest⟩ := (combine_for_first_place nodup place place own first).2.2 1 [2] run
  exact ⟨_, run, fun h => (honest 0 0 other rfl rfl rfl).1 h rfl,
    fun h => (honest 1 1 mine rfl rfl rfl).1 h rfl⟩

/-- The first of three dealers copies the key of the second.  The second is at place one and has
dealt as it should, but it answers for position zero and accuses everyone. -/
theorem combine_of_earlier_copy :
    let G := Suite.seven.power
    let q : Quorum := ⟨3, 2, by decide, by decide⟩
    let mine : Dealing Suite.seven := ⟨q, ⟨1, by decide, G 1, rfl⟩, [2], [0, 1, 2]⟩
    let other : Dealing Suite.seven := ⟨q, ⟨3, by decide, G 3, rfl⟩, [1], [0, 1, 2]⟩
    (mine.combine [mine.key.point, mine.key.point, other.key.point]
      [mine.commitment, mine.commitment, other.commitment]
      [⟨1, 0⟩, mine.shareFor 1, other.shareFor 1]).outcome = .error (.badShares 0 [0, 1, 2]) := by
  rfl

end JointSchnorr.Dealing
