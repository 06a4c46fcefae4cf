import JointSchnorr.Proofs.Sharing.Signing

namespace JointSchnorr

variable {S : Suite} {q : Quorum} {e : S.Scalar} {shares : List (SignatureShare S)}
  {keys nonces : List (Commitment S)} {bad : List Position}

theorem Suite.jointPoint_plain (points : List S.Point) :
    FailsOnly Error.Plain (S.jointPoint points) := .ite (.error trivial) (.ok _)

theorem Suite.lagrange_plain (i : Position) (all : List Position) :
    FailsOnly Error.Plain (S.lagrange i all) := by
  simp only [lagrange]
  split
  · exact .error trivial
  · exact .ok _

theorem Suite.interpolate_plain (points : List (Position × S.Scalar)) :
    FailsOnly Error.Plain (S.interpolate points) :=
  .bind (.mapM (fun _ => .bind (lagrange_plain _ _) fun _ => .ok _) _) fun _ => .ok _

namespace SignatureShare

theorem checkSigners_plain (q : Quorum) (positions : List Position) :
    FailsOnly Error.Plain (checkSigners q positions) :=
  .ite (.error trivial) (.bind (checkDistinct_plain _) fun _ => .ite (.error trivial) (.ok ()))

theorem checkCommitments_plain (q : Quorum) (signers : Nat) (keys nonces : List (Commitment S)) :
    FailsOnly Error.Plain (checkCommitments q signers keys nonces) :=
  .bind (checkSizes_plain _ _) fun _ => .bind (checkSizes_plain _ _) fun _ =>
    .bind (.forM (Commitment.checkDegree_plain · q) _) fun _ =>
      .bind (.forM (Commitment.checkDegree_plain · q) _) fun _ =>
        .bind (Suite.jointPoint_plain _) fun _ => Suite.jointPoint_plain _

theorem reconstruct_eq_badResponses_iff :
    (reconstruct q e shares keys nonces).outcome = .error (.badResponses bad) ↔
      checkSigners q (shares.map (·.position)) = .ok () ∧
      (∃ R, checkCommitments q shares.length keys nonces = .ok R) ∧
      misbehaving e keys nonces shares = bad ∧ bad ≠ [] := by
  rw [outcome_reconstruct]
  constructor
  · intro h
    cases bind_eq_error_iff.1 h with
    | inl h => exact (checkSigners_plain _ _ _ h).elim
    | inr h =>
      obtain ⟨_, signers, h⟩ := h
      cases bind_eq_error_iff.1 h with
      | inl h => exact (checkCommitments_plain _ _ _ _ _ h).elim
      | inr h =>
        obtain ⟨R, committed, h⟩ := h
        by_cases clean : misbehaving e keys nonces shares = []
        · rw [if_pos clean] at h
          exact (((Suite.interpolate_plain _).bind fun _ => .ok _) _ h).elim
        · rw [if_neg clean] at h
          cases h
          exact ⟨signers, ⟨R, committed⟩, rfl, clean⟩
  · rintro ⟨signers, ⟨R, committed⟩, rfl, nonempty⟩
    rw [signers, committed]
    exact if_neg nonempty

theorem not_mem_misbehaving {g : SignatureShare S} (hg : g ∈ shares)
    (nodup : (shares.map (·.position)).Nodup) (valid : g.isValid e keys nonces = true) :
    g.position ∉ misbehaving e keys nonces shares := by
  intro h
  obtain ⟨g', hg', invalid, hp⟩ := mem_misbehaving_iff.1 h
  rw [List.inj_on_of_nodup_map nodup hg' hg hp, valid] at invalid
  cases invalid

end SignatureShare

namespace JointShare

theorem respond_eq_ok {key nonce : JointShare S} {Y V : S.Point} {m : Bytes}
    {g : SignatureShare S} (h : key.respond nonce Y V m = .ok (e, g)) :
    key.position = nonce.position ∧ S.challenge .threshold V Y m = .ok e ∧
      g = ⟨key.position, nonce.value + e * key.value⟩ := by
  rw [respond] at h
  by_cases same : key.position = nonce.position
  · rw [if_neg (not_not.2 same), bind_eq_ok_iff] at h
    obtain ⟨c, hc, h⟩ := h
    cases h
    exact ⟨same, hc, rfl⟩
  · rw [if_pos same] at h
    cases h

variable [S.Lawful] {d r : Dealing S} {keysA keysB : List S.Point} {A B : List (Commitment S)}
  {sharesA sharesB : List (DealtShare S)} {key nonce : JointShare S} {Y V : S.Point} {m : Bytes}
  {g : SignatureShare S}

theorem response_of_respond (hkey : (d.combine keysA A sharesA).outcome = .ok key)
    (hnonce : (r.combine keysB B sharesB).outcome = .ok nonce)
    (hg : key.respond nonce Y V m = .ok (e, g)) (hk : keys.Perm A) (hn : nonces.Perm B) :
    g.response =
      (SignatureShare.responsePolynomial e keys nonces).eval (S.abscissa g.position) := by
  obtain ⟨same, _, rfl⟩ := respond_eq_ok hg
  change nonce.value + e * key.value = _
  rw [SignatureShare.responsePolynomial_perm hk hn, SignatureShare.eval_responsePolynomial,
    Dealing.value_of_combine hkey, Dealing.value_of_combine hnonce, same]

theorem respond_blame (hkey : (d.combine keysA A sharesA).outcome = .ok key)
    (hnonce : (r.combine keysB B sharesB).outcome = .ok nonce)
    (hg : key.respond nonce Y V m = .ok (e, g)) (q : Quorum) (hk : keys.Perm A)
    (hn : nonces.Perm B) (before after : List (SignatureShare S)) :
    (∀ bad, (SignatureShare.reconstruct q e (before ++ g :: after) keys nonces).outcome =
      .error (.badResponses bad) → key.position ∉ bad) ∧
    ∀ response, response ≠ g.response →
      SignatureShare.checkSigners q
        ((before ++ ⟨g.position, response⟩ :: after).map (·.position)) = .ok () →
      (∃ R, SignatureShare.checkCommitments q (before ++ ⟨g.position, response⟩ :: after).length
        keys nonces = .ok R) →
      ∃ bad, (SignatureShare.reconstruct q e (before ++ ⟨g.position, response⟩ :: after) keys
        nonces).outcome = .error (.badResponses bad) ∧ key.position ∈ bad := by
  have value := response_of_respond hkey hnonce hg hk hn
  have position : key.position = g.position := by
    obtain ⟨_, _, rfl⟩ := respond_eq_ok hg
    rfl
  rw [position]
  constructor
  · intro bad h
    obtain ⟨signers, _, rfl, _⟩ := SignatureShare.reconstruct_eq_badResponses_iff.1 h
    obtain ⟨_, nodup, _⟩ := SignatureShare.checkSigners_eq_ok_iff.1 signers
    apply SignatureShare.not_mem_misbehaving _ nodup (SignatureShare.isValid_iff.2 value)
    simp
  · intro response changed signers committed
    let altered : SignatureShare S := ⟨g.position, response⟩
    have invalid : altered.isValid e keys nonces = false := by
      rw [← Bool.not_eq_true, SignatureShare.isValid_iff, ← value]
      exact changed
    have blamed : g.position ∈
        SignatureShare.misbehaving e keys nonces (before ++ altered :: after) :=
      SignatureShare.mem_misbehaving_iff.2 ⟨altered, by simp, invalid, rfl⟩
    exact ⟨_, SignatureShare.reconstruct_eq_badResponses_iff.2
      ⟨signers, committed, rfl, List.ne_nil_of_mem blamed⟩, blamed⟩

theorem respond_blame_of_two :
    let G := Suite.seven.power
    let A : List (Commitment Suite.seven) := [[G 1, G 2], [G 3, G 1], [G 2, G 0]]
    let B : List (Commitment Suite.seven) := [[G 1, G 1], [G 1, G 4]]
    let e := Suite.seven.toScalar (.challenge .threshold) [2, 6]
    (⟨0, 2⟩ : JointShare Suite.seven).respond ⟨0, 0⟩ (G 6) (G 2) [] = .ok (e, ⟨0, 0 + e * 2⟩) ∧
      ∀ response, response ≠ 0 + e * 2 → ∃ bad,
        (SignatureShare.reconstruct ⟨3, 2, by decide, by decide⟩ e [⟨2, 0⟩, ⟨0, response⟩] A
          B.reverse).outcome = .error (.badResponses bad) ∧ 0 ∈ bad := by
  intro G A B e
  have hkey : (Dealing.combine ⟨⟨3, 2, by decide, by decide⟩, ⟨1, by decide, G 1, rfl⟩, [],
      [0, 1, 2]⟩ [G 1, G 3, G 2] A [⟨0, 3⟩, ⟨0, 4⟩, ⟨0, 2⟩]).outcome = .ok ⟨0, 2⟩ := by
    subst G A
    rfl
  have hnonce : (Dealing.combine ⟨⟨2, 2, by decide, by decide⟩, ⟨1, by decide, G 1, rfl⟩, [],
      [0, 2]⟩ [G 1, G 1] B [⟨0, 2⟩, ⟨0, 5⟩]).outcome = .ok ⟨0, 0⟩ := by
    subst G B
    rfl
  have hg : (⟨0, 2⟩ : JointShare Suite.seven).respond ⟨0, 0⟩ (G 6) (G 2) [] =
      .ok (e, ⟨0, 0 + e * 2⟩) := rfl
  refine ⟨hg, fun response changed => ?_⟩
  have blame := respond_blame hkey hnonce hg ⟨3, 2, by decide, by decide⟩ (.refl A)
    B.reverse_perm [⟨2, 0⟩] []
  refine blame.2 response changed rfl ⟨G 2, ?_⟩
  subst G A B
  rfl

end JointShare

end JointSchnorr
