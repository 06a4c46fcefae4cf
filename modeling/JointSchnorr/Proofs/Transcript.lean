import JointSchnorr.Proofs.Outcome
import JointSchnorr.Proofs.Tape
import JointSchnorr.SigningKey

namespace JointSchnorr.Suite

variable {S : Suite}

theorem challenge_eq {R P : S.Point} {r p : Bytes} (hR : S.encode R = .ok r)
    (hP : S.encode P = .ok p) (scheme : Scheme) (m : Bytes) :
    S.challenge scheme R P m = .ok (S.toScalar (.challenge scheme) (r ++ p ++ m)) := by
  rw [challenge, Query.scalar, Query.transcript, hR, hP]
  rfl

theorem exists_challenge (encodable : ∀ P : S.Point, P ≠ 0 → ∃ b, S.encode P = .ok b)
    (scheme : Scheme) {R P : S.Point} (hR : R ≠ 0) (hP : P ≠ 0) (m : Bytes) :
    ∃ e, S.challenge scheme R P m = .ok e := by
  obtain ⟨r, hr⟩ := encodable R hR
  obtain ⟨p, hp⟩ := encodable P hP
  exact ⟨_, challenge_eq hr hp scheme m⟩

theorem exists_encode_of_challenge {scheme : Scheme} {R P : S.Point} {m : Bytes} {e : S.Scalar}
    (h : S.challenge scheme R P m = .ok e) :
    (∃ r, S.encode R = .ok r) ∧ ∃ p, S.encode P = .ok p := by
  obtain ⟨_, transcript, _⟩ := map_eq_ok_iff.1 h
  obtain ⟨r, hR, transcript⟩ := bind_eq_ok_iff.1 transcript
  obtain ⟨p, hP, _⟩ := bind_eq_ok_iff.1 transcript
  exact ⟨⟨r, hR⟩, p, hP⟩

theorem commit_eq (P : S.Point) (b : Bytes) :
    S.commit P b = (S.encode P).map fun p => S.toCommitment (p ++ b) := by
  rw [commit, Query.transcript]
  cases S.encode P <;> rfl

theorem exists_commit (encodable : ∀ P : S.Point, P ≠ 0 → ∃ b, S.encode P = .ok b)
    {P : S.Point} (hP : P ≠ 0) (b : Bytes) : ∃ c, S.commit P b = .ok c := by
  obtain ⟨p, hp⟩ := encodable P hP
  rw [commit_eq, hp]
  exact ⟨_, rfl⟩

theorem run'_commitBlinded {P : S.Point} {tape c : Bytes} (long : 32 ≤ tape.length)
    (committed : S.commit P (tape.take 32) = .ok c) :
    (S.commitBlinded P).run' tape = some (.ok (c, tape.take 32)) := by
  change ((blind tape).bind _).map _ = _
  rw [blind_eq_some long, Option.bind_some]
  change some ((S.commit P (tape.take 32)).map _) = _
  rw [committed]
  rfl

end JointSchnorr.Suite
