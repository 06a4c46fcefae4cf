import JointSchnorr.Proofs.Cosigning.Agreement
import JointSchnorr.Proofs.Signature

namespace JointSchnorr

variable {S : Suite}

/-- How responses are added up two at a time, each pair by the session of some party. -/
inductive Merging (S : Suite)
  | response (z : S.Scalar)
  | merge (s : Session S) (a b : Merging S)

namespace Merging

def total : Merging S → S.Scalar
  | response z => z
  | merge s a b => (s.add a.total b.total).response

def responses : Merging S → List S.Scalar
  | response z => [z]
  | merge _ a b => a.responses ++ b.responses

theorem total_eq_sum (t : Merging S) : t.total = t.responses.sum := by
  induction t with
  | response z => exact List.sum_singleton.symm
  | merge s a b iha ihb =>
    change a.total + b.total = (a.responses ++ b.responses).sum
    rw [iha, ihb, List.sum_append]

end Merging

namespace Session

inductive Combines (s : Session S) (zs : List S.Scalar) : Signature S → Prop
  | all (order : List S.Scalar) : order.Perm zs → Combines s zs (s.combine order)
  | pairs (a b : Merging S) :
      (a.responses ++ b.responses).Perm zs → Combines s zs (s.add a.total b.total)

theorem combine_eq (s : Session S) (zs : List S.Scalar) :
    s.combine zs = ⟨s.jointNonce, zs.sum⟩ := by
  rw [List.sum_eq_foldl]
  rfl

theorem Combines.eq {s : Session S} {zs : List S.Scalar} {g : Signature S} (h : s.Combines zs g) :
    g = ⟨s.jointNonce, zs.sum⟩ := by
  cases h with
  | all order perm => rw [combine_eq, perm.sum_eq]
  | pairs a b perm =>
    change (⟨s.jointNonce, a.total + b.total⟩ : Signature S) = _
    rw [a.total_eq_sum, b.total_eq_sum, ← List.sum_append, perm.sum_eq]

end Session

abbrev Cosigners (S : Suite) := List (SigningKey S × Nonce S)

namespace Cosigners

variable (ps : Cosigners S)

def keys : List S.Point := ps.map (·.1.point)

def nonces : List S.Point := ps.map (·.2.point)

def jointKey : S.Point := S.weightedSum ps.keys

def jointNonce : S.Point := S.sum ps.nonces

def session (p : SigningKey S × Nonce S) : Session S :=
  ⟨p.1, some p.2, S.weight ps.keys p.1.point, ps.jointKey, ps.jointNonce⟩

def response (c : S.Scalar) (p : SigningKey S × Nonce S) : S.Scalar :=
  p.2.secret + c * S.weight ps.keys p.1.point * p.1.secret

variable {ps}

theorem listed_of_mem {p : SigningKey S × Nonce S} (hp : p ∈ ps) :
    Session.Listed ps.keys ps.nonces p.1 p.2 :=
  ⟨List.mem_map_of_mem hp, List.mem_map_of_mem hp⟩

variable [S.Lawful]

theorem jointPoints_eq_ok (encodable : ∀ P : S.Point, P ≠ 0 → ∃ b, S.encode P = .ok b)
    (key : ps.jointKey ≠ 0) (nonce : ps.jointNonce ≠ 0) :
    Session.jointPoints ps.keys ps.nonces = .ok (ps.jointKey, ps.jointNonce) := by
  rw [Session.jointPoints_eq_ok_iff, Suite.jointKey_eq_ok_iff, Suite.jointNonce_eq_ok_iff]
  refine ⟨?lengths, ⟨?written, rfl, key⟩, ?nonzero, rfl, nonce⟩
  case lengths => rw [keys, nonces, List.length_map, List.length_map]
  case written =>
    intro X hX
    obtain ⟨p, _, rfl⟩ := List.mem_map.1 hX
    exact encodable _ p.1.point_ne_zero
  case nonzero =>
    intro h
    obtain ⟨p, _, hp⟩ := List.mem_map.1 h
    exact p.2.point_ne_zero hp

theorem start_eq_ok (encodable : ∀ P : S.Point, P ≠ 0 → ∃ b, S.encode P = .ok b)
    (key : ps.jointKey ≠ 0) (nonce : ps.jointNonce ≠ 0) {p : SigningKey S × Nonce S} (hp : p ∈ ps) :
    (Session.start ps.keys ps.nonces p.1 p.2).outcome = .ok (ps.session p) := by
  rw [Session.outcome_start_of_listed (listed_of_mem hp), jointPoints_eq_ok encodable key nonce]
  rfl

theorem log_jointKey (ps : Cosigners S) :
    S.log ps.jointKey = (ps.map fun p => S.weight ps.keys p.1.point * p.1.secret).sum := by
  rw [jointKey, Suite.weightedSum, CyclicGroup.log_sum, List.map_map]
  conv_lhs => rw [keys, List.map_map]
  congr 1
  apply List.map_congr_left
  intro p _
  change S.log (S.weight ps.keys p.1.point • p.1.point) = _
  rw [CyclicGroup.log_smul, p.1.log_point]

theorem log_jointNonce (ps : Cosigners S) : S.log ps.jointNonce = (ps.map (·.2.secret)).sum := by
  rw [jointNonce, CyclicGroup.log_sum, nonces, List.map_map]
  congr 1
  exact List.map_congr_left fun p _ => p.2.log_point

theorem sum_responses (ps : Cosigners S) (c : S.Scalar) :
    (ps.map (ps.response c)).sum = S.log (ps.jointNonce + c • ps.jointKey) := by
  calc
    (ps.map (ps.response c)).sum
      = (ps.map fun p => p.2.secret + c * (S.weight ps.keys p.1.point * p.1.secret)).sum := by
        congr 1
        apply List.map_congr_left
        intro p _
        rw [response, mul_assoc]
    _ = (ps.map (·.2.secret)).sum +
          c * (ps.map fun p => S.weight ps.keys p.1.point * p.1.secret).sum := by
        rw [List.sum_map_add, List.sum_map_mul_left]
    _ = S.log (ps.jointNonce + c • ps.jointKey) := by
        rw [CyclicGroup.log_add, CyclicGroup.log_smul, log_jointNonce, log_jointKey]

theorem verify_part {c : S.Scalar} {m : Bytes} {kept omitted : List S.Scalar}
    (challenge : S.challenge .aggregate ps.jointNonce ps.jointKey m = .ok c)
    (perm : (kept ++ omitted).Perm (ps.map (ps.response c))) :
    (⟨ps.jointNonce, kept.sum⟩ : Signature S).verify .aggregate ps.jointKey m =
      if omitted.sum = 0 then .ok () else .error .badSignature := by
  have total : S.log (ps.jointNonce + c • ps.jointKey) = kept.sum + omitted.sum := by
    rw [← sum_responses, ← perm.sum_eq, List.sum_append]
  have equation : S.power kept.sum = ps.jointNonce + c • ps.jointKey ↔ omitted.sum = 0 := by
    rw [CyclicGroup.eq_iff_log_eq, CyclicGroup.log_power, total, left_eq_add]
  rw [Signature.verify_eq challenge]
  simp only [equation]

/-- All signers get a session and answer, and all who add up the answers get the same signature. -/
theorem cosign_complete (encodable : ∀ P : S.Point, P ≠ 0 → ∃ b, S.encode P = .ok b)
    (ps : Cosigners S) (key : ps.jointKey ≠ 0) (nonce : ps.jointNonce ≠ 0) (m : Bytes) :
    S.jointKey ps.keys = .ok ps.jointKey ∧ S.jointNonce ps.nonces = .ok ps.jointNonce ∧
    ∃ (session : SigningKey S × Nonce S → Session S) (z : SigningKey S × Nonce S → S.Scalar)
      (g : Signature S),
      (∀ p ∈ ps, (Session.start ps.keys ps.nonces p.1 p.2).outcome = .ok (session p) ∧
        ((session p).respond m).1 = .ok (z p)) ∧
      g.nonce = ps.jointNonce ∧ g.verify .aggregate ps.jointKey m = .ok () ∧
      ∀ p ∈ ps, ∀ s, s = session p ∨ s = ((session p).respond m).2 →
        s.jointKey = ps.jointKey ∧
        (∀ g', s.Combines (ps.map z) g' → g' = g) ∧
        ∀ kept omitted g', (kept ++ omitted).Perm (ps.map z) → s.Combines kept g' →
          g'.verify .aggregate ps.jointKey m =
            if omitted.sum = 0 then .ok () else .error .badSignature := by
  obtain ⟨c, challenge⟩ := Suite.exists_challenge encodable .aggregate nonce key m
  obtain ⟨_, jointKey, jointNonce⟩ := Session.jointPoints_eq_ok_iff.1
    (jointPoints_eq_ok encodable key nonce)
  refine ⟨jointKey, jointNonce, ps.session, ps.response c,
    ⟨ps.jointNonce, (ps.map (ps.response c)).sum⟩, ?starts, rfl, ?verifies, ?combines⟩
  case starts =>
    intro p hp
    refine ⟨start_eq_ok encodable key nonce hp, ?_⟩
    have fresh : (ps.session p).nonce = some p.2 := rfl
    rw [Session.respond_of_challenge fresh challenge]
    rfl
  case verifies =>
    have whole : (ps.map (ps.response c) ++ []).Perm (ps.map (ps.response c)) :=
      .of_eq (List.append_nil _)
    rw [verify_part challenge whole]
    rfl
  case combines =>
    intro p _ s hs
    have key : s.jointKey = ps.jointKey := by
      obtain rfl | rfl := hs
      · rfl
      · exact Session.jointKey_respond _ m
    have nonce : s.jointNonce = ps.jointNonce := by
      obtain rfl | rfl := hs
      · rfl
      · exact Session.jointNonce_respond _ m
    refine ⟨key, ?_, ?_⟩
    · intro g' h
      rw [h.eq, nonce]
    · intro kept omitted g' perm h
      rw [h.eq, nonce, verify_part challenge perm]

theorem cosign_complete_of_two :
    let G := Suite.seven.power
    let k : SigningKey Suite.seven := ⟨2, by decide, G 2, rfl⟩
    let p : SigningKey Suite.seven × Nonce Suite.seven := (k, ⟨⟨1, by decide, G 1, rfl⟩⟩)
    let p' : SigningKey Suite.seven × Nonce Suite.seven := (k, ⟨⟨3, by decide, G 3, rfl⟩⟩)
    let ps : Cosigners Suite.seven := [p, p']
    ps.jointKey ≠ 0 ∧ ps.jointNonce ≠ 0 ∧ ∃ s s' z z',
      (Session.start ps.keys ps.nonces k p.2).outcome = .ok s ∧ (s.respond []).1 = .ok z ∧
      (Session.start ps.keys ps.nonces k p'.2).outcome = .ok s' ∧ (s'.respond []).1 = .ok z' ∧
      (s.add z' z).verify .aggregate ps.jointKey [] = .ok () ∧
      (s'.combine [z]).verify .aggregate ps.jointKey [] =
        if z' = 0 then .ok () else .error .badSignature := by
  intro G k p p' ps
  have key : ps.jointKey ≠ 0 := Session.weightedSum_pair_ne_zero
  have nonce : ps.jointNonce ≠ 0 := (by decide : Suite.seven.sum [G 1, G 3] ≠ 0)
  obtain ⟨_, _, session, z, g, starts, _, verifies, combines⟩ :=
    cosign_complete (S := Suite.seven) Suite.exists_encode_residues ps key nonce []
  have first : p ∈ ps := .head _
  have second : p' ∈ ps := .tail _ (.head _)
  refine ⟨key, nonce, session p, session p', z p, z p', (starts p first).1, (starts p first).2,
    (starts p' second).1, (starts p' second).2, ?_, ?_⟩
  · obtain ⟨_, whole, _⟩ := combines p first (session p) (.inl rfl)
    have sum : (session p).add (z p') (z p) = g :=
      whole _ (.pairs (.response (z p')) (.response (z p)) (.swap _ _ []))
    rw [sum, verifies]
  · obtain ⟨_, _, parts⟩ := combines p' second (session p') (.inl rfl)
    rw [parts [z p] [z p'] _ (.refl _) (.all [z p] (.refl _)), List.sum_singleton]

end Cosigners

end JointSchnorr
