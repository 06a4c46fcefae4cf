import JointSchnorr.Cosigning.Session
import JointSchnorr.Proofs.Cosigning.JointKey
import JointSchnorr.Proofs.Group.Residues

namespace JointSchnorr.Session

variable {S : Suite} {signers nonces : List S.Point} {k : SigningKey S} {r : Nonce S}

structure Listed (signers nonces : List S.Point) (k : SigningKey S) (r : Nonce S) : Prop where
  key : k.point ∈ signers
  nonce : r.point ∈ nonces

theorem outcome_start (signers nonces : List S.Point) (k : SigningKey S) (r : Nonce S) :
    (start signers nonces k r).outcome =
      if signers.length ≠ nonces.length then
        .error (.sizeMismatch signers.length nonces.length)
      else if !(signers.contains k.point && nonces.contains r.point) then .error .notMember
      else do
        let a ← S.coefficient signers k.point
        let X ← S.jointKey signers
        let R ← S.jointNonce nonces
        return ⟨k, some r, a, X, R⟩ := by
  simp only [start, Logged.outcome_ite, Logged.outcome_fail, Logged.outcome_bind,
    Logged.outcome_lift, Logged.outcome_emit, Logged.outcome_pure]
  rfl

theorem fields_of_start {s : Session S} (h : (start signers nonces k r).outcome = .ok s) :
    s.nonce = some r ∧ S.jointKey signers = .ok s.jointKey ∧
      S.jointNonce nonces = .ok s.jointNonce := by
  rw [outcome_start] at h
  obtain ⟨_, h⟩ := then_error_eq_ok_iff.1 h
  obtain ⟨_, h⟩ := then_error_eq_ok_iff.1 h
  obtain ⟨_, _, h⟩ := bind_eq_ok_iff.1 h
  obtain ⟨_, key, h⟩ := bind_eq_ok_iff.1 h
  obtain ⟨_, nonce, h⟩ := bind_eq_ok_iff.1 h
  cases h
  exact ⟨rfl, key, nonce⟩

theorem outcome_start_of_not_listed (length : signers.length = nonces.length)
    (h : ¬Listed signers nonces k r) : (start signers nonces k r).outcome = .error .notMember := by
  have missing : (!(signers.contains k.point && nonces.contains r.point)) = true := by
    rw [Bool.not_eq_true', Bool.and_eq_false_iff, ← Bool.not_eq_true, ← Bool.not_eq_true,
      List.contains_iff_mem, List.contains_iff_mem, ← not_and_or]
    exact fun ⟨key, nonce⟩ => h ⟨key, nonce⟩
  rw [outcome_start, if_neg (not_not.2 length), if_pos missing]

def jointPoints (signers nonces : List S.Point) : Except Error (S.Point × S.Point) :=
  if signers.length ≠ nonces.length then .error (.sizeMismatch signers.length nonces.length)
  else return (← S.jointKey signers, ← S.jointNonce nonces)

theorem outcome_start_of_listed (h : Listed signers nonces k r) :
    (start signers nonces k r).outcome =
      (jointPoints signers nonces).map fun P =>
        ⟨k, some r, S.weight signers k.point, P.1, P.2⟩ := by
  have found : (!(signers.contains k.point && nonces.contains r.point)) = false := by
    rw [List.contains_iff_mem.2 h.key, List.contains_iff_mem.2 h.nonce]
    rfl
  rw [outcome_start, jointPoints]
  by_cases length : signers.length = nonces.length
  · rw [if_neg (not_not.2 length), if_neg (not_not.2 length), found, if_neg Bool.false_ne_true,
      Suite.coefficient_bind_jointKey h.key]
    cases S.jointKey signers with
    | error e => rfl
    | ok X => cases S.jointNonce nonces <;> rfl
  · rw [if_pos length, if_pos length]
    rfl

theorem jointPoints_eq_ok_iff {X R : S.Point} :
    jointPoints signers nonces = .ok (X, R) ↔
      signers.length = nonces.length ∧ S.jointKey signers = .ok X ∧
        S.jointNonce nonces = .ok R := by
  rw [jointPoints, then_error_eq_ok_iff, not_not, bind_eq_ok_iff]
  simp only [bind_eq_ok_iff]
  apply and_congr_right
  intro _
  constructor
  · rintro ⟨X', key, R', nonce, h⟩
    cases h
    exact ⟨key, nonce⟩
  · rintro ⟨key, nonce⟩
    exact ⟨X, key, R, nonce, rfl⟩

theorem exists_jointPoints_iff :
    (∃ P, jointPoints signers nonces = .ok P) ↔
      signers.length = nonces.length ∧ (∀ X ∈ signers, ∃ b, S.encode X = .ok b) ∧ 0 ∉ nonces ∧
        S.weightedSum signers ≠ 0 ∧ S.sum nonces ≠ 0 := by
  simp only [Prod.exists, jointPoints_eq_ok_iff, Suite.jointKey_eq_ok_iff,
    Suite.jointNonce_eq_ok_iff]
  constructor
  · rintro ⟨X, R, length, ⟨encodable, rfl, key⟩, nonces, rfl, nonce⟩
    exact ⟨length, encodable, nonces, key, nonce⟩
  · rintro ⟨length, encodable, nonces, key, nonce⟩
    exact ⟨_, _, length, ⟨encodable, rfl, key⟩, nonces, rfl, nonce⟩

theorem exists_start_iff (h : Listed signers nonces k r) :
    (∃ s, (start signers nonces k r).outcome = .ok s) ↔
      ∃ P, jointPoints signers nonces = .ok P := by
  rw [outcome_start_of_listed h]
  cases jointPoints signers nonces <;> simp [Except.map]

/-- Two listed parties get the same joint points or the same error, whatever the lists hold. -/
theorem start_agrees (signers nonces : List S.Point) :
    (∀ (k k' : SigningKey S) (r r' : Nonce S), Listed signers nonces k r →
      Listed signers nonces k' r' →
      (∃ s s', (start signers nonces k r).outcome = .ok s ∧
        (start signers nonces k' r').outcome = .ok s' ∧
        s.jointKey = s'.jointKey ∧ s.jointNonce = s'.jointNonce ∧
        S.jointKey signers = .ok s.jointKey ∧ S.jointNonce nonces = .ok s.jointNonce) ∨
      ∃ e, (start signers nonces k r).outcome = .error e ∧
        (start signers nonces k' r').outcome = .error e) ∧
    (∀ (k : SigningKey S) (r : Nonce S), Listed signers nonces k r →
      ((∃ s, (start signers nonces k r).outcome = .ok s) ↔
        signers.length = nonces.length ∧ (∀ X ∈ signers, ∃ b, S.encode X = .ok b) ∧ 0 ∉ nonces ∧
          S.weightedSum signers ≠ 0 ∧ S.sum nonces ≠ 0)) ∧
    ∀ (k : SigningKey S) (r : Nonce S), signers.length = nonces.length →
      ¬Listed signers nonces k r → (start signers nonces k r).outcome = .error .notMember := by
  refine ⟨?agree, fun k r h => (exists_start_iff h).trans exists_jointPoints_iff,
    fun k r => outcome_start_of_not_listed⟩
  case agree =>
    intro k k' r r' h h'
    rw [outcome_start_of_listed h, outcome_start_of_listed h']
    cases points : jointPoints signers nonces with
    | error e => exact .inr ⟨e, rfl, rfl⟩
    | ok P =>
      obtain ⟨_, key, nonce⟩ := jointPoints_eq_ok_iff.1 points
      exact .inl ⟨_, _, rfl, rfl, rfl, rfl, key, nonce⟩

theorem weightedSum_pair_ne_zero :
    Suite.seven.weightedSum [Suite.seven.power 2, Suite.seven.power 2] ≠ 0 := by
  have weight : Suite.seven.weight [Suite.seven.power 2, Suite.seven.power 2]
      (Suite.seven.power 2) = 3 := by decide +kernel
  simp only [Suite.weightedSum, List.map_cons, List.map_nil, weight]
  decide

theorem start_agrees_of_two :
    let G := Suite.seven.power
    let k : SigningKey Suite.seven := ⟨2, by decide, G 2, rfl⟩
    let r : Nonce Suite.seven := ⟨⟨1, by decide, G 1, rfl⟩⟩
    let r' : Nonce Suite.seven := ⟨⟨3, by decide, G 3, rfl⟩⟩
    let signers := [G 2, G 2]
    let nonces := [G 1, G 3]
    Listed signers nonces k r ∧ Listed signers nonces k r' ∧ ¬Listed signers nonces k ⟨k⟩ ∧
      (∃ s s', (start signers nonces k r).outcome = .ok s ∧
        (start signers nonces k r').outcome = .ok s' ∧
        s.jointKey = s'.jointKey ∧ s.jointNonce = s'.jointNonce) ∧
      (start signers nonces k ⟨k⟩).outcome = .error .notMember := by
  intro G k r r' signers nonces
  have h : Listed signers nonces k r := ⟨.head _, .head _⟩
  have h' : Listed signers nonces k r' := ⟨.head _, .tail _ (.head _)⟩
  have missing : ¬Listed signers nonces k ⟨k⟩ := fun listed =>
    absurd listed.nonce (by decide : G 2 ∉ [G 1, G 3])
  have encodable : ∀ X ∈ signers, ∃ b, Suite.seven.encode X = .ok b :=
    List.forall_mem_cons.2 ⟨⟨_, rfl⟩, List.forall_mem_singleton.2 ⟨_, rfl⟩⟩
  obtain ⟨agree, starts, refuses⟩ := start_agrees signers nonces
  obtain ⟨s, started⟩ := (starts k r h).2 ⟨rfl, encodable, (by decide : 0 ∉ [G 1, G 3]),
    weightedSum_pair_ne_zero, (by decide : Suite.seven.sum [G 1, G 3] ≠ 0)⟩
  refine ⟨h, h', missing, ?_, refuses k ⟨k⟩ rfl missing⟩
  cases agree k k r r' h h' with
  | inl both =>
    obtain ⟨s, s', hs, hs', jointKey, jointNonce, _⟩ := both
    exact ⟨s, s', hs, hs', jointKey, jointNonce⟩
  | inr failed =>
    obtain ⟨e, refused, _⟩ := failed
    cases started.symm.trans refused

end JointSchnorr.Session
