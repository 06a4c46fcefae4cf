import JointSchnorr.Cosigning.JointKey
import JointSchnorr.Event
import JointSchnorr.Signature

namespace JointSchnorr

structure Session (S : Suite) where
  key : SigningKey S
  /-- What is left of the nonce: none of it after an answer. -/
  nonce : Option (Nonce S)
  coefficient : S.Scalar
  jointKey : S.Point
  jointNonce : S.Point

namespace Session

variable {S : Suite}

def start (signers nonces : List S.Point) (k : SigningKey S) (r : Nonce S) :
    Logged (Session S) := do
  if signers.length ≠ nonces.length then
    Logged.fail (.sizeMismatch signers.length nonces.length)
  else if !(signers.contains k.point && nonces.contains r.point) then
    Logged.fail .notMember
  else
    let a ← S.coefficient signers k.point
    let X ← S.jointKey signers
    let R ← S.jointNonce nonces
    Logged.emit [.sessionReady signers.length]
    return ⟨k, some r, a, X, R⟩

def spent (s : Session S) : Bool := s.nonce.isNone

def respond (s : Session S) (m : Bytes) : Except Error S.Scalar × Session S :=
  match s.nonce with
  | none => (.error .nonceSpent, s)
  | some r =>
    match S.challenge .aggregate s.jointNonce s.jointKey m with
    | .error e => (.error e, s)
    | .ok c => (.ok (r.secret + c * s.coefficient * s.key.secret), { s with nonce := none })

theorem respond_of_spent {s : Session S} (h : s.nonce = none) (m : Bytes) :
    s.respond m = (.error .nonceSpent, s) := by
  rw [respond, h]

theorem respond_of_challenge {s : Session S} {r : Nonce S} {m : Bytes} {c : S.Scalar}
    (h : s.nonce = some r) (challenge : S.challenge .aggregate s.jointNonce s.jointKey m = .ok c) :
    s.respond m =
      (.ok (r.secret + c * s.coefficient * s.key.secret), { s with nonce := none }) := by
  rw [respond, h]
  simp only [challenge]

theorem respond_cases (s : Session S) (m : Bytes) :
    (∃ e, s.respond m = (.error e, s)) ∨
      s.nonce.isSome ∧ ∃ z, s.respond m = (.ok z, { s with nonce := none }) := by
  cases h : s.nonce with
  | none => exact .inl ⟨.nonceSpent, respond_of_spent h m⟩
  | some r =>
    cases challenge : S.challenge .aggregate s.jointNonce s.jointKey m with
    | ok c => exact .inr ⟨rfl, _, respond_of_challenge h challenge⟩
    | error e =>
      refine .inl ⟨e, ?_⟩
      rw [respond, h]
      simp only [challenge]

@[simp] theorem jointKey_respond (s : Session S) (m : Bytes) :
    (s.respond m).2.jointKey = s.jointKey := by
  obtain ⟨_, h⟩ | ⟨_, _, h⟩ := s.respond_cases m <;> rw [h]

@[simp] theorem jointNonce_respond (s : Session S) (m : Bytes) :
    (s.respond m).2.jointNonce = s.jointNonce := by
  obtain ⟨_, h⟩ | ⟨_, _, h⟩ := s.respond_cases m <;> rw [h]

def add (s : Session S) (a b : S.Scalar) : Signature S := ⟨s.jointNonce, a + b⟩

def combine (s : Session S) (responses : List S.Scalar) : Signature S :=
  ⟨s.jointNonce, responses.foldl (fun sum response => (s.add sum response).response) 0⟩

end Session

end JointSchnorr
