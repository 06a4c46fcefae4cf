import JointSchnorr.Cosigning.JointKey
import JointSchnorr.Proofs.Outcome
import JointSchnorr.Proofs.Transcript

namespace JointSchnorr.Suite

variable {S : Suite}

theorem encodeAll_eq_ok_iff {points : List S.Point} :
    (∃ b, S.encodeAll points = .ok b) ↔ ∀ P ∈ points, ∃ b, S.encode P = .ok b := by
  induction points with
  | nil => simp [encodeAll]
  | cons P rest ih =>
    rw [List.forall_mem_cons, ← ih]
    simp only [encodeAll, bind_eq_ok_iff]
    constructor
    · rintro ⟨_, b, head, c, tail, _⟩
      exact ⟨⟨b, head⟩, c, tail⟩
    · rintro ⟨⟨b, head⟩, c, tail⟩
      exact ⟨b ++ c, b, head, c, tail, rfl⟩

variable (S)

def weight (signers : List S.Point) (X : S.Point) : S.Scalar :=
  (S.coefficient signers X).toOption.getD 0

def weightedSum (signers : List S.Point) : S.Point :=
  S.sum (signers.map fun X => S.weight signers X • X)

variable {S}

theorem coefficient_eq (signers : List S.Point) (X : S.Point) :
    S.coefficient signers X = (do
      let description ← S.encodeAll signers
      let b ← S.encode X
      return S.toScalar .coefficient (description ++ b)) := by
  rw [coefficient, Query.scalar, Query.transcript, Query.oracle]
  cases S.encodeAll signers with
  | error e => rfl
  | ok description => cases S.encode X <;> rfl

theorem coefficient_of_mem {signers : List S.Point} {X : S.Point} (hX : X ∈ signers) :
    S.coefficient signers X = (do
      let _ ← S.encodeAll signers
      return S.weight signers X) := by
  cases written : S.encodeAll signers with
  | error e =>
    rw [coefficient_eq, written]
    rfl
  | ok description =>
    obtain ⟨b, hb⟩ := encodeAll_eq_ok_iff.1 ⟨description, written⟩ X hX
    have known : S.coefficient signers X = .ok (S.toScalar .coefficient (description ++ b)) := by
      rw [coefficient_eq, written, hb]
      rfl
    rw [weight, known]
    rfl

theorem jointKey_eq (signers : List S.Point) :
    S.jointKey signers = (do
      let _ ← S.encodeAll signers
      S.jointPoint (signers.map fun X => S.weight signers X • X)) := by
  cases written : S.encodeAll signers with
  | error e =>
    cases signers with
    | nil => cases written
    | cons X rest =>
      rw [jointKey, List.mapM_cons, coefficient_eq, written]
      rfl
  | ok description =>
    have terms : signers.mapM (fun X => return (← S.coefficient signers X) • X) =
        (.ok (signers.map fun X => S.weight signers X • X) : Except Error _) := by
      apply mapM_eq_ok_map
      intro X hX
      rw [coefficient_of_mem hX, written]
      rfl
    rw [jointKey, terms]
    rfl

/-- A listed key's own weight is never the first thing to fail. -/
theorem coefficient_bind_jointKey {α : Type} {signers : List S.Point} {X : S.Point}
    (hX : X ∈ signers) (f : S.Scalar → S.Point → Except Error α) :
    (do
      let a ← S.coefficient signers X
      let P ← S.jointKey signers
      f a P) = S.jointKey signers >>= f (S.weight signers X) := by
  rw [coefficient_of_mem hX, jointKey_eq]
  cases S.encodeAll signers <;> rfl

theorem jointKey_eq_ok_iff {signers : List S.Point} {X : S.Point} :
    S.jointKey signers = .ok X ↔
      (∀ P ∈ signers, ∃ b, S.encode P = .ok b) ∧ S.weightedSum signers = X ∧ X ≠ 0 := by
  rw [jointKey_eq, bind_eq_ok_iff, exists_and_right, encodeAll_eq_ok_iff, jointPoint_eq_ok_iff,
    weightedSum]

theorem jointNonce_eq_ok_iff {nonces : List S.Point} {R : S.Point} :
    S.jointNonce nonces = .ok R ↔ 0 ∉ nonces ∧ S.sum nonces = R ∧ R ≠ 0 := by
  rw [jointNonce, then_error_eq_ok_iff, jointPoint_eq_ok_iff, List.contains_iff_mem]

end JointSchnorr.Suite
