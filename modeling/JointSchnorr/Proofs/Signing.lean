import JointSchnorr.Proofs.Group.Residues
import JointSchnorr.Proofs.Signature.Decoding
import JointSchnorr.Proofs.SigningKey
import JointSchnorr.Proofs.Transcript

namespace JointSchnorr

variable {S : Suite}

section Encoding

variable [S.Lawful] {P : S.Point}

theorem CyclicGroup.add_self_ne_zero (odd : S.order.value ≠ 2) (hP : P ≠ 0) : P + P ≠ 0 := by
  rw [ne_eq, eq_iff_log_eq, log_add, log_zero] at *
  intro vanishes
  have odd : Odd S.order.value := Lawful.prime.odd_of_ne_two odd
  have zero := (ZMod.add_self_eq_zero_iff_eq_zero odd).1 <| by
    rw [← Residue.toZMod_add, vanishes, Residue.toZMod_zero]
  exact hP (Residue.toZMod_injective (zero.trans Residue.toZMod_zero.symm))

theorem CyclicGroup.eq_zero_of_eq_add_self (h : P = P + P) : P = 0 := by
  rw [eq_iff_log_eq, log_add] at h
  rw [eq_iff_log_eq, log_zero]
  exact left_eq_add.1 h

/-- At most one point is read back from the empty string, and in a group of more than two points it
would not be alone. -/
theorem Suite.Inverts.encode_ne_nil (inverts : S.Inverts) {size : Nat}
    (fixed : ∀ (P : S.Point) (b : Bytes), S.encode P = .ok b → b.length = size)
    (encodable : ∀ P : S.Point, P ≠ 0 → ∃ b, S.encode P = .ok b)
    (room : 0 < size ∨ S.order.value ≠ 2) (hP : P ≠ 0) : S.encode P ≠ .ok [] := by
  intro empty
  have none_left : ¬0 < size := (fixed P [] empty).ge.not_gt
  have odd := room.resolve_left none_left
  have twice := CyclicGroup.add_self_ne_zero odd hP
  obtain ⟨b, other⟩ := encodable (P + P) twice
  have length : b.length = 0 := (fixed _ b other).trans (fixed P [] empty).symm
  obtain rfl := List.eq_nil_of_length_eq_zero length
  have same := (inverts P [] hP empty).symm.trans (inverts _ [] twice other)
  exact hP (CyclicGroup.eq_zero_of_eq_add_self (Except.ok.inj same))

theorem Suite.inverts_residues (m : Modulus) : (Suite.residues m).Inverts := by
  intro P b hP h
  rw [← eq_of_encode_residues h]
  exact bind_eq_ok_iff.2 ⟨P, mapError_eq_ok_iff.2 (Residue.decode_encode _), if_neg hP⟩

end Encoding

namespace Signature

def verifySent (g : Signature S) (scheme : Scheme) (P : S.Point) (m : Bytes) :
    Except Error Unit := do
  let g ← Signature.decode (← g.encode)
  let P ← S.decode (← S.encode P)
  g.verify scheme P m

variable {g : Signature S} {scheme : Scheme} {P : S.Point} {m r p : Bytes}

theorem decode_append (r : Bytes) (s : S.Scalar) : decode (r ++ Residue.encode s) =
    if r = [] then .error (.malformed (.length (S.scalarSize + 1) S.scalarSize))
    else (S.decode r).map fun R => ⟨R, s⟩ := by
  have length : (Residue.encode s).length = S.scalarSize := Residue.length_encode s
  by_cases empty : r = []
  · rw [if_pos empty, empty, List.nil_append, decode_of_length_le length.le, length]
  · rw [if_neg empty, decode_of_cut empty length, Suite.decodeScalar_eq_ok_iff_encode.2 rfl]
    cases S.decode r <;> rfl

theorem verifySent_eq (inverts : S.Inverts) (hR : g.nonce ≠ 0) (hP : P ≠ 0)
    (nonce : S.encode g.nonce = .ok r) (key : S.encode P = .ok p) :
    g.verifySent scheme P m =
      if r = [] then .error (.malformed (.length (S.scalarSize + 1) S.scalarSize))
      else g.verify scheme P m := by
  have decoded := decode_append r g.response
  rw [inverts _ r hR nonce] at decoded
  rw [verifySent, encode_eq nonce, key]
  change (decode (r ++ _) >>= fun g => S.decode p >>= fun P => g.verify scheme P m) = _
  rw [decoded, inverts P p hP key]
  split <;> rfl

structure Passes (g : Signature S) (P : S.Point) (m : Bytes) : Prop where
  single : g.verify .single P m = .ok ()
  joint : g.verifyJoint P m false = .ok ()
  sent : S.Inverts → g.verifySent .single P m =
    if S.encode g.nonce = .ok [] then
      .error (.malformed (.length (S.scalarSize + 1) S.scalarSize))
    else .ok ()

end Signature

namespace SigningKey

section Completeness

variable [S.Lawful] (encodable : ∀ P : S.Point, P ≠ 0 → ∃ b, S.encode P = .ok b)
  (k : SigningKey S) (m : Bytes)

include encodable

theorem exists_signWith (r : Nonce S) :
    ∃ g, k.signWith r m = .ok g ∧ g.nonce = r.point ∧ g.Passes k.point m := by
  obtain ⟨a, nonce⟩ := encodable r.point r.point_ne_zero
  obtain ⟨p, key⟩ := encodable k.point k.point_ne_zero
  have challenge := Suite.challenge_eq nonce key .single m
  generalize S.toScalar (.challenge .single) (a ++ p ++ m) = e at challenge
  let g : Signature S := ⟨r.point, r.secret + e * k.secret⟩
  have signed : k.signWith r m = .ok g := by
    rw [signWith, challenge]
    rfl
  have passes : g.verify .single k.point m = .ok () := by
    rw [Signature.verify_eq_ok_iff challenge]
    calc
      S.power (r.secret + e * k.secret) = S.power r.secret + e • S.power k.secret := by
        rw [CyclicGroup.power_add, CyclicGroup.smul_power]
      _ = r.point + e • k.point := by rw [r.point_eq, k.point_eq]
  refine ⟨g, signed, rfl, passes, passes, fun inverts => ?_⟩
  rw [Signature.verifySent_eq inverts r.point_ne_zero k.point_ne_zero nonce key, passes]
  simp only [g, nonce, Except.ok.injEq]

/-- Every key signs every message.  With a drawn nonce nothing can fail once the draw has ended, and
a derived nonce is refused for being zero and for nothing else.  No signature is lost on its way
when points are written in one number of bytes. -/
theorem single_complete :
    (∀ (tape rest : Bytes) (r : Nonce S), Nonce.generate tape = some (r, rest) →
      ∃ g, k.sign m tape = some (.ok g, rest) ∧ g.nonce = r.point ∧ g.Passes k.point m) ∧
    (∀ e, k.signDerived m = .error e ↔
      Nonce.derivedSecret k m = 0 ∧ e = .malformed .zeroSecret) ∧
    (Nonce.derivedSecret k m ≠ 0 → ∃ g, k.signDerived m = .ok g ∧
      g.nonce = S.power (Nonce.derivedSecret k m) ∧ g.Passes k.point m) ∧
    ∀ size, (∀ (P : S.Point) (b : Bytes), S.encode P = .ok b → b.length = size) →
      (0 < size ∨ S.order.value ≠ 2) → S.Inverts →
        ∀ P : S.Point, P ≠ 0 → S.encode P ≠ .ok [] := by
  have derived (nonzero : Nonce.derivedSecret k m ≠ 0) : ∃ g, k.signDerived m = .ok g ∧
      g.nonce = S.power (Nonce.derivedSecret k m) ∧ g.Passes k.point m := by
    obtain ⟨r, derive⟩ := Nonce.exists_derive nonzero
    obtain ⟨g, signed, nonce, passes⟩ := exists_signWith encodable k m r
    refine ⟨g, ?_, ?_, passes⟩
    · rw [signDerived, derive]
      exact signed
    · rw [nonce, r.point_eq, Nonce.derive_eq_ok_iff.1 derive]
  refine ⟨?drawn, ?refused, derived, ?nonempty⟩
  case drawn =>
    intro tape rest r drawn
    obtain ⟨g, signed, accepted⟩ := exists_signWith encodable k m r
    refine ⟨g, ?_, accepted⟩
    rw [sign, Sampler.bind_eq_some_iff]
    exact ⟨r, rest, drawn, Sampler.pure_eq_some_iff.2 ⟨signed, rfl⟩⟩
  case refused =>
    intro e
    by_cases zero : Nonce.derivedSecret k m = 0
    · have refused : k.signDerived m = .error (.malformed .zeroSecret) := by
        rw [signDerived, Nonce.derive_of_zero zero]
        rfl
      rw [refused, Except.error.injEq, and_iff_right zero, eq_comm]
    · obtain ⟨g, signed, _⟩ := derived zero
      rw [signed]
      exact ⟨nofun, fun h => absurd h.1 zero⟩
  case nonempty =>
    intro size fixed room inverts P hP
    exact inverts.encode_ne_nil fixed encodable room hP

end Completeness

theorem single_complete_of_summing :
    let G := Suite.summing.power
    let k : SigningKey Suite.summing := ⟨3, by decide, G 3, rfl⟩
    (∃ g, k.sign [1] [1, 0, 0, 0, 0, 0, 0, 0] = some (.ok g, []) ∧ g.nonce = G 4 ∧
      g.Passes (G 3) [1]) ∧
    k.signDerived [3] = .error (.malformed .zeroSecret) ∧
    ∃ g, k.signDerived [1] = .ok g ∧ g.nonce = G 4 ∧ g.verifySent .single (G 3) [1] = .ok () := by
  intro G k
  have encodable : ∀ P : Suite.summing.Point, P ≠ 0 → ∃ b, Suite.summing.encode P = .ok b :=
    fun P hP => ⟨_, if_neg hP⟩
  have fixed (P : Suite.summing.Point) (b : Bytes) (h : Suite.summing.encode P = .ok b) :
      b.length = 1 := Suite.eq_of_encode_residues h ▸ Residue.length_encode _
  have inverts : Suite.summing.Inverts := Suite.inverts_residues Suite.summing.order
  obtain ⟨drawn, _, derived, nonempty⟩ := single_complete encodable k [1]
  obtain ⟨_, refused, _⟩ := single_complete encodable k [3]
  have value : Nonce.derivedSecret k [1] = 4 := by decide +kernel
  obtain ⟨g, signed, nonce, passes⟩ := derived (value ▸ by decide)
  have written := nonempty 1 fixed (.inl Nat.one_pos) inverts g.nonce (nonce ▸ value ▸ by decide)
  refine ⟨drawn _ [] ⟨4, by decide, G 4, rfl⟩ rfl, ?_, g, signed, value ▸ nonce, ?_⟩
  · exact (refused _).2 ⟨by decide +kernel, rfl⟩
  · rw [passes.sent inverts, if_neg written]

end SigningKey

end JointSchnorr
