import JointSchnorr.Proofs.Draw
import JointSchnorr.SigningKey

namespace JointSchnorr

variable {S : Suite}

namespace SigningKey

variable {secret : S.Scalar} {k : SigningKey S} {b tape rest : Bytes}

theorem eq_of_secret {k k' : SigningKey S} (h : k.secret = k'.secret) : k = k' := by
  obtain ⟨secret, _, point, rfl⟩ := k
  obtain ⟨_, _, _, rfl⟩ := k'
  cases h
  rfl

theorem ofSecret?_eq_some_iff : ofSecret? secret = some k ↔ k.secret = secret := by
  constructor
  · intro h
    rw [ofSecret?] at h
    split at h
    · cases h
    · cases h
      rfl
  · rintro rfl
    rw [ofSecret?, dif_neg k.secret_ne_zero]
    exact congrArg some (eq_of_secret rfl)

theorem ofSecret?_eq_none_iff : ofSecret? secret = none ↔ secret = 0 := by
  rw [ofSecret?]
  split <;> simp [*]

theorem ofSecret_eq_ok_iff : ofSecret secret = .ok k ↔ k.secret = secret := by
  rw [← ofSecret?_eq_some_iff, ofSecret]
  cases ofSecret? secret <;> simp

theorem ofSecret_eq (nonzero : secret ≠ 0) :
    ofSecret secret = .ok ⟨secret, nonzero, S.power secret, rfl⟩ :=
  ofSecret_eq_ok_iff.2 rfl

theorem ofSecret_zero : ofSecret (0 : S.Scalar) = .error (.malformed .zeroSecret) := rfl

theorem ofSecret_eq_error_iff {e : Error} : ofSecret secret = .error e ↔
    secret = 0 ∧ e = .malformed .zeroSecret := by
  by_cases zero : secret = 0
  · rw [zero, ofSecret_zero, Except.error.injEq, and_iff_right rfl, eq_comm]
  · rw [ofSecret_eq zero]
    exact ⟨nofun, fun h => absurd h.1 zero⟩

theorem decode_eq_ok_iff : decode b = .ok k ↔ S.decodeScalar b = .ok k.secret := by
  simp only [decode, bind_eq_ok_iff, ofSecret_eq_ok_iff, exists_eq_right']

theorem decode_of_zero (h : S.decodeScalar b = .ok 0) :
    (decode b : Except Error (SigningKey S)) = .error (.malformed .zeroSecret) := by
  rw [decode, h]
  rfl

theorem generate_eq_some_iff : generate tape = some (k, rest) ↔
    ∃ n middle, Sampler.list S.scalar n tape = some (List.replicate n 0, middle) ∧
      S.scalar middle = some (k.secret, rest) := by
  rw [generate, CyclicGroup.draw_eq_some_iff]
  simp only [ofSecret?_eq_none_iff, ofSecret?_eq_some_iff, exists_eq_right']
  constructor
  · rintro ⟨refused, middle, drawn, zeros, last⟩
    rw [List.eq_replicate_of_mem zeros, List.length_replicate] at drawn
    exact ⟨refused.length, middle, drawn, last⟩
  · rintro ⟨n, middle, drawn, last⟩
    refine ⟨List.replicate n 0, middle, ?_, fun _ => List.eq_of_mem_replicate, last⟩
    rw [List.length_replicate]
    exact drawn

end SigningKey

namespace Nonce

variable {k : SigningKey S} {m : Bytes} {r : Nonce S} {tape rest : Bytes}

theorem generate_eq_some_iff :
    generate tape = some (r, rest) ↔ SigningKey.generate tape = some (r.toSigningKey, rest) := by
  rw [generate, Sampler.bind_eq_some_iff]
  constructor
  · rintro ⟨key, middle, drawn, h⟩
    obtain ⟨rfl, rfl⟩ := Sampler.pure_eq_some_iff.1 h
    exact drawn
  · intro drawn
    exact ⟨_, _, drawn, Sampler.pure_eq_some_iff.2 ⟨rfl, rfl⟩⟩

def derivedSecret (k : SigningKey S) (m : Bytes) : S.Scalar :=
  S.toScalar .nonce (Residue.encode k.secret ++ m)

theorem derive_eq (k : SigningKey S) (m : Bytes) :
    derive k m = (SigningKey.ofSecret (derivedSecret k m)).map fun key => ⟨key⟩ := by
  change (SigningKey.ofSecret (derivedSecret k m)).bind _ = _
  cases SigningKey.ofSecret (derivedSecret k m) <;> rfl

theorem derive_eq_ok_iff : derive k m = .ok r ↔ r.secret = derivedSecret k m := by
  rw [derive_eq, map_eq_ok_iff]
  constructor
  · rintro ⟨key, made, rfl⟩
    exact SigningKey.ofSecret_eq_ok_iff.1 made
  · intro h
    exact ⟨r.toSigningKey, SigningKey.ofSecret_eq_ok_iff.2 h, rfl⟩

theorem derive_of_zero (h : derivedSecret k m = 0) :
    derive k m = .error (.malformed .zeroSecret) := by
  rw [derive_eq, h, SigningKey.ofSecret_zero]
  rfl

theorem exists_derive (h : derivedSecret k m ≠ 0) : ∃ r, derive k m = .ok r := by
  rw [derive_eq, SigningKey.ofSecret_eq h]
  exact ⟨_, rfl⟩

end Nonce

end JointSchnorr
