import JointSchnorr.Proofs.Group.Residues
import JointSchnorr.Proofs.Sharing.Dealing

namespace JointSchnorr

variable {S : Suite} {q : Quorum}

namespace Dealing

structure Consistent (q : Quorum) (d : Dealing S) : Prop where
  quorum_eq : d.quorum = q
  length_coefficients : d.coefficients.length = q.threshold.toNat
  head?_coefficients : d.coefficients.head? = some d.key.secret
  getElem?_commitment : ∀ k : Nat, d.commitment[k]? = d.coefficients[k]?.map S.power
  checkDegree_commitment : d.commitment.checkDegree q = .ok ()
  constant?_commitment : d.commitment.constant? = some d.key.point
  length_positions : d.positions.length = q.parties.toNat
  nodup_positions : d.positions.Nodup
  length_shares : d.shares.length = q.parties.toNat
  receiver_shares : ∀ k : Nat, d.shares[k]?.map (·.receiver) = d.positions[k]?
  matches_shares : ∀ s ∈ d.shares, s.matchesCommitment d.commitment = true

theorem getElem?_map_receiver_shares (d : Dealing S) (k : Nat) :
    d.shares[k]?.map (·.receiver) = d.positions[k]? := by
  rw [shares, List.getElem?_map, Option.map_map]
  exact Option.map_id'

theorem matchesCommitment_of_mem_shares [S.Lawful] {d : Dealing S} {s : DealtShare S}
    (h : s ∈ d.shares) : s.matchesCommitment d.commitment = true := by
  obtain ⟨i, _, rfl⟩ := List.mem_map.1 h
  exact d.matchesCommitment_shareFor i

theorem Regular.consistent [S.Lawful] {positions : List Position} {d : Dealing S}
    (h : d.Regular q positions) (length : positions.length = q.parties.toNat)
    (nodup : positions.Nodup) : d.Consistent q where
  quorum_eq := h.quorum_eq
  length_coefficients := (List.length_map _).symm.trans h.length_commitment
  head?_coefficients := rfl
  getElem?_commitment _ := List.getElem?_map
  checkDegree_commitment := Commitment.checkDegree_eq_ok_iff.2 h.length_commitment
  constant?_commitment := d.constant?_commitment
  length_positions := h.positions_eq ▸ length
  nodup_positions := h.positions_eq ▸ nodup
  length_shares := (List.length_map _).trans (h.positions_eq ▸ length)
  receiver_shares := d.getElem?_map_receiver_shares
  matches_shares _ := matchesCommitment_of_mem_shares

section Deal

variable {given : Option (List Position)} {tape rest : Bytes} {log : Logged (Dealing S)}
  {d : Dealing S} {k : SigningKey S}

theorem positions_of_deal (run : deal q k given tape = some (log, rest))
    (ok : log.outcome = .ok d) : d.positions = given.getD q.everyone := by
  obtain ⟨_, positions, served, regular⟩ := regular_of_outcome run ok
  obtain ⟨_, _, asked⟩ := roster_eq_ok_iff.1 served
  rw [regular.positions_eq, asked]

theorem consistent_of_deal [S.Lawful] (run : deal q k given tape = some (log, rest))
    (ok : log.outcome = .ok d) : d.Consistent q := by
  obtain ⟨_, positions, served, regular⟩ := regular_of_outcome run ok
  obtain ⟨length, nodup, _⟩ := roster_eq_ok_iff.1 served
  exact regular.consistent length nodup

theorem exists_outcome_of_none (run : deal q k none tape = some (log, rest)) :
    ∃ d, log.outcome = .ok d :=
  (exists_outcome_iff run).2 nofun

theorem outcome_of_ofSecret {secret : Bytes} (run : ofSecret q secret tape = some (log, rest)) :
    (∀ e, log.outcome = .error e ↔
      (SigningKey.decode secret : Except Error (SigningKey S)) = .error e) ∧
    ((∃ d, log.outcome = .ok d) ↔ ∃ k : SigningKey S, SigningKey.decode secret = .ok k) ∧
    ∀ d, log.outcome = .ok d →
      SigningKey.decode secret = .ok d.key ∧ d.positions = q.everyone := by
  obtain ⟨e, refused, rfl, _⟩ | ⟨k, decoded, run⟩ := ofSecret_eq_some_iff.1 run
  · rw [refused]
    simp
  · obtain ⟨d, ok⟩ := exists_outcome_of_none run
    obtain ⟨rfl, _⟩ := regular_of_outcome run ok
    have everyone : d.positions = q.everyone := positions_of_deal run ok
    rw [decoded, ok]
    simp [everyone]

end Deal

end Dealing

namespace Dealer

/-- The tape holds what the dealer may draw: its secret unless it brings one, and the coefficients
above it. -/
def Suffices (S : Suite) (q : Quorum) (tape : Bytes) : Dealer → Prop
  | fresh _ => ∃ (k : SigningKey S) (middle : Bytes), SigningKey.generate tape = some (k, middle) ∧
      (Sampler.list S.scalar (q.threshold.toNat - 1) middle).isSome
  | known _ => (Sampler.list S.scalar (q.threshold.toNat - 1) tape).isSome

variable {tape rest : Bytes} {log : Logged (Dealing S)} {d : Dealing S} {dealer : Dealer}

theorem exists_deal_of_suffices (enough : dealer.Suffices S q tape) :
    ∃ log rest, dealer.deal S q tape = some (log, rest) := by
  cases dealer with
  | fresh given =>
    obtain ⟨k, middle, drawn, enough⟩ := enough
    obtain ⟨log, rest, run⟩ := Dealing.exists_deal k given enough
    exact ⟨log, rest, Sampler.bind_eq_some_iff.2 ⟨k, middle, drawn, run⟩⟩
  | known secret =>
    cases decoded : (SigningKey.decode secret : Except Error (SigningKey S)) with
    | error e => exact ⟨_, _, Dealing.ofSecret_eq_some_iff.2 (.inl ⟨e, decoded, rfl, rfl⟩)⟩
    | ok k =>
      obtain ⟨log, rest, run⟩ := Dealing.exists_deal k none enough
      exact ⟨log, rest, Dealing.ofSecret_eq_some_iff.2 (.inr ⟨k, decoded, run⟩)⟩

theorem consistent_of_deal [S.Lawful] (run : dealer.deal S q tape = some (log, rest))
    (ok : log.outcome = .ok d) : d.Consistent q := by
  cases dealer with
  | fresh given =>
    obtain ⟨_, _, _, run⟩ := Sampler.bind_eq_some_iff.1 run
    exact Dealing.consistent_of_deal run ok
  | known secret =>
    obtain ⟨e, _, rfl, _⟩ | ⟨_, _, run⟩ := Dealing.ofSecret_eq_some_iff.1 run
    · cases ok
    · exact Dealing.consistent_of_deal run ok

/-- Dealers that find enough bytes on their tapes end, and end in a dealing unless the receivers
that they are given, or the secret that they bring, are refused.  All that is dealt is
consistent. -/
theorem deal_exact [S.Lawful] (q : Quorum) :
    (∀ (dealer : Dealer) tape, dealer.Suffices S q tape →
      ∃ log rest, dealer.deal S q tape = some (log, rest)) ∧
    (∀ given tape rest (log : Logged (Dealing S)),
      Dealing.generate q given tape = some (log, rest) →
        ((∃ d, log.outcome = .ok d) ↔
          ∀ listed ∈ given, listed.length = q.parties.toNat ∧ listed.Nodup) ∧
        (∀ e, log.outcome = .error e ↔ ∃ listed ∈ given,
          listed.length ≠ q.parties.toNat ∧ e = .sizeMismatch q.parties.toNat listed.length ∨
            listed.length = q.parties.toNat ∧
              ∃ p, firstRepeated listed = some p ∧ e = .repeatedPosition p) ∧
        ∀ d, log.outcome = .ok d → d.positions = given.getD q.everyone) ∧
    (∀ secret tape rest (log : Logged (Dealing S)),
      Dealing.ofSecret q secret tape = some (log, rest) →
        (∀ e, log.outcome = .error e ↔
          (SigningKey.decode secret : Except Error (SigningKey S)) = .error e) ∧
        ((∃ d, log.outcome = .ok d) ↔ ∃ k : SigningKey S, SigningKey.decode secret = .ok k) ∧
        ∀ d, log.outcome = .ok d →
          SigningKey.decode secret = .ok d.key ∧ d.positions = q.everyone) ∧
    q.everyone.map UInt32.toNat = List.range q.parties.toNat ∧
    ∀ (dealer : Dealer) tape rest log d,
      dealer.deal S q tape = some (log, rest) → log.outcome = .ok d → d.Consistent q := by
  refine ⟨fun _ _ => exists_deal_of_suffices, ?given, fun _ _ _ _ => Dealing.outcome_of_ofSecret,
    q.toNat_map_everyone, fun _ _ _ _ _ => consistent_of_deal⟩
  case given =>
    intro given tape rest log run
    obtain ⟨k, middle, _, run⟩ := Sampler.bind_eq_some_iff.1 run
    refine ⟨Dealing.exists_outcome_iff run, fun e => ?_, fun d => Dealing.positions_of_deal run⟩
    rw [Dealing.outcome_eq_error_iff run, Dealing.roster_eq_error_iff]

theorem deal_exact_of_summing :
    let q : Quorum := ⟨3, 2, by decide, by decide⟩
    let tape : Bytes := [1, 0, 0, 0, 0, 0, 0, 0, 2, 0, 0, 0, 0, 0, 0, 0]
    let dealing (given : List Position) : Option (Logged (Dealing Suite.summing) × Bytes) :=
      Dealing.generate q (some given) tape
    (∃ log rest d, dealing [5, 0, 4294967295] = some (log, rest) ∧ log.outcome = .ok d ∧
      d.Consistent q ∧ d.positions = [5, 0, 4294967295]) ∧
    ∃ log rest, dealing [5, 0, 5] = some (log, rest) ∧
      log.outcome = .error (.repeatedPosition 5) := by
  intro q tape dealing
  obtain ⟨ends, given, _, _, consistent⟩ := deal_exact (S := Suite.summing) q
  have enough (listed : List Position) : (fresh (some listed)).Suffices Suite.summing q tape :=
    ⟨⟨4, by decide, Suite.summing.power 4, rfl⟩, [2, 0, 0, 0, 0, 0, 0, 0], rfl, rfl⟩
  constructor
  · obtain ⟨log, rest, run⟩ := ends (fresh (some [5, 0, 4294967295])) tape (enough _)
    obtain ⟨serves, _, positions⟩ := given _ _ _ _ run
    obtain ⟨d, ok⟩ := serves.2 (by rintro _ ⟨⟩; decide)
    exact ⟨log, rest, d, run, ok, consistent _ _ _ _ _ run ok, positions d ok⟩
  · obtain ⟨log, rest, run⟩ := ends (fresh (some [5, 0, 5])) tape (enough _)
    obtain ⟨_, refused, _⟩ := given _ _ _ _ run
    exact ⟨log, rest, run, (refused _).2 ⟨_, rfl, .inr ⟨rfl, 5, by decide, rfl⟩⟩⟩

end Dealer

end JointSchnorr
