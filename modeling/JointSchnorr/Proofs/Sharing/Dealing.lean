import JointSchnorr.Proofs.Sharing.Commitment
import JointSchnorr.Proofs.Sharing.Quorum
import JointSchnorr.Proofs.Tape

namespace JointSchnorr

variable {S : Suite}

/-- A dealer draws its secret, or brings one to deal to everyone. -/
inductive Dealer where
  | fresh (given : Option (List Position))
  | known (secret : Bytes)

namespace Dealer

variable (S)

def deal (q : Quorum) : Dealer → Sampler (Logged (Dealing S))
  | fresh given => Dealing.generate q given
  | known secret => Dealing.ofSecret q secret

def Serves (q : Quorum) (positions : List Position) : Dealer → Prop
  | fresh given => given.getD q.everyone = positions
  | known secret => q.everyone = positions ∧ ∃ k : SigningKey S, SigningKey.decode secret = .ok k

end Dealer

namespace Dealing

variable {q : Quorum} {positions : List Position} {d : Dealing S}

structure Regular (q : Quorum) (positions : List Position) (d : Dealing S) : Prop where
  quorum_eq : d.quorum = q
  positions_eq : d.positions = positions
  length_higher : d.higher.length = q.threshold.toNat - 1

theorem roster_eq_ok_iff {given : Option (List Position)} :
    roster q given = .ok positions ↔ positions.length = q.parties.toNat ∧ positions.Nodup ∧
      given.getD q.everyone = positions := by
  cases given with
  | none =>
    constructor
    · intro h
      cases h
      exact ⟨q.length_everyone, q.nodup_everyone, rfl⟩
    · rintro ⟨_, _, rfl⟩
      rfl
  | some listed =>
    rw [roster, check_eq_ok_iff, check_eq_ok_iff, checkSizes_eq_ok_iff, checkDistinct_eq_ok_iff,
      List.forall_mem_singleton]
    constructor
    · rintro ⟨length, nodup, h⟩
      cases h
      exact ⟨length, nodup, rfl⟩
    · rintro ⟨length, nodup, rfl⟩
      exact ⟨length, nodup, rfl⟩

theorem exists_roster_iff {given : Option (List Position)} :
    (∃ positions, roster q given = .ok positions) ↔
      ∀ listed ∈ given, listed.length = q.parties.toNat ∧ listed.Nodup := by
  simp only [roster_eq_ok_iff]
  cases given with
  | none => simp [q.length_everyone, q.nodup_everyone]
  | some listed => simp

theorem roster_eq_error_iff {given : Option (List Position)} {e : Error} :
    roster q given = .error e ↔ ∃ listed ∈ given,
      listed.length ≠ q.parties.toNat ∧ e = .sizeMismatch q.parties.toNat listed.length ∨
        listed.length = q.parties.toNat ∧
          ∃ p, firstRepeated listed = some p ∧ e = .repeatedPosition p := by
  cases given with
  | none => simp [roster]
  | some listed =>
    rw [roster, check_eq_error_iff, check_eq_error_iff, checkSizes_singleton_eq_error_iff,
      checkDistinct_eq_error_iff, checkSizes_eq_ok_iff, List.forall_mem_singleton]
    simp [pure, Except.pure]

section Deal

variable {k : SigningKey S} {given : Option (List Position)} {tape rest : Bytes}
  {log : Logged (Dealing S)} {e : Error}

theorem draw_eq_some_iff {t : Nat} {secret : S.Scalar} {coefficients : List S.Scalar} :
    draw t secret tape = some (coefficients, rest) ↔
      ∃ higher, Sampler.list S.scalar (t - 1) tape = some (higher, rest) ∧
        secret :: higher = coefficients := by
  simp only [draw, Sampler.bind_eq_some_iff, Sampler.pure_eq_some_iff]
  constructor
  · rintro ⟨higher, _, drawn, rfl, rfl⟩
    exact ⟨higher, drawn, rfl⟩
  · rintro ⟨higher, drawn, rfl⟩
    exact ⟨higher, rest, drawn, rfl, rfl⟩

/-- A dealer finds out to whom it deals before it draws, and nothing can fail after that. -/
theorem deal_eq_some_iff : deal q k given tape = some (log, rest) ↔
    (∃ e, roster q given = .error e ∧ Logged.fail e = log ∧ tape = rest) ∨
    ∃ positions higher, roster q given = .ok positions ∧
      Sampler.list S.scalar (q.threshold.toNat - 1) tape = some (higher, rest) ∧
      ⟨.ok ⟨q, k, higher, positions⟩, [.dealt q.parties q.threshold]⟩ = log := by
  rw [deal]
  cases receivers : roster q given with
  | error e => simp [Sampler.pure_eq_some_iff]
  | ok positions =>
    simp only [Sampler.bind_eq_some_iff, Sampler.pure_eq_some_iff, draw_eq_some_iff]
    constructor
    · rintro ⟨_, _, ⟨higher, drawn, rfl⟩, rfl, rfl⟩
      exact .inr ⟨positions, higher, rfl, drawn, rfl⟩
    · rintro (⟨e, h, _⟩ | ⟨_, higher, h, drawn, rfl⟩)
      · cases h
      · cases h
        exact ⟨_, rest, ⟨higher, drawn, rfl⟩, rfl, rfl⟩

theorem exists_deal (k : SigningKey S) (given : Option (List Position))
    (enough : (Sampler.list S.scalar (q.threshold.toNat - 1) tape).isSome) :
    ∃ log rest, deal q k given tape = some (log, rest) := by
  obtain ⟨⟨higher, rest⟩, drawn⟩ := Option.isSome_iff_exists.1 enough
  cases receivers : roster q given with
  | error e => exact ⟨_, _, deal_eq_some_iff.2 (.inl ⟨e, receivers, rfl, rfl⟩)⟩
  | ok positions =>
    exact ⟨_, _, deal_eq_some_iff.2 (.inr ⟨positions, higher, receivers, drawn, rfl⟩)⟩

theorem outcome_eq_error_iff (run : deal q k given tape = some (log, rest)) :
    log.outcome = .error e ↔ roster q given = .error e := by
  obtain ⟨e', refused, rfl, _⟩ | ⟨positions, higher, served, _, rfl⟩ := deal_eq_some_iff.1 run
  · rw [refused, Logged.outcome_fail, Except.error.injEq, Except.error.injEq]
  · rw [served]
    exact iff_of_false nofun nofun

theorem regular_of_outcome (run : deal q k given tape = some (log, rest))
    (ok : log.outcome = .ok d) :
    d.key = k ∧ ∃ positions, roster q given = .ok positions ∧ d.Regular q positions := by
  obtain ⟨e, _, rfl, _⟩ | ⟨positions, higher, served, drawn, rfl⟩ := deal_eq_some_iff.1 run
  · cases ok
  · cases ok
    exact ⟨rfl, positions, served, rfl, rfl, Sampler.length_of_list drawn⟩

theorem regular_of_deal (receivers : roster q given = .ok positions)
    (run : deal q k given tape = some (log, rest)) :
    ∃ d, log.outcome = .ok d ∧ d.Regular q positions := by
  cases outcome : log.outcome with
  | error e => cases receivers.symm.trans ((outcome_eq_error_iff run).1 outcome)
  | ok d =>
    obtain ⟨_, _, served, regular⟩ := regular_of_outcome run outcome
    cases receivers.symm.trans served
    exact ⟨d, rfl, regular⟩

theorem exists_outcome_iff (run : deal q k given tape = some (log, rest)) :
    (∃ d, log.outcome = .ok d) ↔
      ∀ listed ∈ given, listed.length = q.parties.toNat ∧ listed.Nodup := by
  rw [← exists_roster_iff]
  constructor
  · rintro ⟨d, ok⟩
    obtain ⟨_, positions, served, _⟩ := regular_of_outcome run ok
    exact ⟨positions, served⟩
  · rintro ⟨positions, served⟩
    obtain ⟨d, ok, _⟩ := regular_of_deal served run
    exact ⟨d, ok⟩

theorem ofSecret_eq_some_iff {secret : Bytes} : ofSecret q secret tape = some (log, rest) ↔
    (∃ e, (SigningKey.decode secret : Except Error (SigningKey S)) = .error e ∧
      Logged.fail e = log ∧ tape = rest) ∨
    ∃ k : SigningKey S, SigningKey.decode secret = .ok k ∧
      deal q k none tape = some (log, rest) := by
  rw [ofSecret]
  cases (SigningKey.decode secret : Except Error (SigningKey S)) with
  | error e => simp [Sampler.pure_eq_some_iff]
  | ok k => simp

end Deal

theorem Regular.length_commitment (h : d.Regular q positions) :
    d.commitment.length = q.threshold.toNat := by
  rw [commitment, List.length_map, coefficients, List.length_cons, h.length_higher]
  exact Nat.sub_add_cancel q.threshold_toNat_pos

theorem constant?_commitment (d : Dealing S) : d.commitment.constant? = some d.key.point :=
  congrArg some d.key.point_eq.symm

variable [S.Lawful]

theorem matchesCommitment_shareFor (d : Dealing S) (i : Position) :
    (d.shareFor i).matchesCommitment d.commitment = true :=
  DealtShare.matchesCommitment_map_power_iff.2 rfl

end Dealing

theorem Dealer.regular_of_deal {q : Quorum} {positions : List Position} {dealer : Dealer}
    {tape rest : Bytes} {log : Logged (Dealing S)} (nodup : positions.Nodup)
    (length : positions.length = q.parties.toNat) (serves : dealer.Serves S q positions)
    (run : dealer.deal S q tape = some (log, rest)) :
    ∃ d, log.outcome = .ok d ∧ d.Regular q positions := by
  cases dealer with
  | fresh given =>
    obtain ⟨_, _, _, run⟩ := Sampler.bind_eq_some_iff.1 run
    exact Dealing.regular_of_deal (Dealing.roster_eq_ok_iff.2 ⟨length, nodup, serves⟩) run
  | known secret =>
    obtain ⟨rfl, k, decoded⟩ := serves
    obtain ⟨e, refused, _⟩ | ⟨_, _, run⟩ := Dealing.ofSecret_eq_some_iff.1 run
    · cases decoded.symm.trans refused
    · exact Dealing.regular_of_deal rfl run

end JointSchnorr
