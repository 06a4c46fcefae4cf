import JointSchnorr.Proofs.Identity
import JointSchnorr.Proofs.Sharing.Dealing
import JointSchnorr.Proofs.SigningKey

namespace JointSchnorr

variable {S : Suite}

inductive Product (S : Suite)
  | key (k : SigningKey S)
  | nonce (r : Nonce S)
  | dealing (d : Dealing S)
  | session (s : Session S)
  | signature (g : Signature S)

/-- One rule for each operation that returns a product.  Only sessions go through several; keys,
lists of points and all else that a rule takes may be of any making. -/
inductive Produced : Product S → Prop
  | generate {k tape rest} : SigningKey.generate tape = some (k, rest) → Produced (.key k)
  | decode {k b} : SigningKey.decode b = .ok k → Produced (.key k)
  | nonce {r tape rest} : Nonce.generate tape = some (r, rest) → Produced (.nonce r)
  | derive {r k m} : Nonce.derive k m = .ok r → Produced (.nonce r)
  | deal {d log q tape rest} (dealer : Dealer) : dealer.deal S q tape = some (log, rest) →
      log.outcome = .ok d → Produced (.dealing d)
  | start {s signers nonces k r} :
      (Session.start signers nonces k r).outcome = .ok s → Produced (.session s)
  | respond {s} (m) : Produced (.session s) → Produced (.session (s.respond m).2)
  | sign {g k m tape rest} : SigningKey.sign k m tape = some (.ok g, rest) →
      Produced (.signature g)
  | signDerived {g k m} : SigningKey.signDerived k m = .ok g → Produced (.signature g)
  | combine {s} (responses) : Produced (.session s) → Produced (.signature (s.combine responses))
  | reconstruct {g q e shares keys nonces} :
      (SignatureShare.reconstruct q e shares keys nonces).outcome = .ok g → Produced (.signature g)

structure Suite.IsPair (S : Suite) (secret : S.Scalar) (point : S.Point) : Prop where
  secret_pos : 0 < secret.val
  secret_lt : secret.val < S.order.value
  point_eq : point = S.multiple secret.val S.generator
  point_ne_zero : point ≠ 0

namespace Product

def Proper : Product S → Prop
  | key k => S.IsPair k.secret k.point
  | nonce r => S.IsPair r.secret r.point
  | dealing d => S.IsPair d.key.secret d.key.point
  | session s => s.jointKey ≠ 0 ∧ s.jointNonce ≠ 0
  | signature g => g.nonce ≠ 0

end Product

theorem SigningKey.isPair [S.Lawful] (k : SigningKey S) : S.IsPair k.secret k.point where
  secret_pos := Residue.val_pos_iff.2 k.secret_ne_zero
  secret_lt := k.secret.val_lt
  point_eq := k.point_eq
  point_ne_zero := k.point_ne_zero

theorem SigningKey.nonce_of_signWith {k : SigningKey S} {r : Nonce S} {m : Bytes}
    {g : Signature S} (h : k.signWith r m = .ok g) : g.nonce = r.point := by
  obtain ⟨_, _, h⟩ := bind_eq_ok_iff.1 h
  cases h
  rfl

namespace Produced

variable [S.Lawful] {p : Product S}

theorem proper (h : Produced p) : p.Proper := by
  induction h with
  | @generate k => exact k.isPair
  | @decode k => exact k.isPair
  | @nonce r => exact r.isPair
  | @derive r => exact r.isPair
  | @deal d => exact d.key.isPair
  | start started =>
    obtain ⟨_, key, nonce⟩ := Session.fields_of_start started
    obtain ⟨_, _, proper⟩ := Suite.jointKey_eq_ok_iff.1 key
    obtain ⟨_, _, proper'⟩ := Suite.jointNonce_eq_ok_iff.1 nonce
    exact ⟨proper, proper'⟩
  | respond m _ ih =>
    rw [Product.Proper, Session.jointKey_respond, Session.jointNonce_respond]
    exact ih
  | sign signed =>
    obtain ⟨r, _, _, signed⟩ := Sampler.bind_eq_some_iff.1 signed
    obtain ⟨signed, _⟩ := Sampler.pure_eq_some_iff.1 signed
    rw [Product.Proper, SigningKey.nonce_of_signWith signed]
    exact r.point_ne_zero
  | signDerived signed =>
    obtain ⟨r, _, signed⟩ := bind_eq_ok_iff.1 signed
    rw [Product.Proper, SigningKey.nonce_of_signWith signed]
    exact r.point_ne_zero
  | combine responses _ ih => exact ih.2
  | reconstruct reconstructed =>
    obtain ⟨_, committed, _⟩ := SignatureShare.reconstruct_eq_ok_iff.1 reconstructed
    obtain ⟨_, _, _, _, _, nonzero⟩ := SignatureShare.checkCommitments_eq_ok_iff.1 committed
    exact nonzero

end Produced

def Dealer.Brings (tape : Bytes) (k : SigningKey S) : Dealer → Prop
  | fresh _ => ∃ rest, SigningKey.generate tape = some (k, rest)
  | known secret => SigningKey.decode secret = .ok k

theorem Dealer.brings_of_deal {q : Quorum} {dealer : Dealer} {tape rest : Bytes}
    {log : Logged (Dealing S)} {d : Dealing S} (run : dealer.deal S q tape = some (log, rest))
    (ok : log.outcome = .ok d) : dealer.Brings tape d.key := by
  cases dealer with
  | fresh given =>
    obtain ⟨k, middle, drawn, run⟩ := Sampler.bind_eq_some_iff.1 run
    obtain ⟨rfl, _⟩ := Dealing.regular_of_outcome run ok
    exact ⟨middle, drawn⟩
  | known secret =>
    obtain ⟨e, _, rfl, _⟩ | ⟨k, decoded, run⟩ := Dealing.ofSecret_eq_some_iff.1 run
    · cases ok
    · obtain ⟨rfl, _⟩ := Dealing.regular_of_outcome run ok
      exact decoded

theorem Signature.verify_of_identity (rejects : S.RejectsIdentity) {g : Signature S} {P : S.Point}
    (identity : g.nonce = 0 ∨ P = 0) (scheme : Scheme) (m : Bytes) :
    g.verify scheme P m ≠ .ok () := by
  intro passes
  obtain ⟨e, challenge, _⟩ := bind_eq_ok_iff.1 passes
  obtain ⟨⟨r, nonce⟩, p, key⟩ := Suite.exists_encode_of_challenge challenge
  obtain zero | rfl := identity
  · exact rejects r (zero ▸ nonce)
  · exact rejects p key

/-- Nothing improper is produced.  The secrets that are read and derived are refused for being zero
and for nothing else, and those that are drawn for being zero are drawn again.  Where the encoder
refuses the identity, nothing passes under it or with it as the nonce. -/
theorem identity_excluded [S.Lawful] :
    (∀ p : Product S, Produced p → p.Proper) ∧
    (∀ (k : SigningKey S) (tape rest : Bytes), SigningKey.generate tape = some (k, rest) ↔
      ∃ n middle, Sampler.list S.scalar n tape = some (List.replicate n 0, middle) ∧
        S.scalar middle = some (k.secret, rest)) ∧
    (∀ (r : Nonce S) (tape rest : Bytes), Nonce.generate tape = some (r, rest) ↔
      SigningKey.generate tape = some (r.toSigningKey, rest)) ∧
    (∀ b, (∀ k : SigningKey S, SigningKey.decode b = .ok k ↔ S.decodeScalar b = .ok k.secret) ∧
      (S.decodeScalar b = .ok 0 →
        (SigningKey.decode b : Except Error (SigningKey S)) = .error (.malformed .zeroSecret))) ∧
    (∀ (k : SigningKey S) (m : Bytes),
      (∀ r, Nonce.derive k m = .ok r ↔ r.secret = Nonce.derivedSecret k m) ∧
      (Nonce.derivedSecret k m = 0 → Nonce.derive k m = .error (.malformed .zeroSecret))) ∧
    (∀ (dealer : Dealer) (q : Quorum) (tape rest : Bytes) (log : Logged (Dealing S)) d,
      dealer.deal S q tape = some (log, rest) → log.outcome = .ok d → dealer.Brings tape d.key) ∧
    (S.RejectsIdentity → ∀ (g : Signature S) (P : S.Point), g.nonce = 0 ∨ P = 0 →
      ∀ scheme m, g.verify scheme P m ≠ .ok ()) := by
  refine ⟨fun _ => Produced.proper, fun _ _ _ => SigningKey.generate_eq_some_iff,
    fun _ _ _ => Nonce.generate_eq_some_iff, ?decoded, ?derived,
    fun _ _ _ _ _ _ => Dealer.brings_of_deal,
    fun rejects _ _ => Signature.verify_of_identity rejects⟩
  case decoded =>
    intro b
    exact ⟨fun _ => SigningKey.decode_eq_ok_iff, SigningKey.decode_of_zero⟩
  case derived =>
    intro k m
    exact ⟨fun _ => Nonce.derive_eq_ok_iff, Nonce.derive_of_zero⟩

theorem identity_excluded_of_summing :
    let G := Suite.summing.power
    let tape : Bytes := List.replicate 8 0 ++ [1, 0, 0, 0, 0, 0, 0, 0]
    let k : SigningKey Suite.summing := ⟨4, by decide, G 4, rfl⟩
    let r : Nonce Suite.summing := ⟨⟨5, by decide, G 5, rfl⟩⟩
    SigningKey.generate tape = some (k, []) ∧ Suite.summing.IsPair k.secret k.point ∧
      (∃ s, (Session.start [G 4, G 3] [G 5, G 1] k r).outcome = .ok s ∧
        ∀ m responses, ((s.respond m).2.combine responses).nonce ≠ 0) ∧
      ∀ scheme m, (⟨0, 0⟩ : Signature Suite.summing).verify scheme (G 3) m ≠ .ok () := by
  intro G tape k r
  obtain ⟨proper, drawn, _, _, _, _, verify⟩ := identity_excluded (S := Suite.summing)
  have rejects : Suite.summing.RejectsIdentity :=
    Suite.rejectsIdentity_residues Suite.summing.order
  have generated : SigningKey.generate tape = some (k, []) :=
    (drawn k tape []).2 ⟨1, [1, 0, 0, 0, 0, 0, 0, 0], rfl, rfl⟩
  have listed : Session.Listed [G 4, G 3] [G 5, G 1] k r := ⟨by decide, by decide⟩
  have encodable : ∀ X ∈ [G 4, G 3], ∃ b, Suite.summing.encode X = .ok b :=
    List.forall_mem_cons.2 ⟨⟨_, rfl⟩, List.forall_mem_singleton.2 ⟨_, rfl⟩⟩
  obtain ⟨s, started⟩ := (Session.exists_start_iff listed).2 <|
    Session.exists_jointPoints_iff.2
      ⟨rfl, encodable, by decide, by decide +kernel, by decide⟩
  refine ⟨generated, proper _ (.generate generated), ⟨s, started, ?_⟩,
    verify rejects ⟨0, 0⟩ (G 3) (.inl rfl)⟩
  intro m responses
  exact proper _ (.combine responses (.respond m (.start started)))

end JointSchnorr
