import JointSchnorr.Proofs.Cosigning.Completeness
import JointSchnorr.Proofs.Wallet.Numbering
import JointSchnorr.Proofs.Wallet.Tally

namespace JointSchnorr.Wallet

variable {S : Suite} {w w' : Wallet S} {n : Nat}

inductive Holds (w : Wallet S) (n : Nat) : Prop
  | nonce {name : String} {r : Nonce S} : w.nonces.get? name = some ⟨n, r⟩ → Holds w n
  | session {name : String} {s : Session S} : w.sessions.get? name = some ⟨n, s⟩ → Holds w n
  | share {name : String} {s : JointShare S} : w.shares.get? name = some ⟨n, s⟩ → Holds w n

/-- Nothing that the wallet is told from now on brings the object back. -/
def Gone (w : Wallet S) (n : Nat) : Prop :=
  ∀ cs, n ∉ used (w.run cs).1 ∧ ¬(w.run cs).2.Holds n

def Spent (w : Wallet S) (n : Nat) : Prop :=
  ∀ cs name s m, (w.run cs).2.sessions.get? name = some ⟨n, s⟩ →
    ∃ w', (w.run cs).2.respond name m = some (.error .nonceSpent, w')

theorem Holds.lt_occurrences (h : w.Holds n) :
    (if w.next ≤ n then 1 else 0) < occurrences n w := by
  rw [occurrences, tally]
  cases h with
  | nonce hr =>
    have counted := Slots.count_pos (p := (·.number == n)) hr (beq_self_eq_true n)
    omega
  | @session name s hs =>
    have counted : 0 < w.sessions.count fun s => s.number == n && true :=
      Slots.count_pos hs (by simp)
    omega
  | share hs =>
    have counted := Slots.count_pos (p := (·.number == n)) hs (beq_self_eq_true n)
    omega

theorem live_pos_of_next_le (h : w.next ≤ n) : 0 < live n w := by
  rw [live, tally, if_pos h]
  omega

theorem gone_of_occurrences (h : occurrences n w = 0) : w.Gone n := by
  intro cs
  have remaining : occurrences n (w.run cs).2 ≤ occurrences n w := tally_run_le (fun _ => id) w cs
  have uses := live_run_add_le (n := n) w cs
  have alive : live n w ≤ occurrences n w := tally_le_occurrences _ n w
  constructor
  · rw [← List.count_eq_zero]
    omega
  · intro held
    have := held.lt_occurrences
    omega

theorem gone_of_removed (once : occurrences n w ≤ 1)
    (removed : occurrences n w' + (n == n).toNat ≤ occurrences n w) : w'.Gone n := by
  rw [beq_self_eq_true, Bool.toNat_true] at removed
  exact gone_of_occurrences (by omega)

theorem spent_of_live (h : live n w = 0) : w.Spent n := by
  intro cs name s m hs
  have remaining := live_run_add_le (n := n) w cs
  have spent : s.nonce = none := by
    cases hn : s.nonce with
    | none => rfl
    | some r =>
      have fresh : (!s.spent) = true := by rw [Session.spent, hn]; rfl
      have alive : 0 < live n (w.run cs).2 := tally_pos_of_session hs fresh
      omega
  rw [respond_of_get? hs, Session.respond_of_spent spent]
  exact ⟨_, rfl⟩

theorem gone_of_startSession (once : occurrences n w ≤ 1) {key nonce : String}
    {store : Option String} {signers nonces : List S.Point} {r : Nonce S}
    {started : Logged (Session S)} {e : Error} (hr : w.nonces.get? nonce = some ⟨n, r⟩)
    (called : w.startSession key nonce store signers nonces = some (started, w'))
    (failed : started.outcome = .error e) : w'.Gone n := by
  obtain ⟨_, _, hr', _, rfl | ⟨_, _, succeeded, _⟩⟩ := startSession_eq_some called
  · cases hr.symm.trans hr'
    exact gone_of_removed once (tally_remove_nonce hr)
  · cases failed.symm.trans succeeded

theorem gone_of_respondWithShare (once : occurrences n w ≤ 1) {share nonceShare : String}
    {Y V : S.Point} {m : Bytes} {r : JointShare S}
    {answer : Except Error (Nat × S.Scalar × SignatureShare S)}
    (hr : w.shares.get? nonceShare = some ⟨n, r⟩)
    (called : w.respondWithShare share nonceShare Y V m = some (answer, w')) : w'.Gone n := by
  obtain ⟨_, _, hr', _, rfl⟩ := respondWithShare_eq_some called
  cases hr.symm.trans hr'
  exact gone_of_removed once (tally_remove_share hr)

theorem number_of_respondWithShare {share nonceShare : String} {Y V : S.Point} {m : Bytes}
    {r : JointShare S} {k : Nat} {z : S.Scalar × SignatureShare S}
    (hr : w.shares.get? nonceShare = some ⟨n, r⟩)
    (answered : w.respondWithShare share nonceShare Y V m = some (.ok (k, z), w')) : k = n := by
  obtain ⟨_, _, hr', answer, _⟩ := respondWithShare_eq_some answered
  cases hr.symm.trans hr'
  exact fst_of_map_eq_ok answer.symm

theorem respond_error {session : String} {m : Bytes} {e : Error}
    (failed : w.respond session m = some (.error e, w')) :
    w' = { w with sessions := w'.sessions } ∧
      ∀ name, w'.sessions.get? name = w.sessions.get? name := by
  obtain ⟨n, s, hs, answer, rfl⟩ := respond_eq_some failed
  refine ⟨rfl, fun name => ?_⟩
  obtain ⟨_, refused⟩ | ⟨_, _, answered⟩ := s.respond_cases m
  · rw [refused]
    by_cases same : name = session
    · rw [same, hs]
      exact Slots.get?_set_self _ _ _
    · exact Slots.get?_set_of_ne _ same _
  · rw [answered] at answer
    cases answer

theorem respond_ok (once : occurrences n w ≤ 1) {session : String} {s : Session S} {m : Bytes}
    {k : Nat} {z : S.Scalar} (hs : w.sessions.get? session = some ⟨n, s⟩)
    (answered : w.respond session m = some (.ok (k, z), w')) : k = n ∧ w'.Spent n := by
  obtain ⟨_, _, hs', answer, _⟩ := respond_eq_some answered
  cases hs.symm.trans hs'
  have number : k = n := fst_of_map_eq_ok answer.symm
  have effect := w.effect_step (.respond session m)
  simp only [step, answered, Answer.used, number] at effect
  have left := effect.live_add_le (n := n)
  have alive : live n w ≤ occurrences n w := tally_le_occurrences _ n w
  rw [List.count_singleton_self] at left
  exact ⟨number, spent_of_live (by omega)⟩

def hasOtherPoints (X R : S.Point) (s : Session S) : Bool :=
  !decide (s.jointKey = X ∧ s.jointNonce = R)

theorem points_of_session (once : occurrences n w ≤ 1) {session : String} {s : Session S}
    (hs : w.sessions.get? session = some ⟨n, s⟩) (cs : List (Command S)) {name : String}
    {s' : Session S} (hs' : (w.run cs).2.sessions.get? name = some ⟨n, s'⟩) :
    s'.jointKey = s.jointKey ∧ s'.jointNonce = s.jointNonce := by
  -- the number occurs in this session alone, so it never gets into one with other points
  by_contra different
  have own : hasOtherPoints s.jointKey s.jointNonce s = false := by simp [hasOtherPoints]
  have other : hasOtherPoints s.jointKey s.jointNonce s' = true := by
    rw [hasOtherPoints, decide_eq_false different]
    rfl
  have before := tally_lt_of_session hs own
  have kept : tally (hasOtherPoints s.jointKey s.jointNonce) n (w.run cs).2 ≤
      tally (hasOtherPoints s.jointKey s.jointNonce) n w := tally_run_le (fun _ => id) w cs
  have after := tally_pos_of_session hs' other
  omega

theorem occurrences_run_le (cs : List (Command S)) (n : Nat) :
    occurrences n (run {} cs).2 ≤ 1 :=
  Nat.le_trans (tally_run_le (fun _ => id) {} cs) (Nat.le_of_eq (tally_empty _ n))

theorem live_run_empty_add_le (cs : List (Command S)) (n : Nat) :
    live n (run {} cs).2 + (used (run {} cs).1).count n ≤ 1 :=
  Nat.le_trans (live_run_add_le {} cs) (Nat.le_of_eq (tally_empty _ n))

/-- In every run each nonce and each share of a nonce goes into one answer at most.  An attempt that
fails takes it away for good, but a session that fails to respond stays as it is. -/
theorem nonce_single_use (before : List (Command S)) :
    let w := (run {} before).2
    (∀ n, (used (run {} before).1).count n ≤ 1) ∧
    (∀ n, (secrets before).length ≤ n → n ∉ used (run {} before).1 ∧ ¬w.Holds n) ∧
    (∀ n nonce r, w.nonces.get? nonce = some ⟨n, r⟩ →
      (secrets before)[n]? = some (.nonce r) ∧
      ∀ key store signers nonces started e w',
        w.startSession key nonce store signers nonces = some (started, w') →
        started.outcome = .error e → w'.Gone n) ∧
    (∀ n nonceShare r, w.shares.get? nonceShare = some ⟨n, r⟩ →
      (secrets before)[n]? = some (.share r) ∧
      ∀ share Y V m answer w', w.respondWithShare share nonceShare Y V m = some (answer, w') →
        w'.Gone n ∧ ∀ k z, answer = .ok (k, z) → k = n) ∧
    ∀ n session s, w.sessions.get? session = some ⟨n, s⟩ →
      (∀ r, s.nonce = some r → (secrets before)[n]? = some (.nonce r)) ∧
      (∀ m e w', w.respond session m = some (.error e, w') →
        w' = { w with sessions := w'.sessions } ∧
          ∀ name, w'.sessions.get? name = w.sessions.get? name) ∧
      (∀ m k z w', w.respond session m = some (.ok (k, z), w') → k = n ∧ w'.Spent n) ∧
      ∀ after name s', (w.run after).2.sessions.get? name = some ⟨n, s'⟩ →
        s'.jointKey = s.jointKey ∧ s'.jointNonce = s.jointNonce := by
  intro w
  have once : ∀ n, occurrences n w ≤ 1 := occurrences_run_le before
  have uses : ∀ n, live n w + (used (run {} before).1).count n ≤ 1 := live_run_empty_add_le before
  have numbers : Numbers (secrets before) w := Numbers.empty.run before
  refine ⟨fun n => Nat.le_of_add_left_le (uses n), ?later, ?nonce, ?share, ?session⟩
  case later =>
    -- the one occurrence of such a number is the one that is still to be given out
    intro n hn
    rw [← numbers.next] at hn
    constructor
    · have available : 0 < live n w := live_pos_of_next_le hn
      have use := uses n
      rw [← List.count_eq_zero]
      omega
    · intro held
      have second := held.lt_occurrences
      rw [if_pos hn] at second
      exact absurd (once n) (Nat.not_le.2 second)
  case nonce =>
    intro n nonce r hr
    refine ⟨numbers.nonce hr, fun key store signers nonces started e w' called failed => ?_⟩
    exact gone_of_startSession (once n) hr called failed
  case share =>
    intro n nonceShare r hr
    refine ⟨numbers.share hr, fun share Y V m answer w' called => ?_⟩
    refine ⟨gone_of_respondWithShare (once n) hr called, fun k z answered => ?_⟩
    rw [answered] at called
    exact number_of_respondWithShare hr called
  case session =>
    intro n session s hs
    exact ⟨fun r hr => numbers.session hs hr, fun _ _ _ => respond_error,
      fun _ _ _ _ => respond_ok (once n) hs, fun after _ _ => points_of_session (once n) hs after⟩

theorem nonce_single_use_of_two :
    let G := Suite.seven.power
    let k : SigningKey Suite.seven := ⟨2, by decide, G 2, rfl⟩
    let r : Nonce Suite.seven := ⟨⟨1, by decide, G 1, rfl⟩⟩
    let r' : Nonce Suite.seven := ⟨⟨3, by decide, G 3, rfl⟩⟩
    let additions := [.addKey "key" k, .addNonce "nonce" r, .addNonce "other nonce" r',
      .addShare "share" ⟨0, 1⟩, .addShare "nonce share" ⟨1, 1⟩,
      .addShare "other share" ⟨0, 3⟩]
    let before := additions ++
      [.startSession "key" "nonce" (some "session") [G 2, G 2] [G 1, G 3]]
    let w := (run {} before).2
    (∃ started e w', w.startSession "key" "other nonce" none [] [G 1] = some (started, w') ∧
      started.outcome = .error e ∧ w'.Gone 1) ∧
    (∃ e w', w.respondWithShare "share" "nonce share" 0 0 [] = some (.error e, w') ∧ w'.Gone 3) ∧
    (∃ z w', w.respondWithShare "share" "other share" (G 1) (G 3) [7] = some (.ok (4, z), w') ∧
      w'.Gone 4) ∧
    ∃ z w', w.respond "session" [7] = some (.ok (0, z), w') ∧ w'.Spent 0 := by
  intro G k r r' additions before w
  let ps : Cosigners Suite.seven := [(k, r), (k, r')]
  have key : ps.jointKey ≠ 0 := Session.weightedSum_pair_ne_zero
  have nonce : ps.jointNonce ≠ 0 := (by decide : Suite.seven.sum [G 1, G 3] ≠ 0)
  have started : (Session.start [G 2, G 2] [G 1, G 3] k r).outcome = .ok (ps.session (k, r)) :=
    Cosigners.start_eq_ok (S := Suite.seven) Suite.exists_encode_residues key nonce (.head _)
  let v : Wallet Suite.seven := ⟨5, [("key", k)], [("other nonce", ⟨1, r'⟩)],
    [("session", ⟨0, ps.session (k, r)⟩)], [],
    [("other share", ⟨4, 0, 3⟩), ("nonce share", ⟨3, 1, 1⟩), ("share", ⟨2, 0, 1⟩)]⟩
  have final : (run {} before).2 = v := by
    have hk : (run {} additions).2.keys.get? "key" = some k := rfl
    have hr : (run {} additions).2.nonces.get? "nonce" = some ⟨0, r⟩ := rfl
    rw [run_concat, step, startSession_of_ok hk hr started]
    rfl
  have uses := nonce_single_use before
  rw [final] at uses
  obtain ⟨_, _, nonces, shares, sessions⟩ := uses
  have hw : w = v := final
  rw [hw]
  refine ⟨?start, ?refused, ?answered, ?session⟩
  case start =>
    have hr : v.nonces.get? "other nonce" = some ⟨1, r'⟩ := rfl
    exact ⟨_, _, _, rfl, rfl, (nonces 1 _ _ hr).2 "key" none [] [G 1] _ _ _ rfl rfl⟩
  case refused =>
    have hs : v.shares.get? "nonce share" = some ⟨3, 1, 1⟩ := rfl
    exact ⟨_, _, rfl, ((shares 3 _ _ hs).2 "share" 0 0 [] _ _ rfl).1⟩
  case answered =>
    have hs : v.shares.get? "other share" = some ⟨4, 0, 3⟩ := rfl
    obtain ⟨e, challenge⟩ := Suite.exists_challenge (S := Suite.seven)
      Suite.exists_encode_residues .threshold (R := G 3) (P := G 1) (by decide) (by decide) [7]
    have called : v.respondWithShare "share" "other share" (G 1) (G 3) [7] = some
        (.ok (4, e, ⟨0, 3 + e * 1⟩), { v with shares := v.shares.remove "other share" }) := by
      change some ((JointShare.respond ⟨0, 1⟩ ⟨0, 3⟩ (G 1) (G 3) [7]).map _, _) = _
      rw [JointShare.respond, if_neg (not_not.2 rfl), challenge]
      rfl
    exact ⟨_, _, called, ((shares 4 _ _ hs).2 _ _ _ _ _ _ called).1⟩
  case session =>
    have hs : v.sessions.get? "session" = some ⟨0, ps.session (k, r)⟩ := rfl
    obtain ⟨c, challenge⟩ := Suite.exists_challenge (S := Suite.seven)
      Suite.exists_encode_residues .aggregate nonce key [7]
    have answered := Session.respond_of_challenge (s := ps.session (k, r)) rfl challenge
    have called := respond_of_get? hs [7]
    rw [answered] at called
    exact ⟨_, _, called, ((sessions 0 _ _ hs).2.2.1 _ _ _ _ called).2⟩

end JointSchnorr.Wallet
