import JointSchnorr.Proofs.Cosigning.Agreement
import JointSchnorr.Wallet

namespace JointSchnorr.Wallet

variable {S : Suite}

inductive Command (S : Suite)
  | addKey (name : String) (k : SigningKey S)
  | addNonce (name : String) (r : Nonce S)
  | addDealing (name : String) (d : Dealing S)
  | addShare (name : String) (s : JointShare S)
  | startSession (key nonce : String) (store : Option String) (signers nonces : List S.Point)
  | respond (session : String) (m : Bytes)
  | respondWithShare (share nonceShare : String) (Y V : S.Point) (m : Bytes)

inductive Secret (S : Suite)
  | nonce (r : Nonce S)
  | share (s : JointShare S)

def Command.secrets : Command S → List (Secret S)
  | addNonce _ r => [.nonce r]
  | addShare _ s => [.share s]
  | _ => []

inductive Answer (S : Suite)
  | added
  | unknown
  | session (outcome : Except Error (Session S))
  | response (outcome : Except Error (Nat × S.Scalar))
  | shareResponse (outcome : Except Error (Nat × S.Scalar × SignatureShare S))

/-- The numbers of the nonces, and of the shares of nonces, that the answer was made with. -/
def Answer.used : Answer S → List Nat
  | response (.ok (n, _)) => [n]
  | shareResponse (.ok (n, _)) => [n]
  | _ => []

def step (w : Wallet S) : Command S → Answer S × Wallet S
  | .addKey name k => (.added, w.addKey name k)
  | .addNonce name r => (.added, w.addNonce name r)
  | .addDealing name d => (.added, w.addDealing name d)
  | .addShare name s => (.added, w.addShare name s)
  | .startSession key nonce store signers nonces =>
    match w.startSession key nonce store signers nonces with
    | none => (.unknown, w)
    | some (started, w') => (.session started.outcome, w')
  | .respond session m =>
    match w.respond session m with
    | none => (.unknown, w)
    | some (answer, w') => (.response answer, w')
  | .respondWithShare share nonceShare Y V m =>
    match w.respondWithShare share nonceShare Y V m with
    | none => (.unknown, w)
    | some (answer, w') => (.shareResponse answer, w')

def run (w : Wallet S) : List (Command S) → List (Answer S) × Wallet S
  | [] => ([], w)
  | c :: cs => ((w.step c).1 :: ((w.step c).2.run cs).1, ((w.step c).2.run cs).2)

def secrets (cs : List (Command S)) : List (Secret S) := cs.flatMap Command.secrets

def used (answers : List (Answer S)) : List Nat := answers.flatMap Answer.used

variable {w w' : Wallet S}

theorem startSession_eq_some {key nonce : String} {store : Option String}
    {signers nonces : List S.Point} {started : Logged (Session S)}
    (called : w.startSession key nonce store signers nonces = some (started, w')) :
    ∃ k r, w.nonces.get? nonce = some r ∧ started = Session.start signers nonces k r.object ∧
      (w' = { w with nonces := w.nonces.remove nonce } ∨
        ∃ name s, started.outcome = .ok s ∧
          w' = ({ w with nonces := w.nonces.remove nonce } : Wallet S).addSession name
            ⟨r.number, s⟩) := by
  obtain ⟨k, _, called⟩ := Option.bind_eq_some_iff.1 called
  obtain ⟨r, hr, called⟩ := Option.bind_eq_some_iff.1 called
  refine ⟨k, r, hr, ?_⟩
  cases outcome : (Session.start signers nonces k r.object).outcome with
  | error e =>
    simp only [outcome] at called
    cases called
    exact ⟨rfl, .inl rfl⟩
  | ok s =>
    cases store <;> simp only [outcome] at called <;> cases called
    · exact ⟨rfl, .inl rfl⟩
    · exact ⟨rfl, .inr ⟨_, s, outcome, rfl⟩⟩

theorem run_concat (w : Wallet S) (cs : List (Command S)) (c : Command S) :
    (w.run (cs ++ [c])).2 = ((w.run cs).2.step c).2 := by
  induction cs generalizing w with
  | nil => rfl
  | cons c' cs ih => exact ih (w.step c').2

theorem startSession_of_ok {key nonce name : String} {signers nonces : List S.Point}
    {k : SigningKey S} {r : Numbered (Nonce S)} {s : Session S} (hk : w.keys.get? key = some k)
    (hr : w.nonces.get? nonce = some r)
    (ok : (Session.start signers nonces k r.object).outcome = .ok s) :
    w.startSession key nonce (some name) signers nonces =
      some (Session.start signers nonces k r.object,
        ({ w with nonces := w.nonces.remove nonce } : Wallet S).addSession name ⟨r.number, s⟩) := by
  rw [startSession, hk, hr]
  simp only [Option.bind_eq_bind, Option.bind_some, ok]
  rfl

theorem respond_of_get? {session : String} {n : Nat} {s : Session S}
    (hs : w.sessions.get? session = some ⟨n, s⟩) (m : Bytes) :
    w.respond session m =
      some ((s.respond m).1.map ((n, ·)), w.addSession session ⟨n, (s.respond m).2⟩) := by
  rw [respond, hs]
  rfl

theorem respond_eq_some {session : String} {m : Bytes} {answer : Except Error (Nat × S.Scalar)}
    (h : w.respond session m = some (answer, w')) :
    ∃ n s, w.sessions.get? session = some ⟨n, s⟩ ∧ answer = (s.respond m).1.map ((n, ·)) ∧
      w' = w.addSession session ⟨n, (s.respond m).2⟩ := by
  obtain ⟨⟨n, s⟩, hs, _⟩ := Option.bind_eq_some_iff.1 h
  rw [respond_of_get? hs] at h
  cases h
  exact ⟨n, s, hs, rfl, rfl⟩

theorem respondWithShare_eq_some {share nonceShare : String} {Y V : S.Point} {m : Bytes}
    {answer : Except Error (Nat × S.Scalar × SignatureShare S)}
    (h : w.respondWithShare share nonceShare Y V m = some (answer, w')) :
    ∃ r s : Numbered (JointShare S), w.shares.get? nonceShare = some r ∧
      answer = (s.object.respond r.object Y V m).map ((r.number, ·)) ∧
      w' = { w with shares := w.shares.remove nonceShare } := by
  obtain ⟨r, hr, h⟩ := Option.bind_eq_some_iff.1 h
  obtain ⟨s, _, h⟩ := Option.bind_eq_some_iff.1 h
  cases h
  exact ⟨r, s, hr, rfl, rfl⟩

/-- What a command can do to the nonces, the sessions and the shares: the secrets it adds and
the numbers it uses. -/
inductive Effect (w : Wallet S) : List (Secret S) → List Nat → Wallet S → Prop
  | other (keys : Slots (SigningKey S)) (dealings : Slots (Dealing S)) :
      Effect w [] [] { w with keys := keys, dealings := dealings }
  | addNonce (name : String) (r : Nonce S) : Effect w [.nonce r] [] (w.addNonce name r)
  | addShare (name : String) (s : JointShare S) : Effect w [.share s] [] (w.addShare name s)
  | dropNonce {nonce : String} {r : Numbered (Nonce S)} : w.nonces.get? nonce = some r →
      Effect w [] [] { w with nonces := w.nonces.remove nonce }
  | start {nonce : String} {r : Numbered (Nonce S)} (name : String) {s : Session S} :
      w.nonces.get? nonce = some r → s.nonce = some r.object →
      Effect w [] [] (({ w with nonces := w.nonces.remove nonce } : Wallet S).addSession name
        ⟨r.number, s⟩)
  | refuse {session : String} {s : Numbered (Session S)} : w.sessions.get? session = some s →
      Effect w [] [] (w.addSession session s)
  | answer {session : String} {n : Nat} {s : Session S} : w.sessions.get? session = some ⟨n, s⟩ →
      s.spent = false → Effect w [] [n] (w.addSession session ⟨n, { s with nonce := none }⟩)
  | dropShare {name : String} {s : Numbered (JointShare S)} : w.shares.get? name = some s →
      Effect w [] [] { w with shares := w.shares.remove name }
  | useShare {name : String} {s : Numbered (JointShare S)} : w.shares.get? name = some s →
      Effect w [] [s.number] { w with shares := w.shares.remove name }

theorem effect_step (w : Wallet S) (c : Command S) :
    Effect w c.secrets (w.step c).1.used (w.step c).2 := by
  cases c with
  | addKey name k => exact .other _ _
  | addNonce name r => exact .addNonce name r
  | addDealing name d => exact .other _ _
  | addShare name s => exact .addShare name s
  | startSession key nonce store signers nonces =>
    cases called : w.startSession key nonce store signers nonces with
    | none =>
      simp only [step, called]
      exact .other _ _
    | some result =>
      obtain ⟨started, w'⟩ := result
      simp only [step, called]
      obtain ⟨_, r, hr, rfl, rfl | ⟨name, s, ok, rfl⟩⟩ := startSession_eq_some called
      · exact .dropNonce hr
      · exact .start name hr (Session.fields_of_start ok).1
  | respond session m =>
    cases called : w.respond session m with
    | none =>
      simp only [step, called]
      exact .other _ _
    | some result =>
      obtain ⟨answer, w'⟩ := result
      simp only [step, called]
      obtain ⟨n, s, hs, rfl, rfl⟩ := respond_eq_some called
      obtain ⟨e, refused⟩ | ⟨fresh, z, answered⟩ := s.respond_cases m
      · rw [refused]
        exact .refuse hs
      · rw [answered]
        exact .answer hs (Option.isNone_eq_false_iff.2 fresh)
  | respondWithShare share nonceShare Y V m =>
    cases called : w.respondWithShare share nonceShare Y V m with
    | none =>
      simp only [step, called]
      exact .other _ _
    | some result =>
      obtain ⟨answer, w'⟩ := result
      simp only [step, called]
      obtain ⟨r, s, hr, rfl, rfl⟩ := respondWithShare_eq_some called
      cases s.object.respond r.object Y V m with
      | error e => exact .dropShare hr
      | ok z => exact .useShare hr

end JointSchnorr.Wallet
