import JointSchnorr.Proofs.Cosigning.Agreement
import JointSchnorr.Proofs.Recognition
import JointSchnorr.Proofs.Sharing.Accusation
import JointSchnorr.Proofs.Sharing.Blame
import JointSchnorr.Proofs.Sharing.Dealing
import JointSchnorr.Proofs.Sharing.Opening

/-!
The events are a function of the outcome and of what is public about the input: they repeat the
outcome to an observer and say nothing of the secrets behind it.
-/

namespace JointSchnorr

variable {S : Suite}

namespace Logged

variable {α β : Type} {told : Except Error α → List Event}

/-- The events are those that `told` names for the outcome. -/
def Accounts (told : Except Error α → List Event) (x : Logged α) : Prop :=
  x.events = told x.outcome

namespace Accounts

theorem fail {e : Error} (silent : told (.error e) = []) : Accounts told (Logged.fail e) :=
  silent.symm

theorem emit_pure {es : List Event} {a : α} (h : told (.ok a) = es) :
    Accounts told (do emit es; return a) := by
  rw [Accounts, outcome_bind, events_bind_of_ok (outcome_emit es), events_emit, events_pure,
    List.append_nil, ← h]
  rfl

theorem ite {p : Prop} [Decidable p] {x y : Logged α} (hx : Accounts told x)
    (hy : Accounts told y) : Accounts told (if p then x else y) := by
  split
  · exact hx
  · exact hy

theorem check {x : Except Error β} {f : β → Logged α}
    (silent : FailsOnly (fun e => told (.error e) = []) x) (rest : ∀ b, Accounts told (f b)) :
    Accounts told (liftM x >>= f) := by
  cases x with
  | error e => exact fail (silent e rfl)
  | ok b => exact rest b

theorem blame {bad : List Position} {event : Position → Event} {e : Error} {x : Logged α}
    (blamed : told (.error e) = bad.map event) (rest : Accounts told x) :
    Accounts told (do
      emit (bad.map event)
      if bad ≠ [] then Logged.fail e else x) := by
  by_cases clean : bad = []
  · rw [if_neg (not_not.2 clean), clean]
    exact rest
  · rw [if_pos clean, Accounts, outcome_bind, events_bind_of_ok (outcome_emit _), events_emit,
      ← blamed]
    exact List.append_nil _

theorem forM {told : Except Error Unit → List Event} {l : List β} {f : β → Logged Unit}
    (done : told (.ok ()) = []) (step : ∀ b ∈ l, Accounts told (f b)) :
    Accounts told (l.forM f) := by
  induction l with
  | nil => exact done.symm
  | cons b l ih =>
    obtain ⟨first, later⟩ := List.forall_mem_cons.1 step
    have rest := ih later
    change Accounts told (f b >>= fun _ => l.forM f)
    rw [Accounts] at first rest ⊢
    -- a step that succeeds has nothing to say, so all events are from the step that fails
    cases outcome : (f b).outcome with
    | error e => rw [outcome_bind, events_bind_of_error outcome, first, outcome]; rfl
    | ok _ =>
      rw [outcome_bind, events_bind_of_ok outcome, first, outcome, done, List.nil_append, rest]
      rfl

end Accounts

end Logged

inductive Shown where
  | nothing
  | position (me : Position)
  | scheme (found : Option Scheme)

/-- What is public about an operation's input: parameters, positions and lengths of lists. -/
inductive Setting where
  | dealing (q : Quorum) (given : Option (List Position))
  | opening (q : Quorum) (positions : List Position) (sizes : List Nat)
  | combining (q : Quorum) (positions : List Position) (sizes : List Nat)
  | reconstructing (q : Quorum) (signers : List Position) (sizes : List Nat)
  | starting (signers nonces : Nat)
  | reading (hint : Option Scheme)

namespace Setting

def onSuccess : Setting → Shown → List Event
  | dealing q _, .nothing => [.dealt q.parties q.threshold]
  | combining _ positions _, .position me => [.sharesCombined me positions.length]
  | reconstructing q signers _, .nothing => [.reconstructed signers.length q.threshold]
  | starting signers _, .nothing => [.sessionReady signers]
  | reading (some hint), .scheme found => [.recognised hint found]
  | _, _ => []

def onError : Setting → Error → List Event
  | opening .., .keyOpening dealer => [.unopenedKey dealer]
  | combining .., .badShares me bad => bad.map (.badShare me)
  | reconstructing .., .badResponses bad => bad.map .badResponse
  | _, _ => []

def report (setting : Setting) : Except Error Shown → List Event
  | .ok a => setting.onSuccess a
  | .error e => setting.onError e

def tells {α : Type} (setting : Setting) (shown : α → Shown) (outcome : Except Error α) :
    List Event :=
  setting.report (outcome.map shown)

def TellsSuccess : Setting → Prop
  | opening .. => False
  | reading hint => hint.isSome
  | _ => True

end Setting

def Event.blamed? : Event → Option Position
  | unopenedKey dealer => some dealer
  | badShare _ accused => some accused
  | badResponse signer => some signer
  | _ => none

def outcomeOf : List Event → Option (Except Error Shown)
  | [] => none
  | .unopenedKey dealer :: _ => some (.error (.keyOpening dealer))
  | .badShare me i :: rest => some (.error (.badShares me (i :: rest.filterMap Event.blamed?)))
  | .badResponse i :: rest => some (.error (.badResponses (i :: rest.filterMap Event.blamed?)))
  | .sharesCombined me _ :: _ => some (.ok (.position me))
  | .recognised _ found :: _ => some (.ok (.scheme found))
  | _ :: _ => some (.ok .nothing)

theorem filterMap_blamed?_map {event : Position → Event}
    (blamed : ∀ i, (event i).blamed? = some i) (bad : List Position) :
    (bad.map event).filterMap Event.blamed? = bad := by
  rw [List.filterMap_map]
  exact (List.filterMap_congr fun i _ => blamed i).trans List.filterMap_some

namespace Setting

variable {setting : Setting} {outcome : Except Error Shown} {event : Event}

theorem onSuccess_cases (setting : Setting) (a : Shown) : setting.onSuccess a = [] ∨
    setting.TellsSuccess ∧ ∃ event, setting.onSuccess a = [event] ∧ event.level = .debug ∧
      outcomeOf [event] = some (.ok a) := by
  unfold onSuccess
  split
  -- a string that is read has a hint; the last row is for all else
  case h_5 => exact .inr ⟨rfl, _, rfl, rfl, rfl⟩
  case h_6 => exact .inl rfl
  all_goals exact .inr ⟨trivial, _, rfl, rfl, rfl⟩

theorem onError_cases (setting : Setting) (e : Error) : setting.onError e = [] ∨
    ¬e.Plain ∧ (∀ event ∈ setting.onError e, event.level = .warn) ∧
      outcomeOf (setting.onError e) = some (.error e) := by
  unfold onError
  split
  case h_1 dealer => exact .inr ⟨id, List.forall_mem_singleton.2 rfl, rfl⟩
  case h_2 me bad =>
    cases bad with
    | nil => exact .inl rfl
    | cons i bad =>
      refine .inr ⟨id, List.forall_mem_map.2 fun _ _ => rfl, ?_⟩
      rw [List.map_cons, outcomeOf, filterMap_blamed?_map fun _ => rfl]
  case h_3 bad =>
    cases bad with
    | nil => exact .inl rfl
    | cons i bad =>
      refine .inr ⟨id, List.forall_mem_map.2 fun _ _ => rfl, ?_⟩
      rw [List.map_cons, outcomeOf, filterMap_blamed?_map fun _ => rfl]
  case h_4 => exact .inl rfl

theorem accounts_bind {α β : Type} {shown : α → Shown} {x : Except Error β} {f : β → Logged α}
    (plain : FailsOnly Error.Plain x) (rest : ∀ b, (f b).Accounts (setting.tells shown)) :
    Logged.Accounts (setting.tells shown) (liftM x >>= f) := by
  refine .check (fun e h => ?_) rest
  obtain silent | ⟨blaming, _⟩ := setting.onError_cases e
  · exact silent
  · exact absurd (plain e h) blaming

theorem level_of_mem_report (h : event ∈ setting.report outcome) :
    event.level = .debug ↔ outcome.isOk = true := by
  cases outcome with
  | ok a =>
    change event ∈ setting.onSuccess a at h
    obtain silent | ⟨_, told, once, debug, _⟩ := setting.onSuccess_cases a
    · exact absurd (silent ▸ h) List.not_mem_nil
    · rw [once, List.mem_singleton] at h
      exact iff_of_true (h ▸ debug) rfl
  | error e =>
    change event ∈ setting.onError e at h
    obtain silent | ⟨_, warn, _⟩ := setting.onError_cases e
    · exact absurd (silent ▸ h) List.not_mem_nil
    · rw [warn event h]
      exact iff_of_false nofun nofun

theorem outcomeOf_report (heard : setting.report outcome ≠ []) :
    outcomeOf (setting.report outcome) = some outcome := by
  cases outcome with
  | ok a =>
    obtain silent | ⟨_, told, once, _, retold⟩ := setting.onSuccess_cases a
    · exact absurd silent heard
    · rw [report, once, retold]
  | error e =>
    obtain silent | ⟨_, _, retold⟩ := setting.onError_cases e
    · exact absurd silent heard
    · exact retold

end Setting

open Logged (Accounts)

def Dealer.given : Dealer → Option (List Position)
  | fresh given => given
  | known _ => none

namespace Dealing

theorem accounts_deal {q : Quorum} {k : SigningKey S} {given : Option (List Position)}
    {tape rest : Bytes} {log : Logged (Dealing S)} (run : deal q k given tape = some (log, rest))
    (given' : Option (List Position)) :
    Accounts ((Setting.dealing q given').tells fun _ => .nothing) log := by
  obtain ⟨e, _, rfl, _⟩ | ⟨positions, higher, _, _, rfl⟩ := deal_eq_some_iff.1 run
  · exact .fail rfl
  · rfl

theorem accounts_dealer {q : Quorum} {dealer : Dealer} {tape rest : Bytes}
    {log : Logged (Dealing S)} (run : dealer.deal S q tape = some (log, rest)) :
    Accounts ((Setting.dealing q dealer.given).tells fun _ => .nothing) log := by
  cases dealer with
  | fresh given =>
    obtain ⟨k, _, _, run⟩ := Sampler.bind_eq_some_iff.1 run
    exact accounts_deal run given
  | known secret =>
    obtain ⟨e, _, rfl, _⟩ | ⟨k, _, run⟩ := ofSecret_eq_some_iff.1 run
    · exact .fail rfl
    · exact accounts_deal run none

variable {d : Dealing S} {keys : List S.Point}

theorem accounts_checkOpenings (blinds commitments : List Bytes)
    (blameless : ∀ P ∈ keys, FailsOnly Error.Plain (S.encode P)) :
    Accounts ((Setting.opening d.quorum d.positions
      [keys.length, blinds.length, commitments.length]).tells fun _ => .nothing)
      (d.checkOpenings keys blinds commitments) := by
  refine Setting.accounts_bind (checkSizes_plain _ _) fun _ => ?_
  refine .forM rfl fun ⟨dealer, P, b, c⟩ entry => ?_
  have encodable := blameless P (List.of_mem_zip (List.of_mem_zip entry).2).1
  refine Setting.accounts_bind ?_ fun opened => .ite rfl rfl
  rw [Suite.commit_eq]
  exact encodable.map _

theorem accounts_combine (commitments : List (Commitment S)) (shares : List (DealtShare S)) :
    Accounts ((Setting.combining d.quorum d.positions
      [keys.length, commitments.length, shares.length]).tells fun share => .position share.position)
      (d.combine keys commitments shares) := by
  refine Setting.accounts_bind (checkSizes_plain _ _) fun _ => ?_
  refine Setting.accounts_bind (ownPosition_plain _ _) fun _ => ?_
  refine Setting.accounts_bind (checkCommitments_plain _ _ _) fun _ => ?_
  exact .blame rfl (.emit_pure rfl)

end Dealing

theorem SignatureShare.accounts_reconstruct (q : Quorum) (e : S.Scalar)
    (shares : List (SignatureShare S)) (keys nonces : List (Commitment S)) :
    Accounts ((Setting.reconstructing q (shares.map (·.position))
      [keys.length, nonces.length]).tells fun _ => .nothing)
      (reconstruct q e shares keys nonces) := by
  refine Setting.accounts_bind (checkSigners_plain _ _) fun _ => ?_
  refine Setting.accounts_bind (checkCommitments_plain _ _ _ _) fun _ => ?_
  refine .blame rfl (Setting.accounts_bind (Suite.interpolate_plain _) fun _ => .emit_pure ?_)
  change [Event.reconstructed (shares.map (·.position)).length q.threshold] = _
  rw [List.length_map]

theorem Session.accounts_start (signers nonces : List S.Point) (k : SigningKey S) (r : Nonce S) :
    Accounts ((Setting.starting signers.length nonces.length).tells fun _ => .nothing)
      (start signers nonces k r) := by
  have silent {β : Type} (x : Except Error β) : FailsOnly (fun e =>
      (Setting.starting signers.length nonces.length).onError e = []) x := fun _ _ => rfl
  refine .ite (.fail rfl) (.ite (.fail rfl) ?_)
  exact .check (silent _) fun _ => .check (silent _) fun _ => .check (silent _) fun _ =>
    .emit_pure rfl

namespace Suite

def hint? (S : Suite) (s r key : Bytes) : Option Scheme :=
  match S.decodeScalar s, S.decode r, S.decodeTagged key with
  | .ok _, .ok _, .ok (hint, _) => some hint
  | _, _, _ => none

variable {s r key : Bytes}

theorem hint?_of_reads {g : Signature S} {hint : Scheme} {P : S.Point}
    (h : S.Reads s r key g hint P) : S.hint? s r key = some hint := by
  obtain ⟨scalar, nonce, tagged⟩ := h
  rw [hint?, scalar, nonce, tagged]

theorem hint?_of_unreadable (h : S.Unreadable s r key) : S.hint? s r key = none := by
  rw [hint?]
  split
  · rename_i scalar nonce tagged
    simp [Unreadable, *] at h
  · rfl

theorem exists_recognise (S : Suite) (s r key m : Bytes) :
    ∃ found, (S.recognise s r key m).outcome = .ok found := by
  obtain ⟨g, hint, P, h⟩ | h := S.reads_or_unreadable s r key
  · exact ⟨_, outcome_of_reads h⟩
  · exact ⟨none, outcome_of_unreadable h⟩

theorem accounts_recognise (S : Suite) (s r key m : Bytes) :
    Accounts ((Setting.reading (S.hint? s r key)).tells .scheme) (S.recognise s r key m) := by
  obtain ⟨g, hint, P, h⟩ | h := S.reads_or_unreadable s r key
  · rw [recognise_of_reads h, hint?_of_reads h]
    exact .emit_pure rfl
  · rw [recognise_of_unreadable h, hint?_of_unreadable h]
    rfl

end Suite

def Logged.shown {α : Type} (x : Logged α) (shown : α → Shown) : Logged Shown :=
  ⟨x.outcome.map shown, x.events⟩

inductive Operation (S : Suite)
  | deal (dealer : Dealer) (q : Quorum) (tape : Bytes)
  | checkOpenings (d : Dealing S) (keys : List S.Point) (blinds commitments : List Bytes)
  | combine (d : Dealing S) (keys : List S.Point) (commitments : List (Commitment S))
      (shares : List (DealtShare S))
  | reconstruct (q : Quorum) (e : S.Scalar) (shares : List (SignatureShare S))
      (keys nonces : List (Commitment S))
  | start (signers nonces : List S.Point) (k : SigningKey S) (r : Nonce S)
  | recognise (s r key m : Bytes)

namespace Operation

def run : Operation S → Option (Logged Shown)
  | deal dealer q tape => (dealer.deal S q tape).map fun r => r.1.shown fun _ => .nothing
  | checkOpenings d keys blinds commitments =>
    some ((d.checkOpenings keys blinds commitments).shown fun _ => .nothing)
  | combine d keys commitments shares =>
    some ((d.combine keys commitments shares).shown fun share => .position share.position)
  | reconstruct q e shares keys nonces =>
    some ((SignatureShare.reconstruct q e shares keys nonces).shown fun _ => .nothing)
  | start signers nonces k r => some ((Session.start signers nonces k r).shown fun _ => .nothing)
  | recognise s r key m => some ((S.recognise s r key m).shown .scheme)

def setting : Operation S → Setting
  | deal dealer q _ => .dealing q dealer.given
  | checkOpenings d keys blinds commitments =>
    .opening d.quorum d.positions [keys.length, blinds.length, commitments.length]
  | combine d keys commitments shares =>
    .combining d.quorum d.positions [keys.length, commitments.length, shares.length]
  | reconstruct q _ shares keys nonces =>
    .reconstructing q (shares.map (·.position)) [keys.length, nonces.length]
  | start signers nonces _ _ => .starting signers.length nonces.length
  | recognise s r key _ => .reading (S.hint? s r key)

/-- No error that names a dealer comes from the encoding of a revealed key. -/
def Blameless : Operation S → Prop
  | checkOpenings _ keys _ _ => ∀ P ∈ keys, FailsOnly Error.Plain (S.encode P)
  | _ => True

theorem blameless_of_plain (plain : ∀ P, FailsOnly Error.Plain (S.encode P)) (op : Operation S) :
    op.Blameless := by
  cases op with
  | checkOpenings => exact fun P _ => plain P
  | _ => trivial

theorem blameless_ofCurve {C : Curve} {hash : Hash} {context : Bytes} {size : Nat}
    {encode : C.Point → Except Malformed Bytes} {decode : Bytes → Except Malformed C.Point}
    (op : Operation (.ofCurve C hash context size encode decode)) : op.Blameless := by
  apply blameless_of_plain
  intro P e h
  obtain ⟨cause, _, rfl⟩ := mapError_eq_error_iff.1 h
  trivial

theorem blameless_residues {m : Modulus} (op : Operation (.residues m)) : op.Blameless := by
  apply blameless_of_plain
  intro (P : Residue m)
  exact FailsOnly.ite (c := P = 0) (.error trivial) (.ok _)

variable {op : Operation S} {log : Logged Shown}

theorem accounts_of_run (blameless : op.Blameless) (run : op.run = some log) :
    Accounts op.setting.report log := by
  cases op with
  | deal =>
    obtain ⟨_, dealt, rfl⟩ := Option.map_eq_some_iff.1 run
    exact Dealing.accounts_dealer dealt
  | checkOpenings =>
    cases run
    exact Dealing.accounts_checkOpenings _ _ blameless
  | combine =>
    cases run
    exact Dealing.accounts_combine _ _
  | reconstruct =>
    cases run
    exact SignatureShare.accounts_reconstruct _ _ _ _ _
  | start =>
    cases run
    exact Session.accounts_start _ _ _ _
  | recognise =>
    cases run
    exact Suite.accounts_recognise _ _ _ _ _

theorem exists_onSuccess {a : Shown} (run : op.run = some log) (ok : log.outcome = .ok a)
    (tells : op.setting.TellsSuccess) : ∃ event, op.setting.onSuccess a = [event] := by
  cases op with
  | deal =>
    obtain ⟨_, _, rfl⟩ := Option.map_eq_some_iff.1 run
    obtain ⟨_, _, rfl⟩ := map_eq_ok_iff.1 ok
    exact ⟨_, rfl⟩
  | checkOpenings => exact tells.elim
  | recognise =>
    cases run
    obtain ⟨_, _, rfl⟩ := map_eq_ok_iff.1 ok
    obtain ⟨hint, readable⟩ := Option.isSome_iff_exists.1 tells
    rw [setting, readable]
    exact ⟨_, rfl⟩
  | _ =>
    cases run
    obtain ⟨_, _, rfl⟩ := map_eq_ok_iff.1 ok
    exact ⟨_, rfl⟩

theorem tells_iff (blameless : op.Blameless) (run : op.run = some log) :
    (∃ event, log.events = [event] ∧ event.level = .debug) ↔
      log.outcome.isOk = true ∧ op.setting.TellsSuccess := by
  have accounts : log.events = op.setting.report log.outcome := accounts_of_run blameless run
  cases outcome : log.outcome with
  | error e =>
    refine iff_of_false ?_ nofun
    rintro ⟨event, once, debug⟩
    rw [accounts, outcome] at once
    have ok := Setting.level_of_mem_report (once ▸ List.mem_singleton_self event)
    cases ok.1 debug
  | ok a =>
    rw [accounts, outcome]
    obtain silent | ⟨tells, event, once, debug, _⟩ := op.setting.onSuccess_cases a
    · refine iff_of_false ?_ ?_
      · rintro ⟨event, once, _⟩
        cases silent.symm.trans once
      · rintro ⟨_, tells⟩
        obtain ⟨event, once⟩ := exists_onSuccess run outcome tells
        cases silent.symm.trans once
    · exact iff_of_true ⟨event, once, debug⟩ ⟨rfl, tells⟩

/-- The events are the ones that the setting has for the outcome, and the outcome can be read off
them unless there are none.  Failures are told in warnings and successes in nothing but one debug
message.  So whatever the secrets are, runs in one setting are told apart by their outcomes or not
at all.  Suites over curves blame nobody on their own, and reading a signature never fails. -/
theorem report_exact (S : Suite) :
    (∀ op : Operation S, op.Blameless → ∀ log, op.run = some log →
      log.events = op.setting.report log.outcome ∧
      (log.events ≠ [] → outcomeOf log.events = some log.outcome) ∧
      (∀ event ∈ log.events, event.level = .debug ↔ log.outcome.isOk = true) ∧
      ((∃ event, log.events = [event] ∧ event.level = .debug) ↔
        log.outcome.isOk = true ∧ op.setting.TellsSuccess)) ∧
    (∀ op op' : Operation S, op.Blameless → op'.Blameless → op.setting = op'.setting →
      ∀ log log', op.run = some log → op'.run = some log' → log.outcome = log'.outcome →
        log.events = log'.events) ∧
    (∀ C hash context size encode decode,
      ∀ op : Operation (.ofCurve C hash context size encode decode), op.Blameless) ∧
    ∀ s r key m, ∃ found, (S.recognise s r key m).outcome = .ok found := by
  refine ⟨?table, ?blind, fun _ _ _ _ _ _ => blameless_ofCurve, S.exists_recognise⟩
  case table =>
    intro op blameless log run
    have accounts : log.events = op.setting.report log.outcome := accounts_of_run blameless run
    refine ⟨accounts, ?_, ?_, tells_iff blameless run⟩
    · rw [accounts]
      exact Setting.outcomeOf_report
    · rw [accounts]
      exact fun event => Setting.level_of_mem_report
  case blind =>
    intro op op' blameless blameless' setting log log' run run' outcome
    calc
      log.events = op.setting.report log.outcome := accounts_of_run blameless run
      _ = op'.setting.report log'.outcome := by rw [setting, outcome]
      _ = log'.events := (accounts_of_run blameless' run').symm

theorem report_exact_of_three :
    let G := Suite.seven.power
    let b := List.replicate 32 7
    let first : Operation Suite.seven := .combine
      ⟨⟨3, 2, by decide, by decide⟩, ⟨1, by decide, G 1, rfl⟩, [2], [0, 1, 2]⟩
      [G 1, G 3, G 2] [[G 1, G 2], [G 3, G 1], [G 2, G 0]] [⟨0, 3⟩, ⟨0, 5⟩, ⟨0, 0⟩]
    let second : Operation Suite.seven := .combine
      ⟨⟨3, 2, by decide, by decide⟩, ⟨4, by decide, G 4, rfl⟩, [6], [0, 1, 2]⟩
      [G 4, G 1, G 1] [[G 4, G 6], [G 1, G 5], [G 1, G 1]] [⟨0, 3⟩, ⟨2, 6⟩, ⟨0, 3⟩]
    let third : Operation Suite.seven := .checkOpenings
      ⟨⟨1, 1, by decide, by decide⟩, ⟨1, by decide, G 1, rfl⟩, [], [4]⟩ [G 3] [b] [b]
    (∃ log log', first.run = some log ∧ second.run = some log' ∧
      log.outcome = .error (.badShares 0 [1, 2]) ∧ log'.outcome = .error (.badShares 0 [1, 2]) ∧
      log.events = [.badShare 0 1, .badShare 0 2] ∧ log'.events = log.events) ∧
    ∃ log, third.run = some log ∧ log.outcome = .error (.keyOpening 4) ∧
      log.events = [.unopenedKey 4] := by
  intro G b first second third
  obtain ⟨table, blind, _⟩ := report_exact Suite.seven
  refine ⟨?combining, ?opening⟩
  case combining =>
    obtain ⟨log, run⟩ : ∃ log, first.run = some log := ⟨_, rfl⟩
    obtain ⟨log', run'⟩ : ∃ log', second.run = some log' := ⟨_, rfl⟩
    have outcome : log.outcome = .error (.badShares 0 [1, 2]) := by
      cases run
      subst first G
      rfl
    have outcome' : log'.outcome = .error (.badShares 0 [1, 2]) := by
      cases run'
      subst second G
      rfl
    refine ⟨log, log', run, run', outcome, outcome', ?_, ?_⟩
    · rw [(table first (blameless_residues first) log run).1, outcome]
      rfl
    · exact blind second first (blameless_residues second) (blameless_residues first) rfl log' log
        run' run (outcome'.trans outcome.symm)
  case opening =>
    obtain ⟨log, run⟩ : ∃ log, third.run = some log := ⟨_, rfl⟩
    have closed : Suite.seven.opens (G 3) b b = false := by decide +kernel
    have outcome : log.outcome = .error (.keyOpening 4) := by
      cases run
      change (Dealing.checkOpenings _ _ _ _).outcome.map _ = _
      rw [Dealing.outcome_checkOpenings]
      change (settle [none, none, none, (List.find? _ [(4, G 3, b, b)]).map _] ()).map _ = _
      rw [List.find?_cons_of_pos (by simp [closed])]
      rfl
    refine ⟨log, run, outcome, ?_⟩
    rw [(table third (blameless_residues third) log run).1, outcome]
    rfl

end Operation

end JointSchnorr
