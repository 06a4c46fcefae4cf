import JointSchnorr.Oracle

namespace JointSchnorr

inductive Event where
  | dealt (parties threshold : UInt32)
  | badShare (accuser accused : Position)
  | sharesCombined (position : Position) (dealers : Nat)
  | unopenedKey (dealer : Position)
  | sessionReady (signers : Nat)
  | badResponse (signer : Position)
  | reconstructed (signers : Nat) (threshold : UInt32)
  | recognised (hint : Scheme) (scheme : Option Scheme)
  deriving DecidableEq

namespace Event

inductive Level where
  | debug
  | warn
  deriving DecidableEq

inductive Field where
  | number (value : Nat)
  | text (value : String)
  deriving DecidableEq

def level : Event → Level
  | badShare .. | unopenedKey .. | badResponse .. => .warn
  | _ => .debug

def message : Event → String
  | dealt .. => "dealt a verifiable secret sharing"
  | badShare .. => "secret share does not match its commitment"
  | sharesCombined .. => "combined secret shares"
  | unopenedKey .. => "public key does not open its commitment"
  | sessionReady .. => "aggregate signing session ready"
  | badResponse .. => "invalid local signature"
  | reconstructed .. => "reconstructed threshold signature"
  | recognised .. => "automatic verification"

def schemeText : Scheme → String
  | .single => "Single"
  | .aggregate => "Aggregate"
  | .threshold => "Threshold"

def optionText : Option Scheme → String
  | none => "None"
  | some scheme => "Some(" ++ schemeText scheme ++ ")"

def fields : Event → List (String × Field)
  | dealt parties threshold => [("n", .number parties.toNat), ("t", .number threshold.toNat)]
  | badShare accuser accused =>
    [("accuser", .number accuser.toNat), ("accused", .number accused.toNat)]
  | sharesCombined position dealers =>
    [("index", .number position.toNat), ("dealers", .number dealers)]
  | unopenedKey dealer => [("dealer", .number dealer.toNat)]
  | sessionReady signers => [("signers", .number signers)]
  | badResponse signer => [("index", .number signer.toNat)]
  | reconstructed signers threshold =>
    [("signers", .number signers), ("threshold", .number threshold.toNat)]
  | recognised hint scheme =>
    [("kind", .text (schemeText hint)), ("scheme", .text (optionText scheme))]

end Event

structure Logged (α : Type) where
  outcome : Except Error α
  events : List Event

namespace Logged

variable {α β : Type}

instance : Monad Logged where
  pure a := ⟨.ok a, []⟩
  bind x f :=
    match x.outcome with
    | .error e => ⟨.error e, x.events⟩
    | .ok a => ⟨(f a).outcome, x.events ++ (f a).events⟩

instance : MonadLift (Except Error) Logged := ⟨fun x => ⟨x, []⟩⟩

def fail (e : Error) : Logged α := ⟨.error e, []⟩

def emit (events : List Event) : Logged Unit := ⟨.ok (), events⟩

@[simp] theorem outcome_pure (a : α) : (pure a : Logged α).outcome = .ok a := rfl

@[simp] theorem events_pure (a : α) : (pure a : Logged α).events = [] := rfl

@[simp] theorem outcome_lift (x : Except Error α) : (liftM x : Logged α).outcome = x := rfl

@[simp] theorem outcome_emit (es : List Event) : (emit es).outcome = .ok () := rfl

@[simp] theorem events_emit (es : List Event) : (emit es).events = es := rfl

@[simp] theorem outcome_bind (x : Logged α) (f : α → Logged β) :
    (x >>= f).outcome = x.outcome >>= fun a => (f a).outcome := by
  simp only [bind]
  cases x.outcome <;> rfl

theorem events_bind_of_ok {x : Logged α} {a : α} (h : x.outcome = .ok a) (f : α → Logged β) :
    (x >>= f).events = x.events ++ (f a).events := by
  simp [bind, h]

theorem events_bind_of_error {x : Logged α} {e : Error} (h : x.outcome = .error e)
    (f : α → Logged β) : (x >>= f).events = x.events := by
  simp [bind, h]

end Logged

end JointSchnorr
