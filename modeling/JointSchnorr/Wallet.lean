import JointSchnorr.Cosigning.Session
import JointSchnorr.Sharing.Signing

/-!
The wallet numbers what it takes in, and a response comes with the number of the nonce that it used,
so that the history of a wallet can be checked.
-/

namespace JointSchnorr

abbrev Slots (α : Type) := List (String × α)

namespace Slots

variable {α : Type}

def get? (s : Slots α) (name : String) : Option α := (s.find? (·.1 == name)).map (·.2)

def remove (s : Slots α) (name : String) : Slots α := s.filter (·.1 != name)

def set (s : Slots α) (name : String) (a : α) : Slots α := (name, a) :: s.remove name

@[simp] theorem get?_remove_self (s : Slots α) (name : String) :
    (s.remove name).get? name = none := by
  simp [get?, remove]

theorem get?_remove_of_ne (s : Slots α) {name other : String} (h : other ≠ name) :
    (s.remove name).get? other = s.get? other := by
  induction s with
  | nil => rfl
  | cons e s ih =>
    simp only [get?, remove] at ih
    by_cases he : e.1 = name <;> by_cases ho : e.1 = other <;>
      simp_all [get?, remove]

@[simp] theorem get?_set_self (s : Slots α) (name : String) (a : α) :
    (s.set name a).get? name = some a := by
  simp [get?, set]

theorem get?_set_of_ne (s : Slots α) {name other : String} (h : other ≠ name) (a : α) :
    (s.set name a).get? other = s.get? other := by
  rw [← get?_remove_of_ne s h]
  simp [get?, set, h.symm]

theorem get?_of_remove {s : Slots α} {name other : String} {a : α}
    (h : (s.remove name).get? other = some a) : s.get? other = some a := by
  by_cases same : other = name
  · rw [same, get?_remove_self] at h
    cases h
  · rwa [get?_remove_of_ne s same] at h

theorem get?_of_set {s : Slots α} {name other : String} {a b : α}
    (h : (s.set name a).get? other = some b) : a = b ∨ s.get? other = some b := by
  by_cases same : other = name
  · rw [same, get?_set_self] at h
    exact .inl (Option.some.inj h)
  · rw [get?_set_of_ne s same] at h
    exact .inr h

end Slots

structure Numbered (α : Type) where
  number : Nat
  object : α

structure Wallet (S : Suite) where
  next : Nat := 0
  keys : Slots (SigningKey S) := []
  nonces : Slots (Numbered (Nonce S)) := []
  sessions : Slots (Numbered (Session S)) := []
  dealings : Slots (Dealing S) := []
  shares : Slots (Numbered (JointShare S)) := []

namespace Wallet

variable {S : Suite}

def addKey (w : Wallet S) (name : String) (k : SigningKey S) : Wallet S :=
  { w with keys := w.keys.set name k }

def addNonce (w : Wallet S) (name : String) (r : Nonce S) : Wallet S :=
  { w with next := w.next + 1, nonces := w.nonces.set name ⟨w.next, r⟩ }

def addDealing (w : Wallet S) (name : String) (d : Dealing S) : Wallet S :=
  { w with dealings := w.dealings.set name d }

def addShare (w : Wallet S) (name : String) (s : JointShare S) : Wallet S :=
  { w with next := w.next + 1, shares := w.shares.set name ⟨w.next, s⟩ }

def addSession (w : Wallet S) (name : String) (s : Numbered (Session S)) : Wallet S :=
  { w with sessions := w.sessions.set name s }

/-- Starts a session with the named key and nonce and keeps it under a third name, if one is given.
It is `none` when the wallet has no such key or no such nonce. -/
def startSession (w : Wallet S) (key nonce : String) (store : Option String)
    (signers nonces : List S.Point) : Option (Logged (Session S) × Wallet S) := do
  let k ← w.keys.get? key
  let r ← w.nonces.get? nonce
  let w := { w with nonces := w.nonces.remove nonce }
  let started := Session.start signers nonces k r.object
  match started.outcome, store with
  | .ok s, some name => return (started, w.addSession name ⟨r.number, s⟩)
  | _, _ => return (started, w)

def respond (w : Wallet S) (session : String) (m : Bytes) :
    Option (Except Error (Nat × S.Scalar) × Wallet S) := do
  let s ← w.sessions.get? session
  let (answer, after) := s.object.respond m
  return (answer.map ((s.number, ·)), w.addSession session ⟨s.number, after⟩)

def respondWithShare (w : Wallet S) (share nonceShare : String) (Y V : S.Point) (m : Bytes) :
    Option (Except Error (Nat × S.Scalar × SignatureShare S) × Wallet S) := do
  let r ← w.shares.get? nonceShare
  let w := { w with shares := w.shares.remove nonceShare }
  let s ← w.shares.get? share
  return ((s.object.respond r.object Y V m).map ((r.number, ·)), w)

end Wallet

end JointSchnorr
