import JointSchnorr.Proofs.Wallet.Run
import Mathlib.Data.Bool.Basic

/-!
A number that is still to be given out counts as one occurrence, so no command makes any number
occur more often.
-/

namespace JointSchnorr

namespace Slots

variable {α : Type} {p : α → Bool} {name : String} {a : α}

def count (p : α → Bool) (s : Slots α) : Nat := s.countP fun e => p e.2

theorem count_cons (p : α → Bool) (e : String × α) (s : Slots α) :
    count p (e :: s) = s.count p + (p e.2).toNat := by
  rw [count, List.countP_cons]
  cases p e.2 <;> rfl

theorem count_remove_le (p : α → Bool) (s : Slots α) (name : String) :
    (s.remove name).count p ≤ s.count p :=
  List.filter_sublist.countP_le

theorem count_remove_add_le {s : Slots α} (h : s.get? name = some a) :
    (s.remove name).count p + (p a).toNat ≤ s.count p := by
  induction s with
  | nil => cases h
  | cons e s ih =>
    rw [count_cons]
    by_cases he : e.1 = name
    · have found : e.2 = a := by simpa [get?, he] using h
      have removed : remove (e :: s) name = remove s name := by simp [remove, he]
      rw [removed, found]
      exact Nat.add_le_add_right (count_remove_le p s name) _
    · have found : get? s name = some a := by simpa [get?, he] using h
      have kept : remove (e :: s) name = e :: remove s name := by simp [remove, he]
      rw [kept, count_cons, Nat.add_right_comm]
      exact Nat.add_le_add_right (ih found) _

theorem count_set_le (p : α → Bool) (s : Slots α) (name : String) (a : α) :
    (s.set name a).count p ≤ s.count p + (p a).toNat := by
  rw [set, count_cons]
  exact Nat.add_le_add_right (count_remove_le p s name) _

theorem count_set_add_le {s : Slots α} (h : s.get? name = some a) (b : α) :
    (s.set name b).count p + (p a).toNat ≤ s.count p + (p b).toNat := by
  rw [set, count_cons, Nat.add_right_comm]
  exact Nat.add_le_add_right (count_remove_add_le h) _

theorem count_pos {s : Slots α} (h : s.get? name = some a) (ha : p a = true) : 0 < s.count p := by
  have counted := count_remove_add_le (p := p) h
  rw [ha, Bool.toNat_true] at counted
  exact Nat.lt_of_lt_of_le (Nat.succ_pos _) counted

theorem count_and_add (q p : α → Bool) (s : Slots α) :
    s.count (fun a => q a && p a) + s.count (fun a => q a && !p a) = s.count q := by
  induction s with
  | nil => rfl
  | cons e s ih =>
    simp only [count_cons]
    rw [← ih]
    cases q e.2 <;> cases p e.2 <;>
      simp only [Bool.not_true, Bool.not_false, Bool.and_true, Bool.and_false, Bool.toNat_true,
        Bool.toNat_false] <;> omega

end Slots

namespace Wallet

variable {S : Suite} {w w' : Wallet S} {p : Session S → Bool} {n : Nat}

/-- The occurrences of a number, of the sessions only those that satisfy `p`. -/
def tally (p : Session S → Bool) (n : Nat) (w : Wallet S) : Nat :=
  (if w.next ≤ n then 1 else 0) + w.nonces.count (·.number == n) +
    w.sessions.count (fun s => s.number == n && p s.object) + w.shares.count (·.number == n)

theorem tally_empty (p : Session S → Bool) (n : Nat) : tally p n {} = 1 := by
  simp [tally, Slots.count]

theorem next_add_le (k n : Nat) :
    (if k + 1 ≤ n then 1 else 0) + (k == n).toNat ≤ if k ≤ n then 1 else 0 := by
  by_cases same : k = n
  · simp [same]
  · rw [beq_false_of_ne same]
    split <;> split <;> (simp only [Bool.toNat_false]; omega)

theorem tally_addNonce_le (w : Wallet S) (name : String) (r : Nonce S) :
    tally p n (w.addNonce name r) ≤ tally p n w := by
  have counted := w.nonces.count_set_le (·.number == n) name ⟨w.next, r⟩
  have numbered := next_add_le w.next n
  dsimp only [tally, addNonce] at *
  omega

theorem tally_addShare_le (w : Wallet S) (name : String) (s : JointShare S) :
    tally p n (w.addShare name s) ≤ tally p n w := by
  have counted := w.shares.count_set_le (·.number == n) name ⟨w.next, s⟩
  have numbered := next_add_le w.next n
  dsimp only [tally, addShare] at *
  omega

theorem tally_addSession_le (w : Wallet S) (name : String) (s : Numbered (Session S)) :
    tally p n (w.addSession name s) ≤ tally p n w + (s.number == n && p s.object).toNat := by
  have counted := w.sessions.count_set_le (fun s => s.number == n && p s.object) name s
  dsimp only [tally, addSession] at *
  omega

theorem tally_replace_session {name : String} {s : Numbered (Session S)}
    (h : w.sessions.get? name = some s) (after : Numbered (Session S)) :
    tally p n (w.addSession name after) + (s.number == n && p s.object).toNat ≤
      tally p n w + (after.number == n && p after.object).toNat := by
  have counted := Slots.count_set_add_le (p := fun s => s.number == n && p s.object) h after
  dsimp only [tally, addSession] at *
  omega

theorem tally_remove_nonce {name : String} {r : Numbered (Nonce S)}
    (h : w.nonces.get? name = some r) :
    tally p n { w with nonces := w.nonces.remove name } + (r.number == n).toNat ≤ tally p n w := by
  have counted := Slots.count_remove_add_le (p := (·.number == n)) h
  dsimp only [tally] at *
  omega

theorem tally_remove_share {name : String} {s : Numbered (JointShare S)}
    (h : w.shares.get? name = some s) :
    tally p n { w with shares := w.shares.remove name } + (s.number == n).toNat ≤ tally p n w := by
  have counted := Slots.count_remove_add_le (p := (·.number == n)) h
  dsimp only [tally] at *
  omega

theorem Effect.tally_le {added : List (Secret S)} {used : List Nat} (h : Effect w added used w')
    (hp : ∀ s : Session S, p { s with nonce := none } = true → p s = true) :
    tally p n w' ≤ tally p n w := by
  cases h with
  | other => exact Nat.le_refl _
  | addNonce name r => exact tally_addNonce_le w name r
  | addShare name s => exact tally_addShare_le w name s
  | dropNonce hr => exact Nat.le_of_add_right_le (tally_remove_nonce hr)
  | @start nonce r name s hr _ =>
    -- the number moves from the nonces to the sessions
    have removed := tally_remove_nonce (p := p) (n := n) hr
    have added := tally_addSession_le (p := p) (n := n) { w with nonces := w.nonces.remove nonce }
      name ⟨r.number, s⟩
    have kept : (r.number == n && p s).toNat ≤ (r.number == n).toNat :=
      Bool.toNat_le_toNat (Bool.and_le_left _ _)
    dsimp only at added
    omega
  | @refuse session s hs =>
    have replaced := tally_replace_session (p := p) (n := n) hs s
    omega
  | @answer session k s hs fresh =>
    have replaced := tally_replace_session (p := p) (n := n) hs ⟨k, { s with nonce := none }⟩
    have inherited : (k == n && p { s with nonce := none }).toNat ≤ (k == n && p s).toNat :=
      Bool.toNat_le_toNat fun h =>
        Bool.and_eq_true_iff.2 ((Bool.and_eq_true_iff.1 h).imp_right (hp s))
    dsimp only at replaced
    omega
  | dropShare hs => exact Nat.le_of_add_right_le (tally_remove_share hs)
  | useShare hs => exact Nat.le_of_add_right_le (tally_remove_share hs)

theorem count_singleton_eq (k n : Nat) : [k].count n = (k == n).toNat := by
  rw [List.count_singleton]
  cases k == n <;> rfl

def live (n : Nat) (w : Wallet S) : Nat := tally (fun s => !s.spent) n w

theorem Effect.live_add_le {added : List (Secret S)} {used : List Nat}
    (h : Effect w added used w') : live n w' + used.count n ≤ live n w := by
  have kept : live n w' ≤ live n w := h.tally_le fun s spent => by cases spent
  cases h with
  | @answer session k s hs fresh =>
    have replaced := tally_replace_session (p := fun s => !s.spent) (n := n) hs
      ⟨k, { s with nonce := none }⟩
    have lost : (!s.spent) = true ∧ (!Session.spent { s with nonce := none }) = false :=
      ⟨by rw [fresh]; rfl, rfl⟩
    simp only [lost, Bool.and_true, Bool.and_false] at replaced
    rw [count_singleton_eq]
    exact replaced
  | @useShare name s hs =>
    have removed := tally_remove_share (p := fun s => !s.spent) (n := n) hs
    rw [count_singleton_eq]
    exact removed
  | _ => exact kept

theorem tally_run_le (hp : ∀ s : Session S, p { s with nonce := none } = true → p s = true)
    (w : Wallet S) (cs : List (Command S)) : tally p n (w.run cs).2 ≤ tally p n w := by
  induction cs generalizing w with
  | nil => exact Nat.le_refl _
  | cons c cs ih => exact Nat.le_trans (ih _) ((w.effect_step c).tally_le hp)

theorem live_run_add_le (w : Wallet S) (cs : List (Command S)) :
    live n (w.run cs).2 + (used (w.run cs).1).count n ≤ live n w := by
  induction cs generalizing w with
  | nil => exact Nat.le_refl _
  | cons c cs ih =>
    have first := (w.effect_step c).live_add_le (n := n)
    have rest := ih (w.step c).2
    have split : (used (w.run (c :: cs)).1).count n =
        (w.step c).1.used.count n + (used ((w.step c).2.run cs).1).count n :=
      List.count_append
    have last : (w.run (c :: cs)).2 = ((w.step c).2.run cs).2 := rfl
    rw [split, last]
    omega

def occurrences (n : Nat) (w : Wallet S) : Nat := tally (fun _ => true) n w

theorem tally_le_occurrences (p : Session S → Bool) (n : Nat) (w : Wallet S) :
    tally p n w ≤ occurrences n w := by
  have split := w.sessions.count_and_add (·.number == n) (fun s => p s.object)
  simp only [occurrences, tally, Bool.and_true]
  omega

theorem tally_pos_of_session {name : String} {s : Session S}
    (h : w.sessions.get? name = some ⟨n, s⟩) (hs : p s = true) : 0 < tally p n w := by
  have counted : 0 < w.sessions.count fun s => s.number == n && p s.object :=
    Slots.count_pos h (by simp [hs])
  rw [tally]
  omega

theorem tally_lt_of_session {name : String} {s : Session S}
    (h : w.sessions.get? name = some ⟨n, s⟩) (hs : p s = false) :
    tally p n w < occurrences n w := by
  have split := w.sessions.count_and_add (·.number == n) (fun s => p s.object)
  have counted : 0 < w.sessions.count fun s => s.number == n && !p s.object :=
    Slots.count_pos h (by simp [hs])
  simp only [occurrences, tally, Bool.and_true]
  omega

end Wallet

end JointSchnorr
