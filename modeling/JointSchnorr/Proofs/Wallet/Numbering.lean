import JointSchnorr.Proofs.Wallet.Run

namespace JointSchnorr.Wallet

variable {S : Suite} {w w' : Wallet S} {taken : List (Secret S)}

structure Numbers (taken : List (Secret S)) (w : Wallet S) : Prop where
  next : w.next = taken.length
  nonce {name : String} {n : Nat} {r : Nonce S} :
    w.nonces.get? name = some ⟨n, r⟩ → taken[n]? = some (.nonce r)
  session {name : String} {n : Nat} {s : Session S} {r : Nonce S} :
    w.sessions.get? name = some ⟨n, s⟩ → s.nonce = some r → taken[n]? = some (.nonce r)
  share {name : String} {n : Nat} {s : JointShare S} :
    w.shares.get? name = some ⟨n, s⟩ → taken[n]? = some (.share s)

namespace Numbers

theorem empty : Numbers [] ({} : Wallet S) where
  next := rfl
  nonce h := by cases h
  session h := by cases h
  share h := by cases h

theorem getElem?_append_of_some {α : Type} {l : List α} {n : Nat} {a : α} (h : l[n]? = some a)
    (l' : List α) : (l ++ l')[n]? = some a := by
  rw [List.getElem?_append_left (List.getElem?_eq_some_iff.1 h).1, h]

theorem addNonce (h : Numbers taken w) (name : String) (r : Nonce S) :
    Numbers (taken ++ [.nonce r]) (w.addNonce name r) where
  next := by
    rw [Wallet.addNonce, h.next, List.length_append]
    rfl
  nonce found := by
    obtain new | old := Slots.get?_of_set found
    · cases new
      rw [h.next]
      exact List.getElem?_concat_length
    · exact getElem?_append_of_some (h.nonce old) _
  session hs hr := getElem?_append_of_some (h.session hs hr) _
  share hs := getElem?_append_of_some (h.share hs) _

theorem addShare (h : Numbers taken w) (name : String) (s : JointShare S) :
    Numbers (taken ++ [.share s]) (w.addShare name s) where
  next := by
    rw [Wallet.addShare, h.next, List.length_append]
    rfl
  nonce hr := getElem?_append_of_some (h.nonce hr) _
  session hs hr := getElem?_append_of_some (h.session hs hr) _
  share found := by
    obtain new | old := Slots.get?_of_set found
    · cases new
      rw [h.next]
      exact List.getElem?_concat_length
    · exact getElem?_append_of_some (h.share old) _

theorem addSession (h : Numbers taken w) (name : String) {n : Nat} {s : Session S}
    (hs : ∀ r, s.nonce = some r → taken[n]? = some (.nonce r)) :
    Numbers taken (w.addSession name ⟨n, s⟩) where
  next := h.next
  nonce := h.nonce
  session found hr := by
    obtain new | old := Slots.get?_of_set found
    · cases new
      exact hs _ hr
    · exact h.session old hr
  share := h.share

theorem removeNonce (h : Numbers taken w) (name : String) :
    Numbers taken { w with nonces := w.nonces.remove name } :=
  ⟨h.next, fun hr => h.nonce (Slots.get?_of_remove hr), h.session, h.share⟩

theorem removeShare (h : Numbers taken w) (name : String) :
    Numbers taken { w with shares := w.shares.remove name } :=
  ⟨h.next, h.nonce, h.session, fun hs => h.share (Slots.get?_of_remove hs)⟩

theorem effect (h : Numbers taken w) {added : List (Secret S)} {used : List Nat}
    (effect : Effect w added used w') : Numbers (taken ++ added) w' := by
  cases effect with
  | addNonce name r => exact h.addNonce name r
  | addShare name s => exact h.addShare name s
  | other keys dealings =>
    rw [List.append_nil]
    exact ⟨h.next, h.nonce, h.session, h.share⟩
  | dropNonce _ =>
    rw [List.append_nil]
    exact h.removeNonce _
  | start name hr hs =>
    rw [List.append_nil]
    refine (h.removeNonce _).addSession name fun r' hr' => ?_
    cases hs.symm.trans hr'
    exact h.nonce hr
  | refuse hs =>
    rw [List.append_nil]
    exact h.addSession _ fun _ => h.session hs
  | answer _ _ =>
    rw [List.append_nil]
    exact h.addSession _ nofun
  | dropShare _ | useShare _ =>
    rw [List.append_nil]
    exact h.removeShare _

theorem run (h : Numbers taken w) (cs : List (Command S)) :
    Numbers (taken ++ secrets cs) (w.run cs).2 := by
  induction cs generalizing taken w with
  | nil => rwa [secrets, List.flatMap_nil, List.append_nil]
  | cons c cs ih =>
    have split : secrets (c :: cs) = c.secrets ++ secrets cs := List.flatMap_cons
    rw [split, ← List.append_assoc]
    exact ih (h.effect (w.effect_step c))

end Numbers

end JointSchnorr.Wallet
