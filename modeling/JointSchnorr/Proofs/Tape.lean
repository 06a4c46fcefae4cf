import JointSchnorr.Tape

namespace JointSchnorr

namespace Sampler

variable {α β : Type} {draw : Sampler α} {tape rest : Bytes}

theorem bind_eq_some_iff {f : α → Sampler β} {b : β} :
    (draw >>= f) tape = some (b, rest) ↔
      ∃ a middle, draw tape = some (a, middle) ∧ f a middle = some (b, rest) := by
  change (draw tape).bind (fun r => f r.1 r.2) = _ ↔ _
  simp [Option.bind_eq_some_iff]

theorem pure_eq_some_iff {a b : α} :
    (pure a : Sampler α) tape = some (b, rest) ↔ a = b ∧ tape = rest := by
  change some (a, tape) = some (b, rest) ↔ _
  simp

theorem list_cons_eq_some_iff {n : Nat} {a : α} {others : List α} :
    list draw (n + 1) tape = some (a :: others, rest) ↔
      ∃ middle, draw tape = some (a, middle) ∧ list draw n middle = some (others, rest) := by
  simp only [list, bind_eq_some_iff, pure_eq_some_iff, List.cons.injEq]
  constructor
  · rintro ⟨_, middle, first, _, _, tail, ⟨rfl, rfl⟩, rfl⟩
    exact ⟨middle, first, tail⟩
  · rintro ⟨middle, first, tail⟩
    exact ⟨a, middle, first, others, rest, tail, ⟨rfl, rfl⟩, rfl⟩

theorem length_of_list {n : Nat} {drawn : List α} (h : list draw n tape = some (drawn, rest)) :
    drawn.length = n := by
  induction n generalizing drawn tape rest with
  | zero =>
    obtain ⟨rfl, _⟩ := pure_eq_some_iff.1 h
    rfl
  | succ n ih =>
    obtain ⟨a, middle, _, h⟩ := bind_eq_some_iff.1 h
    obtain ⟨others, _, hothers, h⟩ := bind_eq_some_iff.1 h
    obtain ⟨rfl, _⟩ := pure_eq_some_iff.1 h
    exact congrArg (· + 1) (ih hothers)

end Sampler

theorem blind_eq_some {tape : Bytes} (h : 32 ≤ tape.length) :
    blind tape = some (tape.take 32, tape.drop 32) := if_pos h

end JointSchnorr
