import JointSchnorr.Proofs.Outcome

namespace JointSchnorr

variable {ε α β : Type}

/-- The first of the refusals that applies, and the result when none does. -/
def settle (refusals : List (Option ε)) (a : α) : Except ε α :=
  match refusals.findSome? id with
  | some e => .error e
  | none => .ok a

@[simp] theorem settle_nil (a : α) : settle ([] : List (Option ε)) a = .ok a := rfl

@[simp] theorem settle_some (e : ε) (later : List (Option ε)) (a : α) :
    settle (some e :: later) a = .error e := rfl

@[simp] theorem settle_none (later : List (Option ε)) (a : α) :
    settle (none :: later) a = settle later a := rfl

@[simp] theorem settle_append_none (refusals : List (Option ε)) (a : α) :
    settle (refusals ++ [none]) a = settle refusals a := by
  induction refusals with
  | nil => rfl
  | cons c refusals ih => cases c <;> simp [ih]

theorem settle_eq_ok_iff {refusals : List (Option ε)} {a b : α} :
    settle refusals a = .ok b ↔ (∀ c ∈ refusals, c = none) ∧ a = b := by
  induction refusals with
  | nil => simp
  | cons c refusals ih => cases c <;> simp [ih]

theorem settle_bind {refusals later : List (Option ε)} {a : α} {b : β} {f : α → Except ε β}
    (h : (∀ c ∈ refusals, c = none) → f a = settle later b) :
    settle refusals a >>= f = settle (refusals ++ later) b := by
  induction refusals with
  | nil => exact h (List.forall_mem_nil _)
  | cons c refusals ih =>
    cases c with
    | some e => rfl
    | none => exact ih fun rest => h (List.forall_mem_cons.2 ⟨rfl, rest⟩)

theorem settle_cons_bind {c : Option ε} {later : List (Option ε)} {a : α} {b : β}
    {f : α → Except ε β} (h : c = none → f a = settle later b) :
    settle [c] a >>= f = settle (c :: later) b :=
  settle_bind fun refusals => h (refusals c List.mem_cons_self)

theorem settle_or (c c' : Option ε) (a : α) : settle [c.or c'] a = settle [c, c'] a := by
  cases c <;> rfl

def refuseIf (p : Prop) [Decidable p] (e : ε) : Option ε := if p then some e else none

@[simp] theorem refuseIf_eq_none_iff {p : Prop} [Decidable p] {e : ε} :
    refuseIf p e = none ↔ ¬p := by
  rw [refuseIf, ite_eq_right_iff, imp_congr_right fun _ => iff_false_intro (Option.some_ne_none e)]

theorem ite_error_eq_settle {p : Prop} [Decidable p] {e : ε} {x : Except ε α}
    {later : List (Option ε)} {a : α} (h : ¬p → x = settle later a) :
    (if p then .error e else x) = settle (refuseIf p e :: later) a := by
  by_cases hp : p
  · rw [if_pos hp, refuseIf, if_pos hp, settle_some]
  · rw [if_neg hp, refuseIf, if_neg hp, settle_none, h hp]

theorem forM_settle (c : α → Option ε) (l : List α) :
    (l.forM fun a => settle [c a] ()) = settle [l.findSome? c] () := by
  induction l with
  | nil => rfl
  | cons a l ih =>
    rw [List.findSome?_cons, List.forM_eq_forM, List.forM_cons]
    cases c a with
    | some e => rfl
    | none => exact ih

theorem mapM_settle (c : α → Option ε) (f : α → β) (l : List α) :
    (l.mapM fun a => settle [c a] (f a)) = settle [l.findSome? c] (l.map f) := by
  induction l with
  | nil => rfl
  | cons a l ih =>
    rw [List.findSome?_cons, List.mapM_cons, ih]
    cases c a with
    | some e => rfl
    | none => cases l.findSome? c <;> rfl

theorem findSome?_refuseIf (p : α → Prop) [DecidablePred p] (f : α → ε) (l : List α) :
    l.findSome? (fun a => refuseIf (p a) (f a)) = (l.find? (p ·)).map f := by
  induction l with
  | nil => rfl
  | cons a l ih =>
    rw [List.findSome?_cons, List.find?_cons, refuseIf, ih]
    by_cases h : p a
    · rw [if_pos h, decide_eq_true h, Option.map_some]
    · rw [if_neg h, decide_eq_false h]

end JointSchnorr
