namespace JointSchnorr

variable {α : Type u}

def binary (zero : α) (twice next : α → α) (n : Nat) : α :=
  (List.range (n.log2 + 1)).foldr (fun i x => if n.testBit i then next (twice x) else twice x) zero

theorem binary_eq {zero : α} {twice next : α → α} (f : Nat → α) (h0 : f 0 = zero)
    (ht : ∀ k, twice (f k) = f (2 * k)) (hn : ∀ k, next (f k) = f (k + 1)) (n : Nat) :
    binary zero twice next n = f n := by
  have digits : ∀ k, (List.range k).foldr
      (fun i x => if n.testBit i then next (twice x) else twice x) (f (n >>> k)) = f n := by
    intro k
    induction k with
    | zero => rfl
    | succ k ih =>
      rw [List.range_succ, List.foldr_append]
      simp only [List.foldr_cons, List.foldr_nil]
      rw [ht, hn]
      have step : n >>> k = 2 * (n >>> (k + 1)) + (n.testBit k).toNat := by
        rw [Nat.shiftRight_succ, Nat.toNat_testBit, ← Nat.shiftRight_eq_div_pow]
        omega
      cases hb : n.testBit k <;> simp only [hb, Bool.toNat_true, Bool.toNat_false] at step <;>
        rw [← ih, step] <;> simp
  have top : n >>> (n.log2 + 1) = 0 := by
    rw [Nat.shiftRight_eq_div_pow]
    exact Nat.div_eq_of_lt Nat.lt_log2_self
  rw [binary, ← h0, ← top, digits]

end JointSchnorr
