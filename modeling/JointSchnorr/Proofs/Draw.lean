import JointSchnorr.Proofs.Residue.Encoding
import JointSchnorr.Proofs.Residue.Ring
import JointSchnorr.Proofs.Tape

namespace JointSchnorr

theorem Sampler.taken_append {α : Type} {size bits : Nat} {take? : Nat → Option α} {block : Bytes}
    {a : α} (length : block.length = size)
    (taken : take? (Bytes.valueLow block % 2 ^ bits) = some a) (rest : Bytes) :
    Sampler.taken size bits take? (block ++ rest) = some (a, rest) := by
  have enough : size ≤ (block ++ rest).length := by
    rw [List.length_append, length]
    exact Nat.le_add_right size rest.length
  have read : bytes size (block ++ rest) = some (block, rest) := by
    rw [bytes, if_pos enough, List.take_left' length, List.drop_left' length]
  change (bytes size (block ++ rest)).bind _ = _
  simp only [read, Option.bind_some, taken]

namespace Sampler

variable {α : Type} {size bits : Nat} {take? : Nat → Option α} {tape : Bytes}

theorem length_of_bytes {r : Bytes × Bytes} (h : bytes size tape = some r) :
    r.1.length = size ∧ r.1 ++ r.2 = tape := by
  rw [bytes] at h
  split at h
  · cases h
    exact ⟨List.length_take_of_le ‹_›, List.take_append_drop size tape⟩
  · cases h

theorem length_lt_of_bytes (pos : 0 < size) {r : Bytes × Bytes} (h : bytes size tape = some r) :
    r.2.length < tape.length := by
  obtain ⟨length, rfl⟩ := length_of_bytes h
  rw [List.length_append]
  omega

/-- Each attempt reads at least one byte, so the tape runs out before the attempts do. -/
theorem takenWithin_eq_of_lt (pos : 0 < size) {fuel fuel' : Nat} (enough : tape.length < fuel)
    (enough' : tape.length < fuel') :
    takenWithin size bits take? fuel tape = takenWithin size bits take? fuel' tape := by
  induction fuel generalizing fuel' tape with
  | zero => exact absurd enough (Nat.not_lt_zero _)
  | succ fuel ih =>
    cases fuel' with
    | zero => exact absurd enough' (Nat.not_lt_zero _)
    | succ fuel' =>
      change (bytes size tape).bind _ = (bytes size tape).bind _
      cases read : bytes size tape with
      | none => rfl
      | some r =>
        have shorter := length_lt_of_bytes pos read
        have same : takenWithin size bits take? fuel r.2 = takenWithin size bits take? fuel' r.2 :=
          ih (by omega) (by omega)
        simp only [Option.bind_some, same]

theorem taken_eq (pos : 0 < size) (tape : Bytes) :
    taken size bits take? tape = (bytes size tape).bind fun r =>
      (take? (Bytes.valueLow r.1 % 2 ^ bits)).elim (taken size bits take? r.2) fun a =>
        some (a, r.2) := by
  change (bytes size tape).bind _ = _
  cases read : bytes size tape with
  | none => rfl
  | some r =>
    have again : takenWithin size bits take? tape.length r.2 = taken size bits take? r.2 :=
      takenWithin_eq_of_lt pos (length_lt_of_bytes pos read) (Nat.lt_succ_self _)
    simp only [Option.bind_some, again]
    cases take? (Bytes.valueLow r.1 % 2 ^ bits) <;> rfl

end Sampler

namespace CyclicGroup

variable {G : CyclicGroup}

theorem bits_le_limbs (G : CyclicGroup) : G.order.bits ≤ 8 * (8 * G.limbs) := by
  rw [limbs]
  omega

section Loop

variable {α : Type} {take? : G.Scalar → Option α} {tape rest : Bytes} {a : G.Scalar} {x : α}

theorem blockSize_pos (G : CyclicGroup) : 0 < 8 * G.limbs := by
  rw [limbs, Modulus.bits]
  omega

theorem length_lt_of_scalar (h : G.scalar tape = some (a, rest)) : rest.length < tape.length := by
  induction n : tape.length using Nat.strong_induction_on generalizing tape with
  | _ n ih =>
    rw [scalar, draw, Sampler.taken_eq G.blockSize_pos] at h
    obtain ⟨r, read, h⟩ := Option.bind_eq_some_iff.1 h
    have shorter := Sampler.length_lt_of_bytes G.blockSize_pos read
    subst n
    by_cases small : Bytes.valueLow r.1 % 2 ^ G.order.bits < G.order.value
    · rw [if_pos small] at h
      cases h
      exact shorter
    · rw [if_neg small] at h
      exact (ih _ shorter h rfl).trans shorter

theorem draw_eq_scalar (tape : Bytes) : G.draw take? tape = (G.scalar tape).bind fun r =>
    (take? r.1).elim (G.draw take? r.2) fun x => some (x, r.2) := by
  induction n : tape.length using Nat.strong_induction_on generalizing tape with
  | _ n ih =>
    subst n
    rw [scalar, draw, draw, Sampler.taken_eq G.blockSize_pos, Sampler.taken_eq G.blockSize_pos]
    cases read : Sampler.bytes (8 * G.limbs) tape with
    | none => rfl
    | some r =>
      simp only [Option.bind_some]
      by_cases small : Bytes.valueLow r.1 % 2 ^ G.order.bits < G.order.value
      · rw [if_pos small, if_pos small]
        rfl
      · rw [if_neg small, if_neg small]
        exact ih _ (Sampler.length_lt_of_bytes G.blockSize_pos read) _ rfl

theorem draw_of_taken (drawn : G.scalar tape = some (a, rest)) (taken : take? a = some x) :
    G.draw take? tape = some (x, rest) := by
  rw [draw_eq_scalar, drawn, Option.bind_some, taken, Option.elim_some]

theorem draw_of_refused (drawn : G.scalar tape = some (a, rest)) (refused : take? a = none) :
    G.draw take? tape = G.draw take? rest := by
  rw [draw_eq_scalar, drawn, Option.bind_some, refused, Option.elim_none]

theorem draw_eq_some_iff : G.draw take? tape = some (x, rest) ↔
    ∃ refused middle, Sampler.list G.scalar refused.length tape = some (refused, middle) ∧
      (∀ a ∈ refused, take? a = none) ∧
      ∃ a, G.scalar middle = some (a, rest) ∧ take? a = some x := by
  constructor
  · intro h
    induction n : tape.length using Nat.strong_induction_on generalizing tape with
    | _ n ih =>
      subst n
      obtain ⟨⟨a, middle⟩, drawn, _⟩ := Option.bind_eq_some_iff.1 ((draw_eq_scalar _).symm.trans h)
      cases taken : take? a with
      | some y =>
        cases h.symm.trans (draw_of_taken drawn taken)
        exact ⟨[], tape, rfl, List.forall_mem_nil _, a, drawn, taken⟩
      | none =>
        rw [draw_of_refused drawn taken] at h
        obtain ⟨refused, before, others, refuses, last⟩ := ih _ (length_lt_of_scalar drawn) h rfl
        exact ⟨a :: refused, before, Sampler.list_cons_eq_some_iff.2 ⟨middle, drawn, others⟩,
          List.forall_mem_cons.2 ⟨taken, refuses⟩, last⟩
  · rintro ⟨refused, before, drawn, refuses, a, last, taken⟩
    induction refused generalizing tape with
    | nil =>
      obtain ⟨_, rfl⟩ := Sampler.pure_eq_some_iff.1 drawn
      exact draw_of_taken last taken
    | cons b refused ih =>
      obtain ⟨first, refuses⟩ := List.forall_mem_cons.1 refuses
      obtain ⟨middle, head, tail⟩ := Sampler.list_cons_eq_some_iff.1 drawn
      rw [draw_of_refused head first]
      exact ih tail refuses

end Loop

variable [Fact G.order.value.Prime]

theorem radix_ne_zero (odd : G.order.value ≠ 2) : (Residue.ofNat G.radix : G.Scalar) ≠ 0 := by
  intro h
  have vanishes : G.radix % G.order.value = 0 := congrArg Residue.val h
  have prime : G.order.value.Prime := Fact.out
  rw [radix, Nat.one_shiftLeft] at vanishes
  have two := prime.dvd_of_dvd_pow (Nat.dvd_of_mod_eq_zero vanishes)
  exact odd ((Nat.prime_dvd_prime_iff_eq prime Nat.prime_two).1 two)

theorem ofDrawn_mul_radix (odd : G.order.value ≠ 2) (a : G.Scalar) :
    G.ofDrawn (a * Residue.ofNat G.radix).val = a := by
  rw [ofDrawn, Residue.ofNat_val, mul_assoc, Residue.mul_inv_of_ne_zero (radix_ne_zero odd),
    mul_one]

theorem exists_scalar_eq (odd : G.order.value ≠ 2) (a : G.Scalar) :
    ∃ block, ∀ rest, G.scalar (block ++ rest) = some (a, rest) := by
  let v := a * Residue.ofNat G.radix
  let block := (Bytes.ofNat (8 * G.limbs) v.val).reverse
  have length : block.length = 8 * G.limbs := by
    rw [List.length_reverse, Bytes.length_ofNat]
  have number : Bytes.valueLow block % 2 ^ G.order.bits = v.val := by
    rw [Bytes.valueLow_reverse, Bytes.value_ofNat,
      Nat.mod_eq_of_lt (v.val_lt_pow_of_bits_le G.bits_le_limbs),
      Nat.mod_eq_of_lt v.val_lt_pow_bits]
  refine ⟨block, fun rest => ?_⟩
  rw [scalar, draw]
  -- the number that stands for a scalar is reduced, so it is taken at once
  apply Sampler.taken_append length
  rw [number, if_pos v.val_lt, ofDrawn_mul_radix odd]

theorem exists_list_eq (odd : G.order.value ≠ 2) (as : List G.Scalar) :
    ∃ tape, ∀ rest, Sampler.list G.scalar as.length (tape ++ rest) = some (as, rest) := by
  induction as with
  | nil => exact ⟨[], fun rest => rfl⟩
  | cons a as ih =>
    obtain ⟨block, first⟩ := exists_scalar_eq odd a
    obtain ⟨tape, others⟩ := ih
    refine ⟨block ++ tape, fun rest => ?_⟩
    refine Sampler.list_cons_eq_some_iff.2 ⟨tape ++ rest, ?_, others rest⟩
    rw [List.append_assoc, first]

end CyclicGroup

end JointSchnorr
