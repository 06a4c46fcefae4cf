import Mathlib.Data.Set.Finite.Basic
import Mathlib.Order.Interval.Finset.Nat
import JointSchnorr.Proofs.Group.Residues
import JointSchnorr.Proofs.Sharing.Dealing
import JointSchnorr.Proofs.SigningKey

/-!
A draw ends with the first block whose number it accepts, and has used up the blocks up to that one.
-/

namespace JointSchnorr

namespace Bytes

def limbs : Nat → Bytes → List Nat
  | 0, _ => []
  | w + 1, b => valueLow (b.take 8) :: limbs w (b.drop 8)

def masked (bits : Nat) : List Nat → Nat
  | [] => 0
  | [top] => top % 2 ^ bits
  | low :: next :: rest => low + 2 ^ 64 * masked (bits - 64) (next :: rest)

theorem masked_limbs {w bits : Nat} {b : Bytes} (length : b.length = 8 * w)
    (full : 64 * (w - 1) ≤ bits) : masked bits (limbs w b) = valueLow b % 2 ^ bits := by
  induction w generalizing bits b with
  | zero =>
    obtain rfl : b = [] := List.length_eq_zero_iff.1 length
    exact (Nat.zero_mod _).symm
  | succ w ih =>
    cases w with
    | zero =>
      rw [limbs, limbs, masked, List.take_of_length_le length.le]
    | succ w =>
      have low : (b.take 8).length = 8 := List.length_take_of_le (by omega)
      have high : masked (bits - 64) (limbs (w + 1) (b.drop 8)) =
          valueLow (b.drop 8) % 2 ^ (bits - 64) :=
        ih (by rw [List.length_drop]; omega) (by omega)
      have small : valueLow (b.take 8) < 2 ^ 64 := by
        have bound := valueLow_lt (b.take 8)
        rw [low] at bound
        omega
      have split : valueLow b = valueLow (b.take 8) + 2 ^ 64 * valueLow (b.drop 8) := by
        conv_lhs => rw [← List.take_append_drop 8 b, valueLow_append, low]
        norm_num
      have widths : 2 ^ bits = 2 ^ 64 * 2 ^ (bits - 64) := by
        rw [← pow_add]
        congr 1
        omega
      change valueLow (b.take 8) + 2 ^ 64 * masked (bits - 64) (limbs (w + 1) (b.drop 8)) = _
      rw [high, split, widths, Nat.mod_mul, Nat.add_mul_mod_self_left, Nat.mod_eq_of_lt small,
        Nat.add_mul_div_left _ _ (Nat.two_pow_pos 64), Nat.div_eq_of_lt small, zero_add]

end Bytes

namespace Sampler

variable {α : Type} {attempt : Sampler α} {accept : α → Prop}

/-- A loop that makes attempts on what is left of a tape until one is accepted.  Its runs are
finite, so it ends on the tapes that have one. -/
inductive Repeats (attempt : Sampler α) (accept : α → Prop) : Bytes → Option (α × Bytes) → Prop
  | exhausted {tape} : attempt tape = none → Repeats attempt accept tape none
  | accepted {tape a rest} : attempt tape = some (a, rest) → accept a →
      Repeats attempt accept tape (some (a, rest))
  | refused {tape a middle r} : attempt tape = some (a, middle) → ¬accept a →
      Repeats attempt accept middle r → Repeats attempt accept tape r

theorem Repeats.unique {tape : Bytes} {r r' : Option (α × Bytes)}
    (h : Repeats attempt accept tape r) (h' : Repeats attempt accept tape r') : r = r' := by
  induction h with
  | exhausted read =>
    cases h' with
    | exhausted _ => rfl
    | accepted read' _ => cases read.symm.trans read'
    | refused read' _ _ => cases read.symm.trans read'
  | accepted read ok =>
    cases h' with
    | exhausted read' => cases read.symm.trans read'
    | accepted read' _ => exact read.symm.trans read'
    | refused read' no _ => cases read.symm.trans read'; exact absurd ok no
  | refused read no _ ih =>
    cases h' with
    | exhausted read' => cases read.symm.trans read'
    | accepted read' ok => cases read.symm.trans read'; exact absurd ok no
    | refused read' _ run => cases read.symm.trans read'; exact ih run

theorem existsUnique_repeats
    (shrinks : ∀ {tape a rest}, attempt tape = some (a, rest) → rest.length < tape.length)
    (tape : Bytes) : ∃! r, Repeats attempt accept tape r := by
  have ends : ∃ r, Repeats attempt accept tape r := by
    induction n : tape.length using Nat.strong_induction_on generalizing tape with
    | _ n ih =>
      subst n
      cases read : attempt tape with
      | none => exact ⟨none, .exhausted read⟩
      | some r =>
        by_cases ok : accept r.1
        · exact ⟨some r, .accepted read ok⟩
        · obtain ⟨r', run⟩ := ih _ (shrinks read) r.2 rfl
          exact ⟨r', .refused read ok run⟩
  obtain ⟨r, run⟩ := ends
  exact ⟨r, run, fun _ other => other.unique run⟩

end Sampler

namespace CyclicGroup

variable (G : CyclicGroup)

def numberOf (block : Bytes) : Nat := Bytes.masked G.order.bits (Bytes.limbs G.limbs block)

def number : Sampler Nat := do return G.numberOf (← Sampler.bytes (8 * G.limbs))

def numberAt (tape : Bytes) (n : Nat) : Nat :=
  G.numberOf ((tape.drop (8 * G.limbs * n)).take (8 * G.limbs))

structure FirstAccepted (accept : Nat → Prop) (tape : Bytes) (n : Nat) : Prop where
  whole : 8 * G.limbs * (n + 1) ≤ tape.length
  accepted : accept (G.numberAt tape n)
  refused : ∀ j < n, ¬accept (G.numberAt tape j)

inductive Draws : List (Nat → Prop) → Bytes → List Nat → Bytes → Prop
  | nil {tape} : Draws [] tape [] tape
  | cons {accept tests tape n numbers rest} : G.FirstAccepted accept tape n →
      Draws tests (tape.drop (8 * G.limbs * (n + 1))) numbers rest →
      Draws (accept :: tests) tape (G.numberAt tape n :: numbers) rest

variable {G}

theorem numberOf_eq {block : Bytes} (length : block.length = 8 * G.limbs) :
    G.numberOf block = Bytes.valueLow block % 2 ^ G.order.bits := by
  apply Bytes.masked_limbs length
  rw [limbs]
  omega

theorem number_eq (tape : Bytes) : G.number tape =
    if 8 * G.limbs ≤ tape.length then some (G.numberAt tape 0, tape.drop (8 * G.limbs))
    else none := by
  change (Sampler.bytes (8 * G.limbs) tape).bind _ = _
  rw [Sampler.bytes]
  by_cases whole : 8 * G.limbs ≤ tape.length
  · rw [if_pos whole, if_pos whole]
    rfl
  · rw [if_neg whole, if_neg whole]
    rfl

theorem number_eq_none_iff {tape : Bytes} :
    G.number tape = none ↔ tape.length < 8 * G.limbs := by
  rw [number_eq]
  split <;> simp_all

theorem number_eq_some_iff {tape rest : Bytes} {v : Nat} : G.number tape = some (v, rest) ↔
    8 * G.limbs ≤ tape.length ∧ G.numberAt tape 0 = v ∧ tape.drop (8 * G.limbs) = rest := by
  rw [number_eq]
  split <;> simp_all

section Tape

variable {tape rest more : Bytes} {accept : Nat → Prop} {n : Nat}

theorem numberAt_succ (tape : Bytes) (n : Nat) :
    G.numberAt tape (n + 1) = G.numberAt (tape.drop (8 * G.limbs)) n := by
  rw [numberAt, numberAt, List.drop_drop, Nat.mul_succ, Nat.add_comm]

theorem numberAt_append (whole : 8 * G.limbs * (n + 1) ≤ tape.length) (more : Bytes) :
    G.numberAt (tape ++ more) n = G.numberAt tape n := by
  rw [Nat.mul_succ] at whole
  rw [numberAt, numberAt, List.drop_append_of_le_length (by omega),
    List.take_append_of_le_length (by rw [List.length_drop]; omega)]

theorem FirstAccepted.append (h : G.FirstAccepted accept tape n) (more : Bytes) :
    G.FirstAccepted accept (tape ++ more) n where
  whole := by
    rw [List.length_append]
    exact h.whole.trans (Nat.le_add_right _ _)
  accepted := numberAt_append h.whole more ▸ h.accepted
  refused j before := by
    have whole : 8 * G.limbs * (j + 1) ≤ tape.length :=
      (Nat.mul_le_mul_left _ (Nat.succ_le_succ before.le)).trans h.whole
    rw [numberAt_append whole]
    exact h.refused j before

theorem firstAccepted_zero (whole : 8 * G.limbs ≤ tape.length)
    (accepted : accept (G.numberAt tape 0)) : G.FirstAccepted accept tape 0 where
  whole := by rwa [zero_add, Nat.mul_one]
  accepted := accepted
  refused _ before := absurd before (Nat.not_lt_zero _)

theorem firstAccepted_succ_iff (whole : 8 * G.limbs ≤ tape.length)
    (refused : ¬accept (G.numberAt tape 0)) : G.FirstAccepted accept tape (n + 1) ↔
      G.FirstAccepted accept (tape.drop (8 * G.limbs)) n := by
  have length : 8 * G.limbs * (n + 1 + 1) ≤ tape.length ↔
      8 * G.limbs * (n + 1) ≤ (tape.drop (8 * G.limbs)).length := by
    rw [List.length_drop, Nat.mul_succ]
    omega
  constructor
  · intro h
    refine ⟨length.1 h.whole, numberAt_succ tape n ▸ h.accepted, fun j before => ?_⟩
    rw [← numberAt_succ]
    exact h.refused (j + 1) (Nat.succ_lt_succ before)
  · intro h
    refine ⟨length.2 h.whole, (numberAt_succ tape n).symm ▸ h.accepted, fun j before => ?_⟩
    cases j with
    | zero => exact refused
    | succ j =>
      rw [numberAt_succ]
      exact h.refused j (Nat.lt_of_succ_lt_succ before)

theorem exists_firstAccepted_iff : (∃ n, G.FirstAccepted accept tape n) ↔
    ∃ n, 8 * G.limbs * (n + 1) ≤ tape.length ∧ accept (G.numberAt tape n) := by
  classical
  constructor
  · rintro ⟨n, first⟩
    exact ⟨n, first.whole, first.accepted⟩
  · intro h
    obtain ⟨whole, accepted⟩ := Nat.find_spec h
    refine ⟨Nat.find h, whole, accepted, fun j before accepted => ?_⟩
    have earlier : 8 * G.limbs * (j + 1) ≤ tape.length :=
      (Nat.mul_le_mul_left _ (Nat.succ_le_succ before.le)).trans whole
    exact Nat.find_min h before ⟨earlier, accepted⟩

end Tape

section Draw

variable {α : Type} {take? : G.Scalar → Option α} {tape rest : Bytes} {x : α} {n : Nat}

def Ends (take? : G.Scalar → Option α) (v : Nat) : Prop :=
  v < G.order.value ∧ ∃ x, take? (G.ofDrawn v) = some x

theorem draw_of_short (short : tape.length < 8 * G.limbs) : G.draw take? tape = none := by
  rw [draw, Sampler.taken_eq G.blockSize_pos, Sampler.bytes, if_neg (Nat.not_le.2 short)]
  rfl

theorem draw_of_whole (whole : 8 * G.limbs ≤ tape.length) : G.draw take? tape =
    (if G.numberAt tape 0 < G.order.value then take? (G.ofDrawn (G.numberAt tape 0)) else none).elim
      (G.draw take? (tape.drop (8 * G.limbs))) fun x => some (x, tape.drop (8 * G.limbs)) := by
  have first : G.numberAt tape 0 =
      Bytes.valueLow (tape.take (8 * G.limbs)) % 2 ^ G.order.bits := by
    rw [numberAt, Nat.mul_zero, List.drop_zero, numberOf_eq (List.length_take_of_le whole)]
  rw [draw, Sampler.taken_eq G.blockSize_pos, Sampler.bytes, if_pos whole, Option.bind_some, first]

theorem draw_of_ends (whole : 8 * G.limbs ≤ tape.length)
    (reduced : G.numberAt tape 0 < G.order.value)
    (taken : take? (G.ofDrawn (G.numberAt tape 0)) = some x) :
    G.draw take? tape = some (x, tape.drop (8 * G.limbs)) := by
  rw [draw_of_whole whole, if_pos reduced, taken, Option.elim_some]

theorem draw_of_not_ends (whole : 8 * G.limbs ≤ tape.length)
    (refused : ¬Ends take? (G.numberAt tape 0)) :
    G.draw take? tape = G.draw take? (tape.drop (8 * G.limbs)) := by
  have nothing : (if G.numberAt tape 0 < G.order.value then take? (G.ofDrawn (G.numberAt tape 0))
      else none) = none := by
    rw [ite_eq_right_iff]
    intro reduced
    rw [Option.eq_none_iff_forall_ne_some]
    exact fun x taken => refused ⟨reduced, x, taken⟩
  rw [draw_of_whole whole, nothing, Option.elim_none]

theorem draw_of_firstAccepted (first : G.FirstAccepted (Ends take?) tape n)
    (taken : take? (G.ofDrawn (G.numberAt tape n)) = some x) :
    G.draw take? tape = some (x, tape.drop (8 * G.limbs * (n + 1))) := by
  induction n generalizing tape with
  | zero =>
    have whole := first.whole
    rw [zero_add, Nat.mul_one] at whole ⊢
    exact draw_of_ends whole first.accepted.1 taken
  | succ n ih =>
    have whole : 8 * G.limbs ≤ tape.length :=
      (Nat.le_mul_of_pos_right _ (Nat.succ_pos _)).trans first.whole
    have refused := first.refused 0 (Nat.succ_pos n)
    rw [numberAt_succ] at taken
    rw [draw_of_not_ends whole refused, ih ((firstAccepted_succ_iff whole refused).1 first) taken,
      List.drop_drop, Nat.mul_succ _ (n + 1), Nat.add_comm]

theorem draw_eq_none_iff :
    G.draw take? tape = none ↔ ¬∃ n, G.FirstAccepted (Ends take?) tape n := by
  constructor
  · rintro nothing ⟨n, first⟩
    obtain ⟨_, x, taken⟩ := first.accepted
    cases nothing.symm.trans (draw_of_firstAccepted first taken)
  · intro none
    induction length : tape.length using Nat.strong_induction_on generalizing tape with
    | _ _ ih =>
      subst length
      rcases Nat.lt_or_ge tape.length (8 * G.limbs) with short | whole
      · exact draw_of_short short
      · have refused : ¬Ends take? (G.numberAt tape 0) := fun ends =>
          none ⟨0, firstAccepted_zero whole ends⟩
        have shorter : (tape.drop (8 * G.limbs)).length < tape.length := by
          have pos := G.blockSize_pos
          rw [List.length_drop]
          omega
        rw [draw_of_not_ends whole refused]
        refine ih _ shorter ?_ rfl
        rintro ⟨n, first⟩
        exact none ⟨n + 1, (firstAccepted_succ_iff whole refused).2 first⟩

theorem draw_eq_some_iff_firstAccepted : G.draw take? tape = some (x, rest) ↔
    ∃ n, G.FirstAccepted (Ends take?) tape n ∧ take? (G.ofDrawn (G.numberAt tape n)) = some x ∧
      tape.drop (8 * G.limbs * (n + 1)) = rest := by
  constructor
  · intro drawn
    have some_first : ∃ n, G.FirstAccepted (Ends take?) tape n := by
      by_contra none
      cases drawn.symm.trans (draw_eq_none_iff.2 none)
    obtain ⟨n, first⟩ := some_first
    obtain ⟨_, y, taken⟩ := first.accepted
    cases drawn.symm.trans (draw_of_firstAccepted first taken)
    exact ⟨n, first, taken, rfl⟩
  · rintro ⟨n, first, taken, rfl⟩
    exact draw_of_firstAccepted first taken

theorem draw_append (drawn : G.draw take? tape = some (x, rest)) (more : Bytes) :
    G.draw take? (tape ++ more) = some (x, rest ++ more) := by
  obtain ⟨n, first, taken, rfl⟩ := draw_eq_some_iff_firstAccepted.1 drawn
  rw [← numberAt_append first.whole more] at taken
  rw [draw_of_firstAccepted (first.append more) taken,
    List.drop_append_of_le_length first.whole]

end Draw

section Loop

variable {tape rest : Bytes} {v : Nat} {r : Option (Nat × Bytes)}

theorem length_lt_of_number (h : G.number tape = some (v, rest)) : rest.length < tape.length := by
  have pos := G.blockSize_pos
  obtain ⟨whole, _, rfl⟩ := number_eq_some_iff.1 h
  rw [List.length_drop]
  omega

theorem scalar_of_repeats (run : Sampler.Repeats G.number (· < G.order.value) tape r) :
    G.scalar tape = r.map fun e => (G.ofDrawn e.1, e.2) := by
  induction run with
  | exhausted read => exact draw_of_short (number_eq_none_iff.1 read)
  | accepted read reduced =>
    obtain ⟨whole, rfl, rfl⟩ := number_eq_some_iff.1 read
    exact draw_of_ends whole reduced rfl
  | refused read large _ ih =>
    obtain ⟨whole, rfl, rfl⟩ := number_eq_some_iff.1 read
    rw [← ih]
    exact draw_of_not_ends whole fun ends => large ends.1

theorem ends_some : Ends (G := G) some = (· < G.order.value) := by
  funext v
  simp [Ends]

theorem draws_of_list {n : Nat} {drawn : List G.Scalar}
    (h : Sampler.list G.scalar n tape = some (drawn, rest)) :
    ∃ numbers, G.Draws (List.replicate n (· < G.order.value)) tape numbers rest ∧
      drawn = numbers.map G.ofDrawn := by
  induction n generalizing tape drawn with
  | zero =>
    obtain ⟨rfl, rfl⟩ := Sampler.pure_eq_some_iff.1 h
    exact ⟨[], .nil, rfl⟩
  | succ n ih =>
    cases drawn with
    | nil => cases Sampler.length_of_list h
    | cons a drawn =>
      obtain ⟨middle, first, others⟩ := Sampler.list_cons_eq_some_iff.1 h
      obtain ⟨k, accepted, taken, rfl⟩ := draw_eq_some_iff_firstAccepted.1 first
      obtain ⟨numbers, rest, rfl⟩ := ih others
      rw [ends_some] at accepted
      exact ⟨_, .cons accepted rest, congrArg (· :: _) (Option.some.inj taken).symm⟩

end Loop

section Prime

variable [Fact G.order.value.Prime]

theorem inv_radix_ne_zero : (Residue.ofNat G.radix : G.Scalar).inv ≠ 0 := by
  by_cases odd : G.order.value = 2
  · -- the inverse is a power, here the one with exponent zero
    rw [Residue.inv, odd, Nat.sub_self, Residue.pow_eq_ofNat, pow_zero]
    exact one_ne_zero
  · intro zero
    have one := Residue.mul_inv_of_ne_zero (radix_ne_zero odd)
    rw [zero, mul_zero] at one
    exact zero_ne_one one

theorem ofDrawn_inj {v v' : Nat} (reduced : v < G.order.value) (reduced' : v' < G.order.value) :
    G.ofDrawn v = G.ofDrawn v' ↔ v = v' := by
  rw [ofDrawn, ofDrawn, mul_left_inj' (inv_radix_ne_zero (G := G)), Residue.ext_iff,
    Residue.val_ofNat, Residue.val_ofNat, Nat.mod_eq_of_lt reduced, Nat.mod_eq_of_lt reduced']

theorem ofDrawn_eq_zero_iff {v : Nat} (reduced : v < G.order.value) : G.ofDrawn v = 0 ↔ v = 0 := by
  have zero : G.ofDrawn 0 = 0 := zero_mul _
  rw [← ofDrawn_inj reduced G.order.value_pos, zero]

theorem bijOn_ofDrawn : Set.BijOn (fun v => (G.ofDrawn v).val) (Set.Icc 1 (G.order.value - 1))
    (Set.Icc 1 (G.order.value - 1)) := by
  have pos := G.order.value_pos
  have reduced {v : Nat} (h : v ∈ Set.Icc 1 (G.order.value - 1)) : v < G.order.value := by
    have := h.2
    omega
  have mapsTo : Set.MapsTo (fun v => (G.ofDrawn v).val) (Set.Icc 1 (G.order.value - 1))
      (Set.Icc 1 (G.order.value - 1)) := by
    intro v h
    have nonzero : G.ofDrawn v ≠ 0 := mt (ofDrawn_eq_zero_iff (reduced h)).1 (Nat.ne_of_gt h.1)
    exact ⟨Residue.val_pos_iff.2 nonzero, Nat.le_sub_one_of_lt (G.ofDrawn v).val_lt⟩
  refine ((Set.finite_Icc _ _).injOn_iff_bijOn_of_mapsTo mapsTo).1 ?_
  intro v h v' h' same
  exact (ofDrawn_inj (reduced h) (reduced h')).1 (Residue.ext same)

end Prime

end CyclicGroup

namespace SigningKey

variable {S : Suite} {tape rest : Bytes}

theorem generate_of_repeats {r : Option (S.Scalar × Bytes)}
    (run : Sampler.Repeats S.scalar (· ≠ 0) tape r) :
    (generate tape : Option (SigningKey S × Bytes)).map (fun e => (e.1.secret, e.2)) = r := by
  induction run with
  | exhausted read => rw [generate, CyclicGroup.draw_eq_scalar, read]; rfl
  | accepted read nonzero =>
    rw [generate, CyclicGroup.draw_of_taken read (x := ⟨_, nonzero, _, rfl⟩) (dif_neg nonzero)]
    rfl
  | refused read zero _ ih =>
    rw [← ih, generate, CyclicGroup.draw_of_refused read (dif_pos (not_not.1 zero))]

variable [Fact S.order.value.Prime]

theorem ends_ofSecret? : CyclicGroup.Ends (ofSecret? (S := S)) =
    fun v => 0 < v ∧ v < S.order.value := by
  funext v
  rw [CyclicGroup.Ends, and_comm, eq_iff_iff]
  refine and_congr_left fun reduced => ?_
  simp only [ofSecret?_eq_some_iff]
  constructor
  · rintro ⟨k, secret⟩
    apply Nat.pos_of_ne_zero
    intro zero
    exact k.secret_ne_zero (secret.trans ((CyclicGroup.ofDrawn_eq_zero_iff reduced).2 zero))
  · intro pos
    exact ⟨⟨_, mt (CyclicGroup.ofDrawn_eq_zero_iff reduced).1 pos.ne', _, rfl⟩, rfl⟩

theorem generate_eq_some_iff_firstAccepted {k : SigningKey S} : generate tape = some (k, rest) ↔
    ∃ n, S.FirstAccepted (fun v => 0 < v ∧ v < S.order.value) tape n ∧
      k.secret = S.ofDrawn (S.numberAt tape n) ∧ tape.drop (8 * S.limbs * (n + 1)) = rest := by
  rw [generate, CyclicGroup.draw_eq_some_iff_firstAccepted, ends_ofSecret?]
  simp only [ofSecret?_eq_some_iff]

theorem generate_eq_none_iff : (generate tape : Option (SigningKey S × Bytes)) = none ↔
    ∀ n, 8 * S.limbs * (n + 1) ≤ tape.length →
      ¬(0 < S.numberAt tape n ∧ S.numberAt tape n < S.order.value) := by
  rw [generate, CyclicGroup.draw_eq_none_iff, ends_ofSecret?, CyclicGroup.exists_firstAccepted_iff]
  simp only [not_exists, not_and]

/-- Keys are drawn by two loops, one in the other, which end on every tape: with the scalar of the
first number that is reduced and not zero, or for want of bytes.  No scalar is favoured.  A dealer
draws its key so, and then its coefficients, which may be zero. -/
theorem generate_exact (S : Suite) [Fact S.order.value.Prime] :
    (∀ tape, (∃! r, Sampler.Repeats S.number (· < S.order.value) tape r) ∧
      (∃! r, Sampler.Repeats S.scalar (· ≠ 0) tape r) ∧
      (∀ r, Sampler.Repeats S.number (· < S.order.value) tape r →
        S.scalar tape = r.map fun e => (S.ofDrawn e.1, e.2)) ∧
      ∀ r, Sampler.Repeats S.scalar (· ≠ 0) tape r →
        (generate tape : Option (SigningKey S × Bytes)).map (fun e => (e.1.secret, e.2)) = r) ∧
    (∀ tape rest (k : SigningKey S), generate tape = some (k, rest) ↔
      ∃ n, S.FirstAccepted (fun v => 0 < v ∧ v < S.order.value) tape n ∧
        k.secret = S.ofDrawn (S.numberAt tape n) ∧ tape.drop (8 * S.limbs * (n + 1)) = rest) ∧
    (∀ tape, (generate tape : Option (SigningKey S × Bytes)) = none ↔
      ∀ n, 8 * S.limbs * (n + 1) ≤ tape.length →
        ¬(0 < S.numberAt tape n ∧ S.numberAt tape n < S.order.value)) ∧
    (∀ tape rest more (k : SigningKey S), generate tape = some (k, rest) →
      k.secret.val ∈ Set.Icc 1 (S.order.value - 1) ∧
        generate (tape ++ more) = some (k, rest ++ more)) ∧
    (∀ tape, (Nonce.generate tape : Option (Nonce S × Bytes)) =
      (generate tape).map fun e => (⟨e.1⟩, e.2)) ∧
    Set.BijOn (fun v => (S.ofDrawn v).val) (Set.Icc 1 (S.order.value - 1))
      (Set.Icc 1 (S.order.value - 1)) ∧
    (S.order.value ≠ 2 → ∀ v,
      S.ofDrawn v * Residue.ofNat (2 ^ (64 * S.limbs)) = Residue.ofNat v) ∧
    ∀ q given tape rest (log : Logged (Dealing S)) d,
      Dealing.generate q given tape = some (log, rest) → log.outcome = .ok d →
        ∃ numbers, S.Draws ((fun v => 0 < v ∧ v < S.order.value) ::
            List.replicate (q.threshold.toNat - 1) (· < S.order.value)) tape numbers rest ∧
          d.coefficients = numbers.map S.ofDrawn := by
  refine ⟨fun tape => ⟨?number, ?scalar, fun _ => CyclicGroup.scalar_of_repeats,
      fun _ => generate_of_repeats⟩,
    fun _ _ _ => generate_eq_some_iff_firstAccepted, fun _ => generate_eq_none_iff, ?more, ?nonce,
    CyclicGroup.bijOn_ofDrawn, ?radix, ?dealt⟩
  case number => exact Sampler.existsUnique_repeats CyclicGroup.length_lt_of_number tape
  case scalar => exact Sampler.existsUnique_repeats CyclicGroup.length_lt_of_scalar tape
  case more =>
    intro tape rest more k drawn
    exact ⟨⟨Residue.val_pos_iff.2 k.secret_ne_zero, Nat.le_sub_one_of_lt k.secret.val_lt⟩,
      CyclicGroup.draw_append drawn more⟩
  case nonce =>
    intro tape
    change (generate tape).bind _ = _
    cases (generate tape : Option (SigningKey S × Bytes)) <;> rfl
  case radix =>
    intro odd v
    have unit := Residue.mul_inv_of_ne_zero (CyclicGroup.radix_ne_zero odd)
    rw [CyclicGroup.ofDrawn, ← Nat.one_shiftLeft, ← CyclicGroup.radix, mul_assoc,
      mul_comm _ (Residue.ofNat S.radix), unit, mul_one]
  case dealt =>
    intro q given tape rest log d run ok
    obtain ⟨k, middle, key, run⟩ := Sampler.bind_eq_some_iff.1 run
    obtain ⟨n, first, secret, rfl⟩ := generate_eq_some_iff_firstAccepted.1 key
    obtain ⟨e, _, rfl, _⟩ | ⟨positions, higher, _, drawn, rfl⟩ := Dealing.deal_eq_some_iff.1 run
    · cases ok
    · cases ok
      obtain ⟨numbers, others, rfl⟩ := CyclicGroup.draws_of_list drawn
      exact ⟨_, .cons first others, congrArg (· :: _) secret⟩

def twoLimbs : Modulus := { value := 3 * 2 ^ 66 + 1 }

theorem prime_twoLimbs : twoLimbs.value.Prime := by
  -- ten is a primitive root
  apply Residue.prime_of_generator twoLimbs 10 [2, 3] 66
  · exact List.forall_mem_cons.2 ⟨Nat.prime_two, List.forall_mem_singleton.2 Nat.prime_three⟩
  · decide +kernel

theorem generate_exact_of_twoLimbs :
    let S := Suite.residues twoLimbs
    let k : SigningKey S := ⟨1, by decide +kernel, S.power 1, rfl⟩
    let tape : Bytes := List.replicate 16 255 ++ (List.replicate 8 0 ++ 16 :: List.replicate 7 0) ++
      [171, 170, 170, 170, 170, 170, 170, 234, 3, 0, 0, 0, 0, 0, 0, 0]
    let zeros : Bytes := List.replicate 16 0
    let q : Quorum := ⟨2, 2, by decide, by decide⟩
    let d : Dealing S := ⟨q, k, [0], [0, 1]⟩
    S.order.value.Prime ∧ generate tape = some (k, []) ∧
      (generate (tape.take 47) : Option (SigningKey S × Bytes)) = none ∧
      Dealing.generate q none (tape ++ zeros) = some (⟨.ok d, [.dealt 2 2]⟩, []) ∧
      ∃ numbers, S.Draws [fun v => 0 < v ∧ v < S.order.value, (· < S.order.value)]
        (tape ++ zeros) numbers [] ∧ [1, 0] = numbers.map S.ofDrawn := by
  intro S k tape zeros q d
  have prime : Fact S.order.value.Prime := ⟨prime_twoLimbs⟩
  obtain ⟨_, accepted, exhausted, more, _, _, _, dealt⟩ := generate_exact S
  have size : 8 * S.limbs = 16 := by decide
  have key : generate tape = some (k, []) := (accepted _ _ _).2
    ⟨2, ⟨by decide, by decide +kernel, by decide +kernel⟩, by decide +kernel, by decide⟩
  have short : ∀ n, 8 * S.limbs * (n + 1) ≤ (tape.take 47).length →
      ¬(0 < S.numberAt (tape.take 47) n ∧ S.numberAt (tape.take 47) n < S.order.value) := by
    intro n whole
    have length : (tape.take 47).length = 47 := rfl
    rw [size] at whole
    have few : n < 2 := by omega
    interval_cases n <;> decide +kernel
  have coefficient : Sampler.list S.scalar 1 zeros = some ([0], []) :=
    Sampler.list_cons_eq_some_iff.2 ⟨[], CyclicGroup.draw_eq_some_iff_firstAccepted.2
      ⟨0, CyclicGroup.firstAccepted_zero (by decide) ⟨by decide +kernel, _, rfl⟩,
        by decide +kernel, by decide⟩, rfl⟩
  have run : Dealing.generate q none (tape ++ zeros) = some (⟨.ok d, [.dealt 2 2]⟩, []) :=
    Sampler.bind_eq_some_iff.2 ⟨k, zeros, (more _ _ zeros _ key).2,
      Dealing.deal_eq_some_iff.2 (.inr ⟨[0, 1], [0], rfl, coefficient, rfl⟩)⟩
  exact ⟨prime_twoLimbs, key, (exhausted _).2 short, run, dealt q none _ _ _ d run rfl⟩

end SigningKey

end JointSchnorr
