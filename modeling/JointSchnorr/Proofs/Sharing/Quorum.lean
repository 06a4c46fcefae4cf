import Mathlib.Data.List.Nodup
import JointSchnorr.Proofs.Refusal
import JointSchnorr.Sharing.Quorum

namespace JointSchnorr

theorem checkSizes_eq_ok_iff {expected : Nat} {actual : List Nat} :
    checkSizes expected actual = .ok () ↔ ∀ n ∈ actual, n = expected := by
  rw [checkSizes]
  cases h : actual.find? (· != expected) with
  | none => simpa using h
  | some n =>
    simp only [reduceCtorEq, false_iff]
    intro all
    have hne := List.find?_some h
    simp [all n (List.mem_of_find?_eq_some h)] at hne

theorem repeatedAfter_eq_none_iff {seen positions : List Position} :
    repeatedAfter seen positions = none ↔ positions.Nodup ∧ ∀ p ∈ positions, p ∉ seen := by
  induction positions generalizing seen with
  | nil => simp [repeatedAfter]
  | cons p rest ih =>
    rw [repeatedAfter, List.nodup_cons]
    by_cases h : p ∈ seen
    · simp [h]
    · rw [if_neg h, ih]
      grind

theorem checkDistinct_eq_ok_iff {positions : List Position} :
    checkDistinct positions = .ok () ↔ positions.Nodup := by
  have nodup : repeatedAfter [] positions = none ↔ positions.Nodup := by
    simp [repeatedAfter_eq_none_iff]
  rw [checkDistinct, ← nodup]
  cases repeatedAfter [] positions <;> simp

def firstRepeated (positions : List Position) : Option Position :=
  (positions.zipIdx.find? fun e => e.1 ∈ positions.take e.2).map (·.1)

theorem repeatedAfter_eq (before : List Position) {seen rest : List Position}
    (h : ∀ p, p ∈ seen ↔ p ∈ before) :
    repeatedAfter seen rest =
      ((rest.zipIdx before.length).find? fun e => e.1 ∈ (before ++ rest).take e.2).map (·.1) := by
  induction rest generalizing before seen with
  | nil => rfl
  | cons p rest ih =>
    simp only [repeatedAfter, List.zipIdx_cons, List.find?_cons, List.take_left]
    by_cases hp : p ∈ seen
    · rw [if_pos hp, decide_eq_true ((h p).1 hp)]
      rfl
    · rw [if_neg hp, decide_eq_false (mt (h p).2 hp)]
      have longer : ∀ p', p' ∈ p :: seen ↔ p' ∈ before ++ [p] := by
        intro p'
        rw [List.mem_cons, List.mem_append, List.mem_singleton, h, or_comm]
      have step := ih (before ++ [p]) longer
      rwa [List.length_append, List.append_assoc] at step

theorem checkDistinct_eq (positions : List Position) :
    checkDistinct positions = settle [(firstRepeated positions).map .repeatedPosition] () := by
  have first : repeatedAfter [] positions = firstRepeated positions :=
    repeatedAfter_eq [] fun _ => .rfl
  rw [checkDistinct, first]
  cases firstRepeated positions <;> rfl

theorem checkDistinct_eq_error_iff {positions : List Position} {e : Error} :
    checkDistinct positions = .error e ↔
      ∃ p, firstRepeated positions = some p ∧ e = .repeatedPosition p := by
  rw [checkDistinct_eq]
  cases firstRepeated positions <;> simp [eq_comm]

def wrongSize (expected actual : Nat) : Option Error :=
  refuseIf (actual ≠ expected) (.sizeMismatch expected actual)

theorem wrongSize_eq_none_iff {expected actual : Nat} :
    wrongSize expected actual = none ↔ actual = expected := by
  rw [wrongSize, refuseIf_eq_none_iff, not_not]

theorem checkSizes_eq (expected : Nat) (actual : List Nat) :
    checkSizes expected actual = settle (actual.map (wrongSize expected)) () := by
  induction actual with
  | nil => rfl
  | cons n actual ih =>
    rw [checkSizes, List.find?_cons, List.map_cons, wrongSize, refuseIf]
    by_cases h : n = expected
    · rw [h, bne_self_eq_false, if_neg (not_not.2 rfl), settle_none, ← ih]
      rfl
    · rw [bne_iff_ne.2 h, if_pos h]
      rfl

theorem checkSizes_singleton_eq_error_iff {expected actual : Nat} {e : Error} :
    checkSizes expected [actual] = .error e ↔
      actual ≠ expected ∧ e = .sizeMismatch expected actual := by
  rw [checkSizes_eq, List.map_singleton, wrongSize, refuseIf]
  by_cases h : actual = expected
  · simp [h]
  · rw [if_pos h, settle_some, Except.error.injEq, and_iff_right h, eq_comm]

theorem checkSizes_plain (expected : Nat) (actual : List Nat) :
    FailsOnly Error.Plain (checkSizes expected actual) := by
  rw [checkSizes]
  split
  · exact .ok ()
  · exact .error trivial

theorem checkDistinct_plain (positions : List Position) :
    FailsOnly Error.Plain (checkDistinct positions) := by
  rw [checkDistinct]
  split
  · exact .ok ()
  · exact .error trivial

namespace Quorum

variable (q : Quorum)

theorem threshold_toNat_pos : 0 < q.threshold.toNat := UInt32.lt_iff_toNat_lt.1 q.threshold_pos

theorem threshold_toNat_le : q.threshold.toNat ≤ q.parties.toNat :=
  UInt32.le_iff_toNat_le.1 q.threshold_le

theorem toNat_map_everyone : q.everyone.map UInt32.toNat = List.range q.parties.toNat := by
  rw [everyone, List.map_map]
  conv_rhs => rw [← List.map_id (List.range q.parties.toNat)]
  apply List.map_congr_left
  intro i hi
  have hlt := Nat.lt_trans (List.mem_range.1 hi) q.parties.toNat_lt
  exact UInt32.toNat_ofNat_of_lt' hlt

theorem nodup_everyone : q.everyone.Nodup := by
  apply List.Nodup.of_map UInt32.toNat
  rw [toNat_map_everyone]
  exact List.nodup_range

theorem length_everyone : q.everyone.length = q.parties.toNat := by
  rw [← List.length_map UInt32.toNat, toNat_map_everyone, List.length_range]

theorem mem_everyone_iff {p : Position} : p ∈ q.everyone ↔ p < q.parties := by
  rw [UInt32.lt_iff_toNat_lt, ← List.mem_range, ← toNat_map_everyone,
    List.mem_map_of_injective fun _ _ => UInt32.toNat_inj.1]

end Quorum

end JointSchnorr
