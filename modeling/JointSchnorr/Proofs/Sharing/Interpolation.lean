import JointSchnorr.Proofs.Group.Residues
import JointSchnorr.Proofs.Sharing.Polynomial
import JointSchnorr.Proofs.Sharing.Quorum

namespace JointSchnorr.Suite

variable {S : Suite} {i : Position} {all : List Position}

theorem nodup_abscissas_iff :
    (all.map S.abscissa).Nodup ↔ (all.map fun i => (i.toNat + 1) % S.order.value).Nodup := by
  have values : (all.map fun i => (i.toNat + 1) % S.order.value) =
      (all.map S.abscissa).map Residue.val := by
    rw [List.map_map]
    rfl
  rw [values, List.nodup_map_iff fun _ _ => Residue.ext]

variable (S) in
def weightProducts (i : Position) (all : List Position) : S.Scalar × S.Scalar :=
  all.foldl (fun products j =>
    if j = i then products
    else (products.1 * S.abscissa j, products.2 * (S.abscissa j - S.abscissa i))) (1, 1)

theorem weightProducts_eq : S.weightProducts i all =
    (((all.filter (· != i)).map S.abscissa).prod,
      ((all.filter (· != i)).map fun j => S.abscissa j - S.abscissa i).prod) := by
  have step : ∀ a b : S.Scalar, all.foldl (fun products j =>
      if j = i then products
      else (products.1 * S.abscissa j, products.2 * (S.abscissa j - S.abscissa i))) (a, b) =
        (a * ((all.filter (· != i)).map S.abscissa).prod,
          b * ((all.filter (· != i)).map fun j => S.abscissa j - S.abscissa i).prod) := by
    induction all with
    | nil => simp
    | cons j all ih =>
      intro a b
      by_cases own : j = i
      · simp [own, ih]
      · simp [own, ih, mul_assoc]
  rw [weightProducts, step, one_mul, one_mul]

theorem lagrange_eq_loop (i : Position) (all : List Position) : S.lagrange i all =
    match Residue.inv? (S.weightProducts i all).2 with
    | none => .error (.repeatedPosition i)
    | some w => .ok ((S.weightProducts i all).1 * w) := by
  rw [weightProducts_eq, lagrange, product_eq_prod, product_eq_prod, List.map_map]
  rfl

variable [Fact S.order.value.Prime]

theorem lagrange_eq_error_iff {e : Error} : S.lagrange i all = .error e ↔
    e = .repeatedPosition i ∧ ∃ j ∈ all, j ≠ i ∧ j.toNat ≡ i.toNat [MOD S.order.value] := by
  simp only [lagrange_eq, abscissa_eq_iff]
  by_cases met : ∃ j ∈ all, j ≠ i ∧ j.toNat ≡ i.toNat [MOD S.order.value]
  · rw [if_pos met, Except.error.injEq, and_iff_left met, eq_comm]
  · rw [if_neg met]
    exact iff_of_false nofun fun h => met h.2

theorem exists_lagrange_iff : (∃ w, S.lagrange i all = .ok w) ↔
    ∀ j ∈ all, S.abscissa j = S.abscissa i → j = i := by
  rw [lagrange_eq]
  split <;> grind

theorem forall_exists_lagrange_iff (distinct : all.Nodup) :
    (∀ i ∈ all, ∃ w, S.lagrange i all = .ok w) ↔ (all.map S.abscissa).Nodup := by
  simp only [exists_lagrange_iff, List.nodup_map_iff_inj_on distinct]
  grind

theorem sum_weight_mul_eval {weight : Position → S.Scalar}
    (distinct : (all.map S.abscissa).Nodup)
    (weighs : ∀ i ∈ all, S.lagrange i all = .ok (weight i)) {f : Polynomial S.Scalar}
    (low : f.degree < all.length) :
    (all.map fun i => weight i * f.eval (S.abscissa i)).sum = f.eval 0 := by
  rw [← sum_basis_mul_eval distinct low]
  congr 1
  apply List.map_congr_left
  intro i hi
  rw [Except.ok.inj ((weighs i hi).symm.trans (lagrange_eq_basis distinct hi))]

/-- Every position has a weight exactly when no two arguments are congruent, and if two are, those
that share theirs are the ones that have none.  The weights then recover the value at zero, whether
or not zero is one of the arguments.  Above all positions nothing is congruent or zero. -/
theorem lagrange_exact (S : Suite) [Fact S.order.value.Prime] :
    (∀ i all, S.lagrange i all =
      match Residue.inv? (S.weightProducts i all).2 with
      | none => .error (.repeatedPosition i)
      | some w => .ok ((S.weightProducts i all).1 * w)) ∧
    (∀ all : List Position, all.Nodup →
      ((∀ i ∈ all, ∃ w, S.lagrange i all = .ok w) ↔
        (all.map fun i => (i.toNat + 1) % S.order.value).Nodup) ∧
      (∀ i e, S.lagrange i all = .error e ↔
        e = .repeatedPosition i ∧ ∃ j ∈ all, j ≠ i ∧ j.toNat ≡ i.toNat [MOD S.order.value]) ∧
      ∀ weight : Position → S.Scalar, (∀ i ∈ all, S.lagrange i all = .ok (weight i)) →
        ∀ f : Polynomial S.Scalar, f.degree < all.length →
          (all.map fun i => weight i * f.eval (S.abscissa i)).sum = f.eval 0 ∧
            S.interpolate (all.map fun i => (i, f.eval (S.abscissa i))) = .ok (f.eval 0)) ∧
    (2 ^ 32 < S.order.value →
      Function.Injective S.abscissa ∧ (∀ i, S.abscissa i ≠ 0) ∧
        ∀ all, checkDistinct all = .ok () → ∀ i ∈ all, ∃ w, S.lagrange i all = .ok w) := by
  refine ⟨lagrange_eq_loop, fun all nodup => ⟨?weighed, fun _ _ => lagrange_eq_error_iff, ?sum⟩,
    fun large => ⟨S.abscissa_injective large, S.abscissa_ne_zero large, ?distinct⟩⟩
  case weighed => rw [forall_exists_lagrange_iff nodup, nodup_abscissas_iff]
  case sum =>
    intro weight weighs f low
    have distinct : (all.map S.abscissa).Nodup :=
      (forall_exists_lagrange_iff nodup).1 fun i hi => ⟨weight i, weighs i hi⟩
    refine ⟨sum_weight_mul_eval distinct weighs low, interpolate_eq_ok ?_ ?_ ?_⟩
    · rw [List.map_map]
      exact distinct
    · rwa [List.length_map]
    · simp
  case distinct =>
    intro all checked
    have nodup := checkDistinct_eq_ok_iff.1 checked
    exact (forall_exists_lagrange_iff nodup).2 (nodup.map (S.abscissa_injective large))

theorem lagrange_exact_of_seven :
    let W := Suite.wide
    let f := Suite.seven.polynomial [3, 2, 1]
    let weight : Position → Suite.seven.Scalar := fun i => if i = 6 then 1 else 0
    (f.degree < 3 ∧ ∀ i ∈ [6, 0, 3], Suite.seven.lagrange i [6, 0, 3] = .ok (weight i)) ∧
      ([6, 0, 3].map fun i => weight i * f.eval (Suite.seven.abscissa i)).sum = f.eval 0 ∧
      Suite.seven.lagrange 7 [0, 7, 3] = .error (.repeatedPosition 7) ∧
      (2 ^ 32 < W.order.value ∧ W.abscissa 4294967295 ≠ 0 ∧
        ∃ w, W.lagrange 4294967295 [0, 4294967295] = .ok w) := by
  intro W f weight
  have large : 2 ^ 32 < W.order.value := by decide
  have low : f.degree < 3 := Suite.seven.degree_polynomial_lt [3, 2, 1]
  have weighs : ∀ i ∈ [6, 0, 3], Suite.seven.lagrange i [6, 0, 3] = .ok (weight i) :=
    List.forall_mem_cons.2 ⟨rfl, List.forall_mem_cons.2 ⟨rfl, List.forall_mem_singleton.2 rfl⟩⟩
  obtain ⟨_, listed, _⟩ := lagrange_exact Suite.seven
  obtain ⟨_, _, above⟩ := lagrange_exact W
  obtain ⟨_, nonzero, weighed⟩ := above large
  obtain ⟨_, _, sum⟩ := listed [6, 0, 3] (by decide)
  obtain ⟨_, refused, _⟩ := listed [0, 7, 3] (by decide)
  exact ⟨⟨low, weighs⟩, (sum weight weighs f low).1,
    (refused 7 _).2 ⟨rfl, 0, by decide, by decide, by decide⟩,
    large, nonzero _, weighed [0, 4294967295] (by decide) _ (by decide)⟩

end JointSchnorr.Suite
