import JointSchnorr.Proofs.Group.Residues
import JointSchnorr.Proofs.Sharing.Dealing

namespace JointSchnorr

/-- Horner's rule as a loop from the last entry up, which scales after each addition but the final
one. -/
theorem foldr_eq_loop {M : Type} [Add M] [Zero M] {scale : M → M} (comm : ∀ a b : M, a + b = b + a)
    (zero : scale 0 = 0) (l : List M) :
    l.foldr (fun a s => a + scale s) 0 = l.reverse.zipIdx.foldl
      (fun s e => if e.2 ≠ l.length - 1 then scale (s + e.1) else s + e.1) 0 := by
  cases l with
  | nil => rfl
  | cons a rest =>
    have scaled : rest.foldr (fun c s => scale (s + c)) 0 =
        scale (rest.foldr (fun c s => c + scale s) 0) := by
      induction rest with
      | nil => exact zero.symm
      | cons c rest ih => rw [List.foldr_cons, ih, List.foldr_cons, comm]
    -- no entry of the rest has the final index
    have before : rest.reverse.zipIdx.foldl
        (fun s e => if e.2 ≠ rest.length then scale (s + e.1) else s + e.1) 0 =
          scale (rest.foldr (fun c s => c + scale s) 0) := by
      rw [← scaled, ← List.foldl_reverse]
      conv_rhs => rw [← rest.reverse.zipIdx_map_fst 0, List.foldl_map]
      apply List.foldl_ext
      intro s e he
      have early := List.snd_lt_of_mem_zipIdx he
      rw [List.length_reverse] at early
      exact if_pos early.ne
    rw [List.reverse_cons, List.length_cons, Nat.add_sub_cancel, List.zipIdx_append,
      List.foldl_append, before, List.length_reverse, List.zipIdx_singleton, List.foldl_cons,
      List.foldl_nil, if_neg (not_not.2 (Nat.zero_add _)), List.foldr_cons, comm]

variable {S : Suite}

theorem Suite.evaluate_eq_loop (coefficients : List S.Scalar) (x : S.Scalar) :
    S.evaluate coefficients x = coefficients.reverse.zipIdx.foldl
      (fun sum e => if e.2 ≠ coefficients.length - 1 then x * (sum + e.1) else sum + e.1) 0 :=
  foldr_eq_loop add_comm (mul_zero x) coefficients

theorem Suite.evaluateHidden_eq_loop [S.Lawful] (points : List S.Point) (x : S.Scalar) :
    S.evaluateHidden points x = points.reverse.zipIdx.foldl
      (fun sum e => if e.2 ≠ points.length - 1 then x • (sum + e.1) else sum + e.1) 0 := by
  have zero : x • (0 : S.Point) = 0 := by
    rw [CyclicGroup.eq_iff_log_eq, CyclicGroup.log_smul, CyclicGroup.log_zero, mul_zero]
  exact foldr_eq_loop CyclicGroup.Lawful.add_comm zero points

theorem Suite.val_evaluate_abscissa (coefficients : List S.Scalar) (i : Position) :
    (S.evaluate coefficients (S.abscissa i)).val =
      (coefficients.zipIdx.map fun e => e.1.val * (i.toNat + 1) ^ e.2).sum % S.order.value := by
  have reduced : S.evaluate coefficients (S.abscissa i) =
      Residue.ofNat (coefficients.zipIdx.map fun e => e.1.val * (i.toNat + 1) ^ e.2).sum := by
    rw [S.evaluate_eq_sum, Residue.ofNat_eq_natCast, Nat.cast_list_sum, List.map_map]
    congr 1
    apply List.map_congr_left
    intro e _
    change _ = ((e.1.val * (i.toNat + 1) ^ e.2 : Nat) : S.Scalar)
    rw [Nat.cast_mul, Nat.cast_pow, ← Residue.ofNat_eq_natCast e.1.val, Residue.ofNat_val]
    rfl
  rw [reduced, Residue.val_ofNat]

namespace DealtShare

variable [S.Lawful]

theorem existsUnique_matchesCommitment (c : Commitment S) (i : Position) :
    ∃! v, (⟨i, v⟩ : DealtShare S).matchesCommitment c = true := by
  simp only [matchesCommitment_iff, existsUnique_eq]

/-- Any points commit to one value for each position.  A dealer's own points commit to the values of
its polynomial, so a share that it dealt passes at another position just if the polynomial has the
same value there. -/
theorem feldman_exact :
    (∀ (c : Commitment S) (i : Position),
      ∃! v, (⟨i, v⟩ : DealtShare S).matchesCommitment c = true) ∧
    (∀ (coefficients : List S.Scalar) (i : Position),
      (S.evaluate coefficients (S.abscissa i)).val =
          (coefficients.zipIdx.map fun e => e.1.val * (i.toNat + 1) ^ e.2).sum % S.order.value ∧
      S.evaluateHidden (coefficients.map S.power) (S.abscissa i) =
          S.power (S.evaluate coefficients (S.abscissa i)) ∧
      ∀ v, (⟨i, v⟩ : DealtShare S).matchesCommitment (coefficients.map S.power) = true ↔
        v = S.evaluate coefficients (S.abscissa i)) ∧
    (∀ (d : Dealing S) (i j : Position),
      (d.shareFor i).matchesCommitment d.commitment = true ∧
      ({ d.shareFor i with receiver := j }.matchesCommitment d.commitment = true ↔
        (d.shareFor i).value = (d.shareFor j).value)) ∧
    (∀ (coefficients : List S.Scalar) (x : S.Scalar),
      S.evaluate coefficients x = coefficients.reverse.zipIdx.foldl
        (fun sum e => if e.2 ≠ coefficients.length - 1 then x * (sum + e.1) else sum + e.1) 0) ∧
    ∀ (points : List S.Point) (x : S.Scalar),
      S.evaluateHidden points x = points.reverse.zipIdx.foldl
        (fun sum e => if e.2 ≠ points.length - 1 then x • (sum + e.1) else sum + e.1) 0 := by
  refine ⟨existsUnique_matchesCommitment, ?values, ?dealt, Suite.evaluate_eq_loop,
    Suite.evaluateHidden_eq_loop⟩
  case values =>
    intro coefficients i
    exact ⟨Suite.val_evaluate_abscissa coefficients i,
      Commitment.evaluateHidden_map_power coefficients _, fun _ => matchesCommitment_map_power_iff⟩
  case dealt =>
    intro d i j
    exact ⟨d.matchesCommitment_shareFor i, matchesCommitment_map_power_iff⟩

theorem feldman_exact_of_congruent :
    let G := Suite.seven.power
    let d : Dealing Suite.seven :=
      ⟨⟨3, 2, by decide, by decide⟩, ⟨1, by decide, G 1, rfl⟩, [2], [0, 1, 2]⟩
    (∃! v, (⟨1, v⟩ : DealtShare Suite.seven).matchesCommitment [G 1, G 2] = true) ∧
      ({ d.shareFor 0 with receiver := 7 }.matchesCommitment d.commitment = true) ∧
      ({ d.shareFor 0 with receiver := 1 }.matchesCommitment d.commitment ≠ true) := by
  intro G d
  obtain ⟨unique, _, dealt, _, _⟩ := feldman_exact (S := Suite.seven)
  refine ⟨unique _ 1, (dealt d 0 7).2.2 rfl, mt (dealt d 0 1).2.1 ?_⟩
  exact (by decide : (3 : Suite.seven.Scalar) ≠ 5)

end DealtShare

end JointSchnorr
