import Mathlib.Data.List.GetD
import JointSchnorr.Proofs.Draw
import JointSchnorr.Proofs.Group.Residues
import JointSchnorr.Proofs.Sharing.Dealing
import JointSchnorr.Proofs.Sharing.Polynomial

/-!
Any secret leaves one choice of the other coefficients for given shares, so every secret explains
them equally well.
-/

namespace JointSchnorr

namespace Suite

variable {S : Suite}

theorem eq_of_polynomial_eq {coefficients others : List S.Scalar}
    (length : coefficients.length = others.length)
    (h : S.polynomial coefficients = S.polynomial others) : coefficients = others := by
  apply List.ext_getElem length
  intro k hk hk'
  have same := congrArg (·.coeff k) h
  simp only [coeff_polynomial] at same
  rwa [List.getD_eq_getElem _ _ hk, List.getD_eq_getElem _ _ hk'] at same

theorem exists_polynomial_eq {f : Polynomial S.Scalar} {n : Nat} (low : f.degree < n) :
    ∃ coefficients : List S.Scalar, coefficients.length = n ∧ S.polynomial coefficients = f := by
  have length : ((List.range n).map f.coeff).length = n := by simp
  refine ⟨(List.range n).map f.coeff, length, Polynomial.ext fun k => ?_⟩
  rw [coeff_polynomial]
  by_cases hk : k < n
  · rw [List.getD_eq_getElem _ _ (length.symm ▸ hk), List.getElem_map, List.getElem_range]
  · rw [List.getD_eq_default _ _ (length.symm ▸ not_lt.1 hk)]
    exact ((Polynomial.degree_lt_iff_coeff_zero f n).1 low k (not_lt.1 hk)).symm

variable (S) in
def drawable (t : Nat) (secret : S.Scalar) : Set (List S.Scalar) :=
  {c | ∃ tape rest, Dealing.draw t secret tape = some (c, rest)}

end Suite

namespace Dealing

variable {S : Suite} {q : Quorum} {given : Option (List Position)}

def dealt (q : Quorum) (k : SigningKey S) (given : Option (List Position)) : Set (Dealing S) :=
  {d | ∃ tape rest log, deal q k given tape = some (log, rest) ∧ log.outcome = .ok d}

theorem coefficients_image_dealt {listed : List Position} (served : roster q given = .ok listed)
    (k : SigningKey S) :
    coefficients '' dealt q k given = S.drawable q.threshold.toNat k.secret := by
  ext c
  constructor
  · rintro ⟨d, ⟨tape, rest, log, run, ok⟩, rfl⟩
    obtain ⟨e, refused, _⟩ | ⟨_, higher, _, drawn, rfl⟩ := deal_eq_some_iff.1 run
    · cases served.symm.trans refused
    · cases ok
      exact ⟨tape, rest, draw_eq_some_iff.2 ⟨higher, drawn, rfl⟩⟩
  · rintro ⟨tape, rest, run⟩
    obtain ⟨higher, drawn, rfl⟩ := draw_eq_some_iff.1 run
    let d : Dealing S := ⟨q, k, higher, listed⟩
    let log : Logged (Dealing S) := ⟨.ok d, [.dealt q.parties q.threshold]⟩
    have dealt : deal q k given tape = some (log, rest) :=
      deal_eq_some_iff.2 (.inr ⟨listed, higher, served, drawn, rfl⟩)
    exact ⟨d, ⟨tape, rest, log, dealt, rfl⟩, rfl⟩

theorem dealt_of_refused {e : Error} (refused : roster q given = .error e) (k : SigningKey S) :
    dealt q k given = ∅ := by
  rw [Set.eq_empty_iff_forall_notMem]
  rintro d ⟨tape, rest, log, run, ok⟩
  cases ok.symm.trans ((outcome_eq_error_iff run).2 refused)

end Dealing

namespace Suite

variable {S : Suite}

section Prime

variable [Fact S.order.value.Prime]

theorem drawable_eq (odd : S.order.value ≠ 2) (t : Nat) (secret : S.Scalar) :
    S.drawable t secret = (secret :: ·) '' {higher | higher.length = t - 1} := by
  ext c
  constructor
  · rintro ⟨tape, rest, run⟩
    obtain ⟨higher, drawn, rfl⟩ := Dealing.draw_eq_some_iff.1 run
    exact ⟨higher, Sampler.length_of_list drawn, rfl⟩
  · rintro ⟨higher, (length : higher.length = t - 1), rfl⟩
    obtain ⟨tape, draws⟩ := CyclicGroup.exists_list_eq odd higher
    rw [length] at draws
    exact ⟨tape ++ [], [], Dealing.draw_eq_some_iff.2 ⟨higher, draws [], rfl⟩⟩

variable (large : 2 ^ 32 < S.order.value) (positions : Finset Position)

include large

theorem existsUnique_evaluate (values : Position → S.Scalar) :
    ∃! c : List S.Scalar, c.length = positions.card ∧
      ∀ i ∈ positions, S.evaluate c (S.abscissa i) = values i := by
  have inj := (S.abscissa_injective large).injOn (s := positions)
  obtain ⟨c, length, hc⟩ :=
    exists_polynomial_eq (Lagrange.degree_interpolate_lt values inj)
  refine ⟨c, ⟨length, fun i hi => ?_⟩, ?_⟩
  · rw [← eval_polynomial, hc, Lagrange.eval_interpolate_at_node values inj hi]
  · rintro other ⟨length', through⟩
    apply eq_of_polynomial_eq (length'.trans length.symm)
    rw [hc]
    apply Lagrange.eq_interpolate_of_eval_eq values inj
    · rw [← length']
      exact S.degree_polynomial_lt other
    · intro i hi
      rw [eval_polynomial, through i hi]

/-- No abscissa is zero, so the secret can be taken off each value and the rest divided. -/
theorem existsUnique_higher (secret : S.Scalar) (values : Position → S.Scalar) :
    ∃! higher : List S.Scalar, higher.length = positions.card ∧
      ∀ i ∈ positions, S.evaluate (secret :: higher) (S.abscissa i) = values i := by
  have shifted (higher : List S.Scalar) (i : Position) :
      S.evaluate (secret :: higher) (S.abscissa i) = values i ↔
        S.evaluate higher (S.abscissa i) = (values i - secret) / S.abscissa i := by
    change secret + S.abscissa i * S.evaluate higher (S.abscissa i) = values i ↔ _
    rw [eq_div_iff (S.abscissa_ne_zero large i), eq_sub_iff_add_eq', mul_comm]
  simp only [shifted]
  exact existsUnique_evaluate large positions _

theorem existsUnique_drawable {t : Nat} (few : positions.card + 1 = t) (secret : S.Scalar)
    (values : Position → S.Scalar) :
    ∃! c, c ∈ S.drawable t secret ∧
      ∀ i ∈ positions, S.evaluate c (S.abscissa i) = values i := by
  have odd : S.order.value ≠ 2 := by omega
  obtain ⟨higher, ⟨length, through⟩, unique⟩ := existsUnique_higher large positions secret values
  subst few
  rw [drawable_eq odd]
  refine ⟨secret :: higher, ⟨⟨higher, length, rfl⟩, through⟩, ?_⟩
  rintro _ ⟨⟨other, length', rfl⟩, through'⟩
  rw [unique other ⟨length', through'⟩]

theorem exists_bijOn_drawable {t : Nat} (few : positions.card + 1 = t) (secret secret' : S.Scalar) :
    ∃ f : List S.Scalar → List S.Scalar,
      Set.BijOn f (S.drawable t secret) (S.drawable t secret') ∧
      ∀ c ∈ S.drawable t secret, ∀ i ∈ positions,
        (DealtShare.ofPolynomial (f c) i : DealtShare S) = .ofPolynomial c i := by
  have seen (secret : S.Scalar) := existsUnique_drawable large positions few secret
  -- a choice goes to the one that shows the receivers the same of the other secret
  choose f hf using fun c : List S.Scalar =>
    (seen secret' fun i => S.evaluate c (S.abscissa i)).exists
  refine ⟨f, ⟨fun c _ => (hf c).1, ?injective, ?surjective⟩,
    fun c _ i hi => congrArg (DealtShare.mk i) ((hf c).2 i hi)⟩
  case injective =>
    intro c hc d hd same
    apply (seen secret fun i => S.evaluate d (S.abscissa i)).unique ⟨hc, ?_⟩ ⟨hd, fun i _ => rfl⟩
    intro i hi
    rw [← (hf c).2 i hi, same, (hf d).2 i hi]
  case surjective =>
    intro d hd
    obtain ⟨c, hc, through⟩ := (seen secret fun i => S.evaluate d (S.abscissa i)).exists
    refine ⟨c, hc, ?_⟩
    apply (seen secret' fun i => S.evaluate d (S.abscissa i)).unique ⟨(hf c).1, ?_⟩
      ⟨hd, fun i _ => rfl⟩
    intro i hi
    rw [(hf c).2 i hi, through i hi]

open Dealing in
/-- Receivers of fewer shares than the threshold see the same when another secret is dealt. -/
theorem secret_hidden {t : Nat} (few : positions.card + 1 = t) :
    (∀ (secret : S.Scalar) (values : Position → S.Scalar),
      ∃! higher : List S.Scalar, higher.length = t - 1 ∧
        ∀ i ∈ positions, (DealtShare.ofPolynomial (secret :: higher) i).value = values i) ∧
    (∀ secret : S.Scalar,
      S.drawable t secret = (secret :: ·) '' {higher | higher.length = t - 1}) ∧
    (∀ secret secret' : S.Scalar, ∃ f : List S.Scalar → List S.Scalar,
      Set.BijOn f (S.drawable t secret) (S.drawable t secret') ∧
      ∀ c ∈ S.drawable t secret, ∀ i ∈ positions,
        (DealtShare.ofPolynomial (f c) i : DealtShare S) = .ofPolynomial c i) ∧
    ∀ (q : Quorum) (given : Option (List Position)), q.threshold.toNat = t →
      (∀ listed, roster q given = .ok listed →
        ∀ k : SigningKey S, coefficients '' dealt q k given = S.drawable t k.secret) ∧
      ∀ k k' : SigningKey S, ∃ f : List S.Scalar → List S.Scalar,
        Set.BijOn f (coefficients '' dealt q k given) (coefficients '' dealt q k' given) ∧
        ∀ d ∈ dealt q k given, ∀ d' ∈ dealt q k' given, d'.coefficients = f d.coefficients →
          ∀ i ∈ positions, d'.shareFor i = d.shareFor i := by
  have odd : S.order.value ≠ 2 := by omega
  have hidden := exists_bijOn_drawable large positions few
  refine ⟨few ▸ existsUnique_higher large positions, drawable_eq odd t, hidden, ?dealings⟩
  case dealings =>
    rintro q given rfl
    refine ⟨fun listed => coefficients_image_dealt, fun k k' => ?_⟩
    cases receivers : roster q given with
    | error e =>
      rw [dealt_of_refused receivers, dealt_of_refused receivers, Set.image_empty]
      exact ⟨id, Set.bijOn_empty id, fun d hd => absurd hd (Set.notMem_empty d)⟩
    | ok listed =>
      obtain ⟨f, bij, seen⟩ := hidden k.secret k'.secret
      rw [← coefficients_image_dealt receivers k, ← coefficients_image_dealt receivers k'] at bij
      rw [← coefficients_image_dealt receivers k] at seen
      refine ⟨f, bij, fun d hd d' _ same i hi => ?_⟩
      rw [shareFor, same]
      exact seen _ (Set.mem_image_of_mem _ hd) i hi

end Prime

theorem secret_hidden_of_two :
    let W := Suite.wide
    let positions : Finset Position := {0, 4294967295}
    let q : Quorum := ⟨3, 3, by decide, by decide⟩
    let given : Option (List Position) := some [0, 1, 4294967295]
    let k : SigningKey W := ⟨5, by decide, W.power 5, rfl⟩
    let k' : SigningKey W := ⟨4, by decide, W.power 4, rfl⟩
    (2 ^ 32 < W.order.value ∧ positions.card + 1 = q.threshold.toNat ∧
        Dealing.roster q given = .ok [0, 1, 4294967295]) ∧
      (∃! higher : List W.Scalar, higher.length = 2 ∧
        ∀ i ∈ positions, (DealtShare.ofPolynomial (5 :: higher) i : DealtShare W).value = 1) ∧
      (Dealing.coefficients '' Dealing.dealt q k given).Nonempty ∧
      ∃ f : List W.Scalar → List W.Scalar,
        Set.BijOn f (Dealing.coefficients '' Dealing.dealt q k given)
          (Dealing.coefficients '' Dealing.dealt q k' given) ∧
        ∀ d ∈ Dealing.dealt q k given, ∀ d' ∈ Dealing.dealt q k' given,
          d'.coefficients = f d.coefficients → ∀ i ∈ positions, d'.shareFor i = d.shareFor i := by
  intro W positions q given k k'
  have large : 2 ^ 32 < W.order.value := by decide
  have few : positions.card + 1 = q.threshold.toNat := by decide
  have served : Dealing.roster q given = .ok [0, 1, 4294967295] := by decide
  obtain ⟨determined, drawn, _, dealings⟩ := secret_hidden (S := W) large positions few
  obtain ⟨image, hidden⟩ := dealings q given rfl
  refine ⟨⟨large, few, served⟩, determined 5 fun _ => 1, ?_, hidden k k'⟩
  rw [image _ served, drawn]
  exact ⟨_, [0, 0], rfl, rfl⟩

end Suite

end JointSchnorr
