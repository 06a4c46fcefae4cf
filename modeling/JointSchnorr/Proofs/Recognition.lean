import JointSchnorr.Proofs.Group.Residues
import JointSchnorr.Proofs.Signature
import JointSchnorr.Proofs.TaggedKey

namespace JointSchnorr

namespace Scheme

def rank : Scheme → Nat
  | single => 0
  | aggregate => 1
  | threshold => 2

variable {passes : Scheme → Bool} {hint scheme : Scheme}

theorem find?_eq_none_iff : [hint, single, aggregate, threshold].find? passes = none ↔
    ∀ scheme, passes scheme = false := by
  rw [List.find?_eq_none]
  constructor
  · intro h scheme
    have listed : scheme ∈ [hint, single, aggregate, threshold] := by
      cases scheme <;> simp
    exact Bool.eq_false_iff.2 (h scheme listed)
  · intro h scheme _
    rw [h scheme]
    exact Bool.false_ne_true

theorem forall_iff {p : Scheme → Prop} :
    (∀ scheme, p scheme) ↔ p single ∧ p aggregate ∧ p threshold :=
  ⟨fun h => ⟨h _, h _, h _⟩, fun ⟨hs, ha, ht⟩ scheme => by cases scheme <;> assumption⟩

theorem first_eq_some_iff : [single, aggregate, threshold].find? passes = some scheme ↔
    passes scheme ∧ ∀ earlier, earlier.rank < scheme.rank → passes earlier = false := by
  rw [forall_iff]
  cases single : passes .single <;> cases aggregate : passes .aggregate <;>
    cases threshold : passes .threshold <;> cases scheme <;> simp [rank, *]

theorem find?_eq_some_iff : [hint, single, aggregate, threshold].find? passes = some scheme ↔
    passes scheme ∧ (passes hint → scheme = hint) ∧
      (passes hint = false → ∀ earlier, earlier.rank < scheme.rank → passes earlier = false) := by
  cases hinted : passes hint with
  | true =>
    rw [List.find?_cons_of_pos hinted, Option.some.injEq]
    constructor
    · rintro rfl
      exact ⟨hinted, fun _ => rfl, nofun⟩
    · rintro ⟨_, same, _⟩
      exact (same rfl).symm
  | false =>
    rw [List.find?_cons_of_neg (Bool.eq_false_iff.1 hinted), first_eq_some_iff]
    refine and_congr_right fun _ => ?_
    constructor
    · intro first
      exact ⟨nofun, fun _ => first⟩
    · rintro ⟨_, first⟩
      exact first rfl

end Scheme

namespace Suite

variable {S : Suite} {s r key m rest : Bytes} {lead : UInt8} {g : Signature S} {hint : Scheme}
  {P : S.Point}

def Reads (S : Suite) (s r key : Bytes) (g : Signature S) (hint : Scheme) (P : S.Point) : Prop :=
  S.decodeScalar s = .ok g.response ∧ S.decode r = .ok g.nonce ∧ S.decodeTagged key = .ok (hint, P)

def Unreadable (S : Suite) (s r key : Bytes) : Prop :=
  (∃ e, S.decodeScalar s = .error e) ∨ (∃ e, S.decode r = .error e) ∨
    ∃ e, S.decodeTagged key = .error e

theorem recognise_of_unreadable (h : S.Unreadable s r key) (m : Bytes) :
    S.recognise s r key m = pure none := by
  rw [recognise]
  cases scalar : S.decodeScalar s with
  | error e => rfl
  | ok x =>
    cases nonce : S.decode r with
    | error e => rfl
    | ok R =>
      cases tagged : S.decodeTagged key with
      | error e => rfl
      | ok p =>
        rw [Unreadable, scalar, nonce, tagged] at h
        simp at h

theorem recognise_of_reads (h : S.Reads s r key g hint P) (m : Bytes) :
    S.recognise s r key m = do
      let found := [hint, .single, .aggregate, .threshold].find? fun scheme =>
        (g.verify scheme P m).isOk
      Logged.emit [.recognised hint found]
      return found := by
  obtain ⟨scalar, nonce, tagged⟩ := h
  rw [recognise, scalar, nonce, tagged]
  rfl

theorem reads_or_unreadable (S : Suite) (s r key : Bytes) :
    (∃ g hint P, S.Reads s r key g hint P) ∨ S.Unreadable s r key := by
  cases scalar : S.decodeScalar s with
  | error e => exact .inr (.inl ⟨e, scalar⟩)
  | ok x =>
    cases nonce : S.decode r with
    | error e => exact .inr (.inr (.inl ⟨e, nonce⟩))
    | ok R =>
      cases tagged : S.decodeTagged key with
      | error e => exact .inr (.inr (.inr ⟨e, tagged⟩))
      | ok p => exact .inl ⟨⟨R, x⟩, p.1, p.2, scalar, nonce, tagged⟩

theorem reads_shift_iff (low : 2 ≤ lead) (high : lead ≤ 4) {hint' : Scheme} :
    S.Reads s r ((lead + hint.shift) :: rest) g hint' P ↔
      S.decodeScalar s = .ok g.response ∧ S.decode r = .ok g.nonce ∧
        S.decode (lead :: rest) = .ok P ∧ hint = hint' := by
  rw [Reads, decodeTagged_shift (Scheme.mem_leads_single_iff.2 ⟨low, high⟩), map_eq_ok_iff]
  refine and_congr_right fun _ => and_congr_right fun _ => ?_
  simp [and_comm]

theorem outcome_of_unreadable (h : S.Unreadable s r key) :
    (S.recognise s r key m).outcome = .ok none := by
  rw [recognise_of_unreadable h]
  rfl

theorem outcome_of_reads (h : S.Reads s r key g hint P) : (S.recognise s r key m).outcome =
    .ok ([hint, .single, .aggregate, .threshold].find? fun scheme =>
      (g.verify scheme P m).isOk) := by
  rw [recognise_of_reads h]
  rfl

theorem recognise_eq_none_iff (h : S.Reads s r key g hint P) :
    (S.recognise s r key m).outcome = .ok none ↔ ∀ scheme, g.verify scheme P m ≠ .ok () := by
  rw [outcome_of_reads h, Except.ok.injEq, Scheme.find?_eq_none_iff]
  simp only [isOk_eq_false_iff]

theorem recognise_eq_some_iff (h : S.Reads s r key g hint P) {scheme : Scheme} :
    (S.recognise s r key m).outcome = .ok (some scheme) ↔
      g.verify scheme P m = .ok () ∧ (g.verify hint P m = .ok () → scheme = hint) ∧
        (g.verify hint P m ≠ .ok () →
          ∀ earlier, earlier.rank < scheme.rank → g.verify earlier P m ≠ .ok ()) := by
  rw [outcome_of_reads h, Except.ok.injEq, Scheme.find?_eq_some_iff]
  simp only [isOk_iff, isOk_eq_false_iff]

theorem recognise_of_only (h : S.Reads s r key g hint P) {scheme : Scheme}
    (passes : g.verify scheme P m = .ok ())
    (only : ∀ other, g.verify other P m = .ok () → other = scheme) :
    (S.recognise s r key m).outcome = .ok (some scheme) := by
  refine (recognise_eq_some_iff h).2 ⟨passes, fun hinted => (only hint hinted).symm, ?_⟩
  intro _ earlier before passed
  exact absurd (congrArg Scheme.rank (only earlier passed)) before.ne

theorem shifted_eq_none_iff (low : 2 ≤ lead) (high : lead ≤ 4) (hint : Scheme) :
    (S.recognise s r ((lead + hint.shift) :: rest) m).outcome = .ok none ↔
      ∀ (g : Signature S) P, S.decodeScalar s = .ok g.response → S.decode r = .ok g.nonce →
        S.decode (lead :: rest) = .ok P → ∀ scheme, g.verify scheme P m ≠ .ok () := by
  constructor
  · intro h g P scalar nonce key
    exact (recognise_eq_none_iff ((reads_shift_iff low high).2 ⟨scalar, nonce, key, rfl⟩)).1 h
  · intro h
    obtain ⟨g, hint', P, reads⟩ | unreadable :=
      reads_or_unreadable S s r ((lead + hint.shift) :: rest)
    · obtain ⟨scalar, nonce, key, _⟩ := (reads_shift_iff low high).1 reads
      exact (recognise_eq_none_iff reads).2 (h g P scalar nonce key)
    · exact outcome_of_unreadable unreadable

/-- The answer in terms of what the strings stand for, and what becomes of it when the key is tagged
otherwise. -/
theorem recognise_exact (S : Suite) (s r m : Bytes) :
    (∀ key, (S.recognise s r key m).outcome = .ok none ↔
      S.Unreadable s r key ∨
        ∃ g hint P, S.Reads s r key g hint P ∧ ∀ scheme, g.verify scheme P m ≠ .ok ()) ∧
    (∀ key scheme, (S.recognise s r key m).outcome = .ok (some scheme) ↔
      ∃ g hint P, S.Reads s r key g hint P ∧ g.verify scheme P m = .ok () ∧
        (g.verify hint P m = .ok () → scheme = hint) ∧
        (g.verify hint P m ≠ .ok () →
          ∀ earlier, earlier.rank < scheme.rank → g.verify earlier P m ≠ .ok ())) ∧
    (∀ key e, (S.recognise s r key m).outcome ≠ .error e) ∧
    ∀ lead rest, 2 ≤ lead → lead ≤ 4 → ∀ hint hint' : Scheme,
      let tagged (hint : Scheme) := (S.recognise s r ((lead + hint.shift) :: rest) m).outcome
      (tagged hint = .ok none ↔ tagged hint' = .ok none) ∧
      ∀ (g : Signature S) P, S.decodeScalar s = .ok g.response → S.decode r = .ok g.nonce →
        S.decode (lead :: rest) = .ok P → (∃! scheme, g.verify scheme P m = .ok ()) →
          tagged hint = tagged hint' := by
  refine ⟨fun key => ?none, fun key scheme => ?some, fun key e => ?total,
    fun lead rest low high hint hint' => ⟨?found, ?unique⟩⟩
  case none =>
    constructor
    · intro h
      obtain ⟨g, hint, P, reads⟩ | unreadable := reads_or_unreadable S s r key
      · exact .inr ⟨g, hint, P, reads, (recognise_eq_none_iff reads).1 h⟩
      · exact .inl unreadable
    · rintro (unreadable | ⟨g, hint, P, reads, fails⟩)
      · exact outcome_of_unreadable unreadable
      · exact (recognise_eq_none_iff reads).2 fails
  case some =>
    constructor
    · intro h
      obtain ⟨g, hint, P, reads⟩ | unreadable := reads_or_unreadable S s r key
      · exact ⟨g, hint, P, reads, (recognise_eq_some_iff reads).1 h⟩
      · cases h.symm.trans (outcome_of_unreadable unreadable)
    · rintro ⟨g, hint, P, reads, answer⟩
      exact (recognise_eq_some_iff reads).2 answer
  case total =>
    obtain ⟨g, hint, P, reads⟩ | unreadable := reads_or_unreadable S s r key
    · rw [outcome_of_reads reads]
      nofun
    · rw [outcome_of_unreadable unreadable]
      nofun
  case found =>
    exact (shifted_eq_none_iff low high hint).trans (shifted_eq_none_iff low high hint').symm
  case unique =>
    intro g P scalar nonce key ⟨scheme, passes, only⟩
    have answer (hint : Scheme) : (S.recognise s r ((lead + hint.shift) :: rest) m).outcome =
        .ok (some scheme) :=
      recognise_of_only ((reads_shift_iff low high).2 ⟨scalar, nonce, key, rfl⟩) passes only
    exact (answer hint).trans (answer hint').symm

theorem recognise_exact_of_summing :
    let G := summing.power
    (∃! scheme, (⟨G 2, 5⟩ : Signature summing).verify scheme (G 3) [0] = .ok ()) ∧
      (summing.recognise [5] [2] [9] [0]).outcome = (summing.recognise [5] [2] [6] [0]).outcome ∧
      ((summing.recognise [6] [2] [9] [1]).outcome = .ok none ↔
        (summing.recognise [6] [2] [6] [1]).outcome = .ok none) ∧
      (summing.recognise [6] [2] [9] [1]).outcome = .ok (some .single) ∧
      (summing.recognise [6] [2] [6] [1]).outcome = .ok (some .aggregate) := by
  intro G
  have only : ∃! scheme, (⟨G 2, 5⟩ : Signature summing).verify scheme (G 3) [0] = .ok () := by
    refine ⟨.single, by decide +kernel, ?_⟩
    intro scheme passes
    cases scheme with
    | single => rfl
    | aggregate => exact absurd passes (by decide +kernel)
    | threshold => exact absurd passes (by decide +kernel)
  obtain ⟨_, _, _, tagged⟩ := recognise_exact summing [5] [2] [0]
  obtain ⟨_, _, _, tagged'⟩ := recognise_exact summing [6] [2] [1]
  exact ⟨only, (tagged 3 [] (by decide) (by decide) .threshold .aggregate).2 _ _ rfl rfl rfl only,
    (tagged' 3 [] (by decide) (by decide) .threshold .aggregate).1, by decide +kernel,
    by decide +kernel⟩

end Suite

end JointSchnorr
