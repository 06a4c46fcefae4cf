import JointSchnorr.Proofs.Curve.Decoding
import JointSchnorr.Proofs.Curve.Named
import JointSchnorr.Suites
import JointSchnorr.TaggedKey

namespace JointSchnorr

namespace Scheme

def leads : Scheme → List UInt8
  | single => [2, 3, 4]
  | aggregate => [5, 6, 7]
  | threshold => [8, 9, 10]

variable {lead : UInt8} {hint : Scheme}

theorem mem_leads_single_iff : lead ∈ single.leads ↔ 2 ≤ lead ∧ lead ≤ 4 := by
  simp only [leads, List.mem_cons, List.not_mem_nil, or_false, UInt8.le_iff_toNat_le,
    ← UInt8.toNat_inj, UInt8.reduceToNat]
  omega

theorem ofLead?_eq_some_iff : ofLead? lead = some hint ↔ lead ∈ hint.leads := by
  simp only [ofLead?, UInt8.le_iff_toNat_le, UInt8.reduceToNat]
  cases hint <;> simp only [leads, List.mem_cons, List.not_mem_nil, or_false, ← UInt8.toNat_inj,
    UInt8.reduceToNat] <;> grind

theorem shift_bounds (hint : Scheme) :
    (∀ lead ∈ single.leads,
      lead.toNat + hint.shift.toNat < 256 ∧ lead + hint.shift ∈ hint.leads) ∧
    ∀ lead ∈ hint.leads, hint.shift.toNat ≤ lead.toNat ∧ lead - hint.shift ∈ single.leads := by
  cases hint <;> decide +kernel

theorem not_mem_leads_single (other : hint ≠ single) (tagged : lead ∈ hint.leads) :
    lead ∉ single.leads := by
  rw [← ofLead?_eq_some_iff] at *
  rw [tagged]
  exact fun same => other (Option.some.inj same)

end Scheme

namespace Suite

variable {S : Suite} {P Q : S.Point} {hint hint' : Scheme} {lead : UInt8} {b rest : Bytes}
  {e : Error}

theorem encodeTagged_of_cons (encoded : S.encode P = .ok (lead :: rest)) (hint : Scheme) :
    S.encodeTagged P hint =
      if lead ∈ Scheme.single.leads then .ok ((lead + hint.shift) :: rest)
      else .error (.malformed (.leadByte lead)) := by
  rw [encodeTagged, encoded]
  simp only [Scheme.mem_leads_single_iff]
  rfl

theorem encodeTagged_eq_ok_iff : S.encodeTagged P hint = .ok b ↔ ∃ lead rest,
    S.encode P = .ok (lead :: rest) ∧ lead ∈ Scheme.single.leads ∧
      b = (lead + hint.shift) :: rest := by
  constructor
  · intro h
    obtain ⟨a, encoded, h'⟩ := bind_eq_ok_iff.1 h
    cases a with
    | nil => cases h'
    | cons lead rest =>
      rw [encodeTagged_of_cons encoded, else_error_eq_ok_iff] at h
      exact ⟨lead, rest, encoded, h.1, (Except.ok.inj h.2).symm⟩
  · rintro ⟨lead, rest, encoded, low, rfl⟩
    rw [encodeTagged_of_cons encoded, if_pos low]

theorem encodeTagged_eq_error_iff : S.encodeTagged P hint = .error e ↔
    S.encode P = .error e ∨ S.encode P = .ok [] ∧ e = .unencodable ∨ ∃ lead rest,
      S.encode P = .ok (lead :: rest) ∧ lead ∉ Scheme.single.leads ∧
        e = .malformed (.leadByte lead) := by
  cases encoded : S.encode P with
  | error e' =>
    have refused : S.encodeTagged P hint = .error e' := by
      rw [encodeTagged, encoded]
      rfl
    simp [refused]
  | ok a =>
    cases a with
    | nil =>
      have refused : S.encodeTagged P hint = .error .unencodable := by
        rw [encodeTagged, encoded]
        rfl
      simp [refused, eq_comm]
    | cons lead rest =>
      rw [encodeTagged_of_cons encoded]
      by_cases low : lead ∈ Scheme.single.leads <;> simp [low, eq_comm]

theorem decodeTagged_of_mem_leads (tagged : lead ∈ hint.leads) : S.decodeTagged (lead :: rest) =
    (S.decode ((lead - hint.shift) :: rest)).map ((hint, ·)) := by
  rw [decodeTagged, Scheme.ofLead?_eq_some_iff.2 tagged]
  dsimp only
  cases S.decode ((lead - hint.shift) :: rest) <;> rfl

theorem decodeTagged_shift (low : lead ∈ Scheme.single.leads) (hint : Scheme) :
    S.decodeTagged ((lead + hint.shift) :: rest) = (S.decode (lead :: rest)).map ((hint, ·)) := by
  rw [decodeTagged_of_mem_leads (hint.shift_bounds.1 lead low).2, UInt8.add_sub_cancel]

theorem decodeTagged_eq_ok_iff : S.decodeTagged b = .ok (hint, P) ↔ ∃ lead rest,
    b = lead :: rest ∧ lead ∈ hint.leads ∧ S.decode ((lead - hint.shift) :: rest) = .ok P := by
  constructor
  · intro h
    cases b with
    | nil => cases h
    | cons lead rest =>
      cases found : Scheme.ofLead? lead with
      | none =>
        rw [decodeTagged, found] at h
        cases h
      | some hint' =>
        have tagged := Scheme.ofLead?_eq_some_iff.1 found
        rw [decodeTagged_of_mem_leads tagged, map_eq_ok_iff] at h
        obtain ⟨P', read, h⟩ := h
        cases h
        exact ⟨lead, rest, rfl, tagged, read⟩
  · rintro ⟨lead, rest, rfl, tagged, read⟩
    rw [decodeTagged_of_mem_leads tagged, read]
    rfl

/-- Every point but the identity is written with a lead byte that can be moved, and read back. -/
def Taggable (S : Suite) : Prop :=
  ∀ P : S.Point, P ≠ 0 → ∃ lead rest, S.encode P = .ok (lead :: rest) ∧
    lead ∈ Scheme.single.leads ∧ S.decode (lead :: rest) = .ok P

theorem taggable_ofCurve {C : Curve} [C.Lawful] (hash : Hash) (context : Bytes) (size : Nat) :
    (ofCurve C hash context size Curve.Sec1.encode Curve.Sec1.decode).Taggable := by
  intro P hP
  obtain ⟨b, encoded⟩ := Curve.Sec1.exists_encode hP
  have decoded := Curve.Sec1.decode_eq_ok_iff_encode.2 (.inl encoded)
  obtain ⟨x, y, _, rfl⟩ := Curve.Sec1.eq_of_encode encoded
  refine ⟨_, _, mapError_eq_ok_iff.2 encoded, ?_, mapError_eq_ok_iff.2 decoded⟩
  cases Curve.Sec1.isOdd y <;> decide

namespace Taggable

variable (taggable : S.Taggable)

include taggable

theorem decodeTagged_encodeTagged (hP : P ≠ 0) (hint : Scheme) :
    ∃ b, S.encodeTagged P hint = .ok b ∧ S.decodeTagged b = .ok (hint, P) := by
  obtain ⟨lead, rest, encoded, low, decoded⟩ := taggable P hP
  refine ⟨_, encodeTagged_eq_ok_iff.2 ⟨lead, rest, encoded, low, rfl⟩, ?_⟩
  rw [decodeTagged_shift low, decoded]
  rfl

theorem encodeTagged_injective (hP : P ≠ 0) (hQ : Q ≠ 0) (h : S.encodeTagged P hint = .ok b)
    (h' : S.encodeTagged Q hint' = .ok b) : hint = hint' ∧ P = Q := by
  obtain ⟨_, encoded, read⟩ := taggable.decodeTagged_encodeTagged hP hint
  obtain ⟨_, encoded', read'⟩ := taggable.decodeTagged_encodeTagged hQ hint'
  cases h.symm.trans encoded
  cases h'.symm.trans encoded'
  cases read.symm.trans read'
  exact ⟨rfl, rfl⟩

end Taggable

section Sec1

variable {C : Curve} (hash : Hash) (context : Bytes) (size : Nat)
  (encode : C.Point → Except Malformed Bytes)

theorem decode_of_mem_leads (other : hint ≠ .single) (tagged : lead ∈ hint.leads) (rest : Bytes) :
    (ofCurve C hash context size encode Curve.Sec1.decode).decode (lead :: rest) =
      .error (.malformed (.leadByte lead)) := by
  have unknown := Scheme.not_mem_leads_single other tagged
  simp only [Scheme.leads, List.mem_cons, List.not_mem_nil, or_false, not_or] at unknown
  obtain ⟨even, odd, full⟩ := unknown
  change Except.mapError _ (Curve.Sec1.decode _) = _
  rw [Curve.Sec1.decode, Curve.Sec1.decodeAffine_of_lead_ne even odd full]
  rfl

theorem decode_of_encodeTagged (other : hint ≠ .single) {P : C.Point}
    (h : (ofCurve C hash context size encode Curve.Sec1.decode).encodeTagged P hint = .ok b) :
    ∃ lead ∈ hint.leads, ∃ rest, b = lead :: rest ∧
      (ofCurve C hash context size encode Curve.Sec1.decode).decode b =
        .error (.malformed (.leadByte lead)) := by
  obtain ⟨lead, rest, _, low, rfl⟩ := encodeTagged_eq_ok_iff.1 h
  have tagged := (hint.shift_bounds.1 lead low).2
  exact ⟨_, tagged, rest, rfl, decode_of_mem_leads hash context size encode other tagged rest⟩

end Sec1

/-- Tagged keys are read back with their schemes, and no two are written alike.  Writing moves the
lead byte and reading moves it back, within a byte, and where the decoder is that of SEC 1 it takes
no key that is tagged for several parties. -/
theorem decodeTagged_exact (S : Suite) :
    (S.Taggable →
      (∀ hint (P : S.Point), P ≠ 0 →
        ∃ b, S.encodeTagged P hint = .ok b ∧ S.decodeTagged b = .ok (hint, P)) ∧
      ∀ hint hint' (P Q : S.Point) b, P ≠ 0 → Q ≠ 0 →
        S.encodeTagged P hint = .ok b → S.encodeTagged Q hint' = .ok b → hint = hint' ∧ P = Q) ∧
    (∀ hint (P : S.Point) b, S.decodeTagged b = .ok (hint, P) ↔ ∃ lead rest,
      b = lead :: rest ∧ lead ∈ hint.leads ∧ S.decode ((lead - hint.shift) :: rest) = .ok P) ∧
    (∀ hint : Scheme,
      (∀ lead ∈ Scheme.single.leads,
        lead.toNat + hint.shift.toNat < 256 ∧ lead + hint.shift ∈ hint.leads) ∧
      ∀ lead ∈ hint.leads,
        hint.shift.toNat ≤ lead.toNat ∧ lead - hint.shift ∈ Scheme.single.leads) ∧
    (∀ (C : Curve) hash context size encode hint, hint ≠ .single →
      let T := ofCurve C hash context size encode Curve.Sec1.decode
      (∀ (P : C.Point) b, T.encodeTagged P hint = .ok b → ∃ lead ∈ hint.leads, ∃ rest,
        b = lead :: rest ∧ T.decode b = .error (.malformed (.leadByte lead))) ∧
      ∀ lead ∈ hint.leads, ∀ rest,
        T.decode (lead :: rest) = .error (.malformed (.leadByte lead))) ∧
    ∀ hint (P : S.Point),
      (∀ b, S.encodeTagged P hint = .ok b ↔ ∃ lead rest, S.encode P = .ok (lead :: rest) ∧
        lead ∈ Scheme.single.leads ∧ b = (lead + hint.shift) :: rest) ∧
      ∀ e, S.encodeTagged P hint = .error e ↔
        S.encode P = .error e ∨ S.encode P = .ok [] ∧ e = .unencodable ∨ ∃ lead rest,
          S.encode P = .ok (lead :: rest) ∧ lead ∉ Scheme.single.leads ∧
            e = .malformed (.leadByte lead) := by
  refine ⟨fun taggable => ⟨?read, ?apart⟩, fun _ _ _ => decodeTagged_eq_ok_iff,
    Scheme.shift_bounds, ?sec1,
    fun _ _ => ⟨fun _ => encodeTagged_eq_ok_iff, fun _ => encodeTagged_eq_error_iff⟩⟩
  case read =>
    intro hint P hP
    exact taggable.decodeTagged_encodeTagged hP hint
  case apart =>
    intro hint hint' P Q b hP hQ h h'
    exact taggable.encodeTagged_injective hP hQ h h'
  case sec1 =>
    intro C hash context size encode hint other T
    constructor
    · intro P b h
      exact decode_of_encodeTagged hash context size encode other h
    · intro lead tagged rest
      exact decode_of_mem_leads hash context size encode other tagged rest

theorem decodeTagged_exact_of_generator :
    let P := secp256k1Sha256.generator
    secp256k1Sha256.Taggable ∧ P ≠ 0 ∧ ∃ b lead,
      secp256k1Sha256.encodeTagged P .threshold = .ok b ∧
        secp256k1Sha256.decodeTagged b = .ok (.threshold, P) ∧
        secp256k1Sha256.decode b = .error (.malformed (.leadByte lead)) := by
  intro P
  have taggable : secp256k1Sha256.Taggable := taggable_ofCurve _ _ _
  have nonzero : P ≠ 0 := by decide +kernel
  obtain ⟨keys, _, _, sec1, _⟩ := decodeTagged_exact secp256k1Sha256
  obtain ⟨b, written, read⟩ := (keys taggable).1 .threshold P nonzero
  obtain ⟨lead, _, _, _, refused⟩ := (sec1 _ _ _ _ _ .threshold (by decide)).1 P b written
  exact ⟨taggable, nonzero, b, lead, written, read, refused⟩

end Suite

end JointSchnorr
