import JointSchnorr.Cosigning.JointKey
import JointSchnorr.Proofs.Curve.Named
import JointSchnorr.Proofs.Curve.Sec1
import JointSchnorr.Proofs.Group.Residues
import JointSchnorr.Proofs.Oracle
import JointSchnorr.Proofs.Outcome
import JointSchnorr.SigningKey
import JointSchnorr.Suites

/-!
Transcripts have no separators: what keeps their parts apart is that all points take the same number
of bytes.
-/

namespace JointSchnorr

namespace Suite

variable {S : Suite} {size : Nat}

structure FixedEncoding (S : Suite) (size : Nat) : Prop where
  size_pos : 0 < size
  length_eq : ∀ {P : S.Point} {b : Bytes}, S.encode P = .ok b → b.length = size
  injective : ∀ {P Q : S.Point} {b : Bytes}, S.encode P = .ok b → S.encode Q = .ok b → P = Q

/-- What the protocols take from the hash function answers a question each, by the digest of that
question's first input. -/
structure Asks (S : Suite) : Prop where
  scalar : ∀ q : Query S, q.scalar = q.firstInput.map fun b =>
    Residue.ofNat (S.hash.stretch S.wideSize (S.tag q.oracle) (S.hash.digest b)).value
  challenge : ∀ scheme R P m, S.challenge scheme R P m = (Query.challenge scheme R P m).scalar
  coefficient : ∀ signers X, S.coefficient signers X = (Query.coefficient signers X).scalar
  derive : ∀ (k : SigningKey S) m, Nonce.derive k m = do
    let secret ← (Query.nonce k.secret m).scalar
    return ⟨← SigningKey.ofSecret secret⟩
  commit : ∀ P blind, S.commit P blind = (Query.commitment P blind).firstInput.map fun b =>
    (S.hash.digest b).fit S.commitmentSize

/-- The first input of the hash function tells the question. -/
def Separates (S : Suite) : Prop :=
  ∀ (q q' : Query S) (b : Bytes), q.firstInput = .ok b → q'.firstInput = .ok b → q = q'

theorem encodeAll_cons_eq_ok_iff {P : S.Point} {points : List S.Point} {b : Bytes} :
    S.encodeAll (P :: points) = .ok b ↔
      ∃ c d, S.encode P = .ok c ∧ S.encodeAll points = .ok d ∧ c ++ d = b := by
  simp only [encodeAll, bind_eq_ok_iff, exists_and_left]
  refine exists_congr fun c => and_congr_right fun _ => exists_congr fun d => ?_
  exact and_congr_right fun _ => ⟨Except.ok.inj, congrArg _⟩

theorem encodeAll_concat (points : List S.Point) (P : S.Point) :
    S.encodeAll (points ++ [P]) = (do return (← S.encodeAll points) ++ (← S.encode P)) := by
  induction points with
  | nil =>
    rw [List.nil_append, encodeAll, encodeAll]
    cases S.encode P with
    | error e => rfl
    | ok b => exact congrArg Except.ok (List.append_nil b)
  | cons Q points ih =>
    rw [List.cons_append, encodeAll, encodeAll, ih]
    cases S.encode Q with
    | error e => rfl
    | ok c =>
      cases S.encodeAll points with
      | error e => rfl
      | ok d =>
        cases S.encode P with
        | error e => rfl
        | ok b => exact congrArg Except.ok (List.append_assoc c d b).symm

namespace FixedEncoding

variable (F : S.FixedEncoding size)
include F

theorem append_inj {P Q : S.Point} {b c rest rest' : Bytes} (hP : S.encode P = .ok b)
    (hQ : S.encode Q = .ok c) (same : b ++ rest = c ++ rest') : P = Q ∧ rest = rest' := by
  obtain ⟨rfl, rests⟩ := List.append_inj same ((F.length_eq hP).trans (F.length_eq hQ).symm)
  exact ⟨F.injective hP hQ, rests⟩

theorem ne_nil_of_encodeAll {P : S.Point} {points : List S.Point} {b : Bytes}
    (h : S.encodeAll (P :: points) = .ok b) : b ≠ [] := by
  obtain ⟨c, d, hc, _, rfl⟩ := encodeAll_cons_eq_ok_iff.1 h
  intro empty
  have pos := F.size_pos
  rw [← F.length_eq hc, (List.append_eq_nil_iff.1 empty).1] at pos
  exact Nat.lt_irrefl 0 pos

theorem encodeAll_injective {points others : List S.Point} {b : Bytes}
    (h : S.encodeAll points = .ok b) (h' : S.encodeAll others = .ok b) : points = others := by
  induction points generalizing others b with
  | nil =>
    cases h
    cases others with
    | nil => rfl
    | cons Q others => exact absurd rfl (F.ne_nil_of_encodeAll h')
  | cons P points ih =>
    cases others with
    | nil =>
      cases h'
      exact absurd rfl (F.ne_nil_of_encodeAll h)
    | cons Q others =>
      obtain ⟨c, d, hP, hd, rfl⟩ := encodeAll_cons_eq_ok_iff.1 h
      obtain ⟨c', d', hQ, hd', same⟩ := encodeAll_cons_eq_ok_iff.1 h'
      obtain ⟨rfl, rfl⟩ := F.append_inj hP hQ same.symm
      rw [ih hd hd']

end FixedEncoding

end Suite

namespace Query

variable {S : Suite} {size : Nat}

theorem transcript_coefficient (signers : List S.Point) (X : S.Point) :
    (coefficient signers X).transcript = S.encodeAll (signers ++ [X]) :=
  (S.encodeAll_concat signers X).symm

theorem transcript_injective (F : S.FixedEncoding size) {q q' : Query S} {t : Bytes}
    (oracle : q.oracle = q'.oracle) (h : q.transcript = .ok t) (h' : q'.transcript = .ok t) :
    q = q' := by
  cases q with
  | challenge scheme R P m =>
    cases q' with
    | challenge scheme' R' P' m' =>
      cases oracle
      obtain ⟨r, hR, h⟩ := bind_eq_ok_iff.1 h
      obtain ⟨p, hP, h⟩ := bind_eq_ok_iff.1 h
      obtain ⟨r', hR', h'⟩ := bind_eq_ok_iff.1 h'
      obtain ⟨p', hP', h'⟩ := bind_eq_ok_iff.1 h'
      -- two points of known length come before the message
      have same : r ++ p ++ m = r' ++ p' ++ m' := Except.ok.inj (h.trans h'.symm)
      rw [List.append_assoc, List.append_assoc] at same
      obtain ⟨rfl, same⟩ := F.append_inj hR hR' same
      obtain ⟨rfl, rfl⟩ := F.append_inj hP hP' same
      rfl
    | coefficient | nonce | commitment => cases oracle
  | coefficient signers X =>
    cases q' with
    | coefficient signers' X' =>
      rw [transcript_coefficient] at h h'
      obtain ⟨rfl, last⟩ := List.append_inj' (F.encodeAll_injective h h') rfl
      rw [List.singleton_inj.1 last]
    | challenge | nonce | commitment => cases oracle
  | nonce x m =>
    cases q' with
    | nonce x' m' =>
      have same : Residue.encode x ++ m = Residue.encode x' ++ m' := Except.ok.inj (h.trans h'.symm)
      obtain ⟨scalars, rfl⟩ := List.append_inj same (by simp)
      rw [Residue.encode_injective scalars]
    | challenge | coefficient | commitment => cases oracle
  | commitment P blind =>
    cases q' with
    | commitment P' blind' =>
      obtain ⟨p, hP, h⟩ := bind_eq_ok_iff.1 h
      obtain ⟨p', hP', h'⟩ := bind_eq_ok_iff.1 h'
      have same : p ++ blind = p' ++ blind' := Except.ok.inj (h.trans h'.symm)
      obtain ⟨rfl, rfl⟩ := F.append_inj hP hP' same
      rfl
    | challenge | coefficient | nonce => cases oracle

theorem firstInput_injective (F : S.FixedEncoding size) (short : S.context.length ≤ 236)
    (start : S.context.head? ≠ some 0) {q q' : Query S} {b : Bytes} (h : q.firstInput = .ok b)
    (h' : q'.firstInput = .ok b) : q = q' := by
  obtain ⟨t, ht, rfl⟩ := map_eq_ok_iff.1 h
  obtain ⟨t', ht', same⟩ := map_eq_ok_iff.1 h'
  obtain ⟨oracle, rfl⟩ := Suite.firstInput_inj short start same
  exact transcript_injective F oracle.symm ht ht'

end Query

namespace Suite

theorem asks (S : Suite) : S.Asks where
  scalar q := by
    rw [Query.scalar, Query.firstInput]
    cases q.transcript <;> rfl
  challenge _ _ _ _ := rfl
  coefficient _ _ := rfl
  derive _ _ := rfl
  commit P blind := by
    rw [commit, Query.firstInput]
    cases (Query.commitment P blind).transcript <;> rfl

open Curve

theorem fixedEncoding_ofCurve {C : Curve} [Fact C.p.value.Prime] (odd : C.p.value % 2 = 1)
    (hash : Hash) (context : Bytes) (commitmentSize : Nat)
    (decode : Bytes → Except Malformed C.Point) :
    (ofCurve C hash context commitmentSize Sec1.encode decode).FixedEncoding (C.width + 1) where
  size_pos := Nat.succ_pos C.width
  length_eq h := Sec1.length_of_encode (mapError_eq_ok_iff.1 h)
  injective hP hQ :=
    Sec1.encode_injective odd (mapError_eq_ok_iff.1 hP) (mapError_eq_ok_iff.1 hQ)

theorem fixedEncoding_secp256k1Sha256 : secp256k1Sha256.FixedEncoding 33 :=
  haveI : Fact secp256k1.p.value.Prime := ⟨prime_secp256k1⟩
  fixedEncoding_ofCurve rfl ..

theorem fixedEncoding_residues (m : Modulus) : (Suite.residues m).FixedEncoding m.bytes where
  size_pos := by
    rw [Modulus.bytes, Modulus.bits]
    omega
  length_eq h :=
    (congrArg List.length (eq_of_encode_residues h)).symm.trans (Residue.length_encode _)
  injective hP hQ :=
    Residue.encode_injective ((eq_of_encode_residues hP).trans (eq_of_encode_residues hQ).symm)

theorem separates_of_fixedEncoding :
    (∀ (S : Suite) (size : Nat), S.FixedEncoding size → S.context.length ≤ 236 →
      S.context.head? ≠ some 0 → S.Separates) ∧
    (∀ P : secp256k1Sha256.Point, P ≠ 0 → ∃ b, secp256k1Sha256.encode P = .ok b) ∧
    secp256k1Sha256.FixedEncoding 33 ∧ secp256k1Sha256.Separates ∧
    (∀ S : Suite, S.Asks) ∧
    ∀ S : Suite, S.context.length ≤ 236 → ∀ m : Bytes,
      S.firstInput .commitment m = S.context ++ Bytes.ascii "commitment" ++ m ∧
      ∀ o ≠ Oracle.commitment,
        S.firstInput o m = List.replicate S.wideSize 0 ++ m ++ Bytes.ofNat 2 S.wideSize ++
          0 :: (S.context ++ Bytes.ascii o.label ++ [(S.tag o).length.toUInt8]) := by
  have separates {S : Suite} {size : Nat} (F : S.FixedEncoding size)
      (short : S.context.length ≤ 236) (start : S.context.head? ≠ some 0) : S.Separates :=
    fun _ _ _ h h' => Query.firstInput_injective F short start h h'
  refine ⟨fun _ _ => separates, ?encodable, fixedEncoding_secp256k1Sha256,
    separates fixedEncoding_secp256k1Sha256 (by decide) (by decide), asks,
    fun S short m => ⟨rfl, fun o h => firstInput_of_length_le short h m⟩⟩
  case encodable =>
    intro P hP
    obtain ⟨b, hb⟩ := Sec1.exists_encode hP
    exact ⟨b, mapError_eq_ok_iff.2 hb⟩

/-- Two signers and a third key are written like a nonce, a key and a message. -/
theorem separates_of_fixedEncoding_of_seven :
    let S := Suite.seven
    let G := S.power
    S.FixedEncoding 1 ∧ S.context.length ≤ 236 ∧ S.context.head? ≠ some 0 ∧
      (Query.coefficient [G 1, G 2] (G 3)).transcript = .ok [1, 2, 3] ∧
      (Query.challenge .single (G 1) (G 2) [3]).transcript = .ok [1, 2, 3] ∧
      (Query.coefficient [G 1, G 2] (G 3)).firstInput ≠
        (Query.challenge .single (G 1) (G 2) [3]).firstInput ∧
      S.firstInput .coefficient [1, 2, 3] = List.replicate 17 0 ++ [1, 2, 3] ++ [0, 17] ++
        0 :: (S.context ++ Bytes.ascii "coefficient" ++ [(S.tag .coefficient).length.toUInt8]) := by
  intro S G
  have F : S.FixedEncoding 1 := fixedEncoding_residues Suite.seven.order
  have short : S.context.length ≤ 236 := by decide
  have start : S.context.head? ≠ some 0 := by decide
  obtain ⟨separates, _, _, _, _, layout⟩ := separates_of_fixedEncoding
  have wide : S.wideSize = 17 := by decide
  have written := (layout S short [1, 2, 3]).2 .coefficient (by decide)
  rw [wide] at written
  refine ⟨F, short, start, rfl, rfl, fun same => ?_, written⟩
  have h : (Query.challenge .single (G 1) (G 2) [3]).firstInput =
    .ok (S.firstInput (.challenge .single) [1, 2, 3]) := rfl
  cases separates S 1 F short start _ _ _ (same.trans h) h

end Suite

end JointSchnorr
