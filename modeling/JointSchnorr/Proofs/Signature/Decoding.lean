import JointSchnorr.Proofs.Curve.Decoding
import JointSchnorr.Proofs.Curve.Named
import JointSchnorr.Proofs.Scalar
import JointSchnorr.Proofs.Signature
import JointSchnorr.Suites

namespace JointSchnorr

variable {S : Suite}

/-- The decoder undoes the encoder, except perhaps on the identity. -/
def Suite.Inverts (S : Suite) : Prop :=
  ∀ (P : S.Point) (b : Bytes), P ≠ 0 → S.encode P = .ok b → S.decode b = .ok P

namespace Signature

variable {g : Signature S} {b r t : Bytes} {e : Error}

theorem encode_eq (h : S.encode g.nonce = .ok r) :
    g.encode = .ok (r ++ Residue.encode g.response) := by
  rw [encode, h]
  rfl

theorem decode_of_length_le (h : b.length ≤ S.scalarSize) :
    (decode b : Except Error (Signature S)) =
      .error (.malformed (.length (S.scalarSize + 1) b.length)) := if_pos h

theorem decode_of_cut (point : r ≠ []) (scalar : t.length = S.scalarSize) :
    (decode (r ++ t) : Except Error (Signature S)) =
      (do return ⟨← S.decode r, ← S.decodeScalar t⟩) := by
  have pos := List.length_pos_iff.2 point
  have cut : (r ++ t).length - S.scalarSize = r.length := by
    rw [List.length_append, scalar, Nat.add_sub_cancel]
  rw [decode, if_neg (by rw [List.length_append]; omega)]
  simp only [cut, List.take_left, List.drop_left]

theorem exists_cut (long : S.scalarSize < b.length) :
    ∃ r t, b = r ++ t ∧ r ≠ [] ∧ t.length = S.scalarSize := by
  refine ⟨b.take (b.length - S.scalarSize), b.drop (b.length - S.scalarSize), ?_, ?_, ?_⟩
  · rw [List.take_append_drop]
  · rw [← List.length_pos_iff, List.length_take]
    omega
  · rw [List.length_drop]
    omega

theorem decode_cut_eq_ok_iff (point : r ≠ []) (scalar : t.length = S.scalarSize) :
    decode (r ++ t) = .ok g ↔ t.value = g.response.val ∧ S.decode r = .ok g.nonce := by
  simp only [decode_of_cut point scalar, bind_eq_ok_iff, Suite.decodeScalar_eq_ok_iff]
  constructor
  · rintro ⟨R, nonce, s, ⟨_, response⟩, h⟩
    cases h
    exact ⟨response, nonce⟩
  · rintro ⟨response, nonce⟩
    exact ⟨_, nonce, _, ⟨scalar, response⟩, rfl⟩

theorem decode_eq_ok_iff : decode b = .ok g ↔ ∃ r t, b = r ++ t ∧ r ≠ [] ∧
    t.length = S.scalarSize ∧ t.value = g.response.val ∧ S.decode r = .ok g.nonce := by
  constructor
  · intro h
    by_cases long : S.scalarSize < b.length
    · obtain ⟨r, t, rfl, point, scalar⟩ := exists_cut long
      exact ⟨r, t, rfl, point, scalar, (decode_cut_eq_ok_iff point scalar).1 h⟩
    · rw [decode_of_length_le (not_lt.1 long)] at h
      cases h
  · rintro ⟨r, t, rfl, point, scalar, h⟩
    exact (decode_cut_eq_ok_iff point scalar).2 h

theorem decode_cut_eq_error_iff (point : r ≠ []) (scalar : t.length = S.scalarSize) :
    (decode (r ++ t) : Except Error (Signature S)) = .error e ↔ S.decode r = .error e ∨
      (∃ R, S.decode r = .ok R) ∧ S.order.value ≤ t.value ∧ e = .malformed .unreduced := by
  simp only [decode_of_cut point scalar, bind_eq_error_iff, Suite.decodeScalar_eq_error_iff]
  refine or_congr_right ?_
  constructor
  · rintro ⟨R, nonce, (⟨length, _⟩ | ⟨_, fault⟩) | ⟨_, _, h⟩⟩
    · exact absurd scalar length
    · exact ⟨⟨R, nonce⟩, fault⟩
    · cases h
  · rintro ⟨⟨R, nonce⟩, fault⟩
    exact ⟨R, nonce, .inl (.inr ⟨scalar, fault⟩)⟩

theorem decode_eq_error_iff : (decode b : Except Error (Signature S)) = .error e ↔
    b.length ≤ S.scalarSize ∧ e = .malformed (.length (S.scalarSize + 1) b.length) ∨
      ∃ r t, b = r ++ t ∧ r ≠ [] ∧ t.length = S.scalarSize ∧
        (S.decode r = .error e ∨
          (∃ R, S.decode r = .ok R) ∧ S.order.value ≤ t.value ∧ e = .malformed .unreduced) := by
  constructor
  · intro h
    by_cases long : S.scalarSize < b.length
    · obtain ⟨r, t, rfl, point, scalar⟩ := exists_cut long
      exact .inr ⟨r, t, rfl, point, scalar, (decode_cut_eq_error_iff point scalar).1 h⟩
    · rw [decode_of_length_le (not_lt.1 long)] at h
      cases h
      exact .inl ⟨not_lt.1 long, rfl⟩
  · rintro (⟨short, rfl⟩ | ⟨r, t, rfl, point, scalar, h⟩)
    · exact decode_of_length_le short
    · exact (decode_cut_eq_error_iff point scalar).2 h

theorem decode_append_encode (point : r ≠ []) (nonce : S.decode r = .ok g.nonce) :
    decode (r ++ Residue.encode g.response) = .ok g :=
  (decode_cut_eq_ok_iff point (Residue.length_encode _)).2 ⟨Residue.value_encode _, nonce⟩

theorem decode_eq_ok_iff_append : decode b = .ok g ↔
    ∃ r, b = r ++ Residue.encode g.response ∧ r ≠ [] ∧ S.decode r = .ok g.nonce := by
  constructor
  · intro h
    obtain ⟨r, t, rfl, point, scalar, value, nonce⟩ := decode_eq_ok_iff.1 h
    rw [Residue.encode_of_decode (Residue.decode_eq_ok_iff.2 ⟨scalar, value⟩)]
    exact ⟨r, rfl, point, nonce⟩
  · rintro ⟨r, rfl, point, nonce⟩
    exact decode_append_encode point nonce

theorem encode_eq_ok_append_iff :
    g.encode = .ok (r ++ Residue.encode g.response) ↔ S.encode g.nonce = .ok r := by
  constructor
  · intro h
    obtain ⟨r', nonce, h⟩ := bind_eq_ok_iff.1 h
    rw [List.append_cancel_right (Except.ok.inj h)] at nonce
    exact nonce
  · exact encode_eq

theorem existsUnique_decode {size : Nat} (pos : 0 < size)
    (h : ∃! r, r.length = size ∧ S.decode r = .ok g.nonce) :
    ∃! b, b.length = size + S.scalarSize ∧ decode b = .ok g := by
  obtain ⟨r, ⟨length, nonce⟩, only⟩ := h
  have response : (Residue.encode g.response).length = S.scalarSize := Residue.length_encode _
  refine ⟨r ++ Residue.encode g.response, ⟨?_, ?_⟩, ?_⟩
  · rw [List.length_append, length, response]
  · exact decode_append_encode (List.length_pos_iff.1 (length.symm ▸ pos)) nonce
  · rintro b ⟨length', read⟩
    obtain ⟨r', rfl, _, nonce'⟩ := decode_eq_ok_iff_append.1 read
    rw [List.length_append, response] at length'
    rw [only r' ⟨Nat.add_right_cancel length', nonce'⟩]

end Signature

namespace Suite

open Curve

variable {r : Bytes} {P : secp256k1Sha256.Point}

theorem decode_secp256k1_eq_ok_iff :
    secp256k1Sha256.decode r = .ok P ↔ Sec1.decode r = .ok P := mapError_eq_ok_iff

theorem encode_secp256k1_eq_ok_iff :
    secp256k1Sha256.encode P = .ok r ↔ Sec1.encode P = .ok r := mapError_eq_ok_iff

theorem width_secp256k1 : secp256k1.width = 32 := by decide +kernel

theorem scalarSize_secp256k1 : secp256k1Sha256.scalarSize = 32 := by decide +kernel

theorem lengths_of_decode_secp256k1 (h : secp256k1Sha256.decode r = .ok P) :
    (r.length = 33 ∨ r.length = 65) ∧ (secp256k1Sha256.encode P = .ok r ↔ r.length = 33) := by
  rw [decode_secp256k1_eq_ok_iff] at h
  have lengths := Sec1.length_of_decode h
  have written := Sec1.encode_eq_ok_iff_decode.trans (and_iff_left h)
  rw [width_secp256k1] at lengths written
  exact ⟨lengths, encode_secp256k1_eq_ok_iff.trans written⟩

theorem existsUnique_decode_secp256k1 (h : P ≠ 0) :
    (∃! r, r.length = 33 ∧ secp256k1Sha256.decode r = .ok P) ∧
      ∃! r, r.length = 65 ∧ secp256k1Sha256.decode r = .ok P := by
  obtain ⟨compressed, full⟩ := Sec1.existsUnique_decode_of_ne_zero h
  rw [width_secp256k1] at compressed full
  have same (size : Nat) (r : Bytes) : r.length = size ∧ secp256k1Sha256.decode r = .ok P ↔
      r.length = size ∧ Sec1.decode r = .ok P := and_congr_right' decode_secp256k1_eq_ok_iff
  exact ⟨(existsUnique_congr (same 33)).2 compressed, (existsUnique_congr (same 65)).2 full⟩

end Suite

namespace Signature

/-- Which strings are read as signatures, as which, and what is wrong with the others.  Two lengths
are read on secp256k1, where a signature has one string of each and is written as the shorter. -/
theorem decode_unambiguous :
    (∀ (S : Suite) (g : Signature S), S.Inverts → g.nonce ≠ 0 →
      (∃ r, S.encode g.nonce = .ok r ∧ r ≠ []) → ∃ b, g.encode = .ok b ∧ decode b = .ok g) ∧
    (∀ (S : Suite) (g : Signature S) b, decode b = .ok g ↔ ∃ r t, b = r ++ t ∧ r ≠ [] ∧
      t.length = S.scalarSize ∧ t.value = g.response.val ∧ S.decode r = .ok g.nonce) ∧
    (∀ (S : Suite) b e, (decode b : Except Error (Signature S)) = .error e ↔
      b.length ≤ S.scalarSize ∧ e = .malformed (.length (S.scalarSize + 1) b.length) ∨
        ∃ r t, b = r ++ t ∧ r ≠ [] ∧ t.length = S.scalarSize ∧
          (S.decode r = .error e ∨
            (∃ R, S.decode r = .ok R) ∧ S.order.value ≤ t.value ∧ e = .malformed .unreduced)) ∧
    (∀ (g : Signature Suite.secp256k1Sha256) b, decode b = .ok g →
      (b.length = 65 ∨ b.length = 97) ∧ (g.encode = .ok b ↔ b.length = 65)) ∧
    ∀ g : Signature Suite.secp256k1Sha256, g.nonce ≠ 0 →
      (∃! b, b.length = 65 ∧ decode b = .ok g) ∧ ∃! b, b.length = 97 ∧ decode b = .ok g := by
  refine ⟨?written, fun _ _ _ => decode_eq_ok_iff, fun _ _ _ => decode_eq_error_iff, ?lengths,
    ?forms⟩
  case written =>
    rintro S g inverts nonzero ⟨r, encoded, point⟩
    exact ⟨_, encode_eq encoded, decode_append_encode point (inverts _ r nonzero encoded)⟩
  case lengths =>
    intro g b h
    obtain ⟨r, rfl, _, nonce⟩ := decode_eq_ok_iff_append.1 h
    obtain ⟨lengths, written⟩ := Suite.lengths_of_decode_secp256k1 nonce
    have response : (Residue.encode g.response).length = 32 :=
      (Residue.length_encode _).trans Suite.scalarSize_secp256k1
    rw [encode_eq_ok_append_iff, written, List.length_append, response]
    omega
  case forms =>
    intro g nonzero
    obtain ⟨compressed, full⟩ := Suite.existsUnique_decode_secp256k1 nonzero
    have short := existsUnique_decode (by decide) compressed
    have long := existsUnique_decode (by decide) full
    rw [Suite.scalarSize_secp256k1] at short long
    exact ⟨short, long⟩

theorem decode_unambiguous_of_generator :
    let g : Signature Suite.secp256k1Sha256 := ⟨Suite.secp256k1Sha256.generator, 1⟩
    g.nonce ≠ 0 ∧ (∃ b, b.length = 65 ∧ decode b = .ok g ∧ g.encode = .ok b) ∧
      ∃ b, b.length = 97 ∧ decode b = .ok g ∧ g.encode ≠ .ok b := by
  intro g
  have nonzero : g.nonce ≠ 0 := by decide +kernel
  obtain ⟨_, _, _, lengths, forms⟩ := decode_unambiguous
  obtain ⟨⟨b, ⟨short, read⟩, _⟩, ⟨b', ⟨long, read'⟩, _⟩⟩ := forms g nonzero
  refine ⟨nonzero, ⟨b, short, read, (lengths g b read).2.2 short⟩, b', long, read', ?_⟩
  exact (lengths g b' read').2.not.2 (long ▸ by decide)

end Signature

end JointSchnorr
