import Mathlib.Data.Nat.Size
import Mathlib.Data.Set.Function
import JointSchnorr.Proofs.SigningKey
import JointSchnorr.Sharing.Dealing
import JointSchnorr.Suites

namespace JointSchnorr

theorem Modulus.bits_eq_size (m : Modulus) : m.bits = m.value.size := by
  apply le_antisymm
  · exact Nat.lt_size.2 (Nat.log2_self_le m.value_pos.ne')
  · exact Nat.size_le.2 Nat.lt_log2_self

theorem Residue.bijOn_encode (m : Modulus) : Set.BijOn (encode (m := m)) Set.univ
    {b | b.length = m.bytes ∧ Bytes.value b < m.value} := by
  refine ⟨?mapsTo, encode_injective.injOn, ?surjOn⟩
  case mapsTo =>
    intro a _
    exact ⟨length_encode a, (value_encode a).trans_lt a.val_lt⟩
  case surjOn =>
    rintro b ⟨length, reduced⟩
    exact ⟨⟨b.value, reduced⟩, trivial, Bytes.ofNat_value length⟩

variable {S : Suite} {b : Bytes} {e : Error}

namespace Suite

variable {a : S.Scalar}

theorem decodeScalar_eq_ok_iff :
    S.decodeScalar b = .ok a ↔ b.length = S.scalarSize ∧ b.value = a.val :=
  mapError_eq_ok_iff.trans Residue.decode_eq_ok_iff

theorem decodeScalar_eq_ok_iff_encode : S.decodeScalar b = .ok a ↔ Residue.encode a = b := by
  rw [decodeScalar, mapError_eq_ok_iff]
  constructor
  · exact Residue.encode_of_decode
  · rintro rfl
    exact Residue.decode_encode a

theorem exists_decodeScalar_iff :
    (∃ a, S.decodeScalar b = .ok a) ↔ b.length = S.scalarSize ∧ b.value < S.order.value := by
  simp only [decodeScalar_eq_ok_iff, exists_and_left]
  refine and_congr_right fun _ => ?_
  constructor
  · rintro ⟨a, value⟩
    exact value ▸ a.val_lt
  · intro reduced
    exact ⟨⟨b.value, reduced⟩, rfl⟩

theorem decodeScalar_eq_error_iff : S.decodeScalar b = .error e ↔
    b.length ≠ S.scalarSize ∧ e = .malformed (.length S.scalarSize b.length) ∨
      b.length = S.scalarSize ∧ S.order.value ≤ b.value ∧ e = .malformed .unreduced := by
  simp only [decodeScalar, mapError_eq_error_iff, Residue.decode_eq_error_iff]
  constructor
  · rintro ⟨_, ⟨length, rfl⟩ | ⟨length, large, rfl⟩, rfl⟩
    · exact .inl ⟨length, rfl⟩
    · exact .inr ⟨length, large, rfl⟩
  · rintro (⟨length, rfl⟩ | ⟨length, large, rfl⟩)
    · exact ⟨_, .inl ⟨length, rfl⟩, rfl⟩
    · exact ⟨_, .inr ⟨length, large, rfl⟩, rfl⟩

end Suite

namespace SigningKey

theorem exists_decode_iff : (∃ k : SigningKey S, decode b = .ok k) ↔
    b.length = S.scalarSize ∧ 0 < b.value ∧ b.value < S.order.value := by
  constructor
  · rintro ⟨k, read⟩
    obtain ⟨length, value⟩ := Suite.decodeScalar_eq_ok_iff.1 (decode_eq_ok_iff.1 read)
    rw [value]
    exact ⟨length, Residue.val_pos_iff.2 k.secret_ne_zero, k.secret.val_lt⟩
  · rintro ⟨length, pos, reduced⟩
    have nonzero : (⟨b.value, reduced⟩ : S.Scalar) ≠ 0 := Residue.val_pos_iff.1 pos
    refine ⟨⟨_, nonzero, _, rfl⟩, decode_eq_ok_iff.2 ?_⟩
    exact Suite.decodeScalar_eq_ok_iff.2 ⟨length, rfl⟩

theorem decode_eq_error_iff : (decode b : Except Error (SigningKey S)) = .error e ↔
    S.decodeScalar b = .error e ∨
      b.length = S.scalarSize ∧ b.value = 0 ∧ e = .malformed .zeroSecret := by
  rw [decode, bind_eq_error_iff]
  refine or_congr_right ?_
  simp only [ofSecret_eq_error_iff, Suite.decodeScalar_eq_ok_iff]
  constructor
  · rintro ⟨_, ⟨length, value⟩, rfl, fault⟩
    exact ⟨length, value.trans Residue.val_zero, fault⟩
  · rintro ⟨length, value, fault⟩
    exact ⟨0, ⟨length, value.trans Residue.val_zero.symm⟩, rfl, fault⟩

end SigningKey

theorem DealtShare.decode_eq_ok_iff {receiver : Position} {s : DealtShare S} :
    decode receiver b = .ok s ↔ s.receiver = receiver ∧ s.encode = b := by
  simp only [decode, bind_eq_ok_iff, Suite.decodeScalar_eq_ok_iff_encode]
  constructor
  · rintro ⟨a, rfl, h⟩
    cases h
    exact ⟨rfl, rfl⟩
  · rintro ⟨rfl, rfl⟩
    exact ⟨s.value, rfl, rfl⟩

/-- The scalars are in bijection with the strings that stand for them, and reading undoes writing.
Keys are read from the same strings but the one of zero, and shares from all of them. -/
theorem Suite.decodeScalar_exact (S : Suite) :
    S.scalarSize = (S.order.value.size + 7) / 8 ∧
    Set.BijOn (Residue.encode (m := S.order)) Set.univ
      {b | b.length = S.scalarSize ∧ Bytes.value b < S.order.value} ∧
    (∀ a : S.Scalar, (Residue.encode a).value = a.val) ∧
    (∀ b (a : S.Scalar), S.decodeScalar b = .ok a ↔ Residue.encode a = b) ∧
    (∀ b, (∃ a, S.decodeScalar b = .ok a) ↔
      b.length = S.scalarSize ∧ b.value < S.order.value) ∧
    (∀ b e, S.decodeScalar b = .error e ↔
      b.length ≠ S.scalarSize ∧ e = .malformed (.length S.scalarSize b.length) ∨
        b.length = S.scalarSize ∧ S.order.value ≤ b.value ∧ e = .malformed .unreduced) ∧
    (∀ b, (∃ k : SigningKey S, SigningKey.decode b = .ok k) ↔
      b.length = S.scalarSize ∧ 0 < b.value ∧ b.value < S.order.value) ∧
    (∀ b (k : SigningKey S), SigningKey.decode b = .ok k ↔ Residue.encode k.secret = b) ∧
    (∀ b e, (SigningKey.decode b : Except Error (SigningKey S)) = .error e ↔
      S.decodeScalar b = .error e ∨
        b.length = S.scalarSize ∧ b.value = 0 ∧ e = .malformed .zeroSecret) ∧
    ∀ receiver b (s : DealtShare S), DealtShare.decode receiver b = .ok s ↔
      s.receiver = receiver ∧ s.encode = b := by
  refine ⟨?size, Residue.bijOn_encode S.order, Residue.value_encode,
    fun _ _ => decodeScalar_eq_ok_iff_encode, fun _ => exists_decodeScalar_iff,
    fun _ _ => decodeScalar_eq_error_iff, fun _ => SigningKey.exists_decode_iff, ?key,
    fun _ _ => SigningKey.decode_eq_error_iff, fun _ _ _ => DealtShare.decode_eq_ok_iff⟩
  case size => rw [← Modulus.bits_eq_size, scalarSize, Modulus.bytes]
  case key =>
    intro b k
    rw [SigningKey.decode_eq_ok_iff, decodeScalar_eq_ok_iff_encode]

example : Suite.tiny.scalarSize = 2 ∧ (∃ a, Suite.tiny.decodeScalar [1, 20] = .ok a ∧ a.val = 276) ∧
    Suite.tiny.decodeScalar [1, 21] = .error (.malformed .unreduced) :=
  ⟨rfl, ⟨⟨276, by decide⟩, rfl, rfl⟩, rfl⟩

end JointSchnorr
