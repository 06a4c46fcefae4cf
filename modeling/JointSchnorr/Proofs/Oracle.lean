import Mathlib.Data.List.Nodup
import JointSchnorr.Oracle

namespace JointSchnorr

/-- The tag's length stands last, and then there is only one place where the tag can begin. -/
theorem Hash.headInput_injective (H : Hash) {size : Nat} {tag tag' m m' : Bytes}
    (short : tag.length ≤ 255) (short' : tag'.length ≤ 255)
    (same : H.headInput size tag m = H.headInput size tag' m') : tag = tag' ∧ m = m' := by
  simp only [headInput, H.domain_of_length_le short, H.domain_of_length_le short',
    ← List.cons_append, ← List.append_assoc] at same
  obtain ⟨same, last⟩ := List.append_inj' same rfl
  have length : tag.length = tag'.length := by
    have bytes := congrArg UInt8.toNat (List.singleton_inj.1 last)
    simp only [Nat.toUInt8_eq, UInt8.toNat_ofNat'] at bytes
    omega
  obtain ⟨same, domain⟩ := List.append_inj' same (congrArg (· + 1) length)
  have message := List.append_cancel_left (List.append_cancel_right same)
  exact ⟨(List.cons.inj domain).2, message⟩

theorem Hash.head?_headInput (H : Hash) {size : Nat} (pos : 0 < size) (tag m : Bytes) :
    (H.headInput size tag m).head? = some 0 := by
  cases size with
  | zero => exact absurd pos (Nat.lt_irrefl 0)
  | succ size => rfl

namespace Oracle

def all : List Oracle :=
  [coefficient, challenge .single, challenge .aggregate, challenge .threshold, nonce, commitment]

theorem mem_all : ∀ o, o ∈ all
  | coefficient | challenge .single | challenge .aggregate | challenge .threshold | nonce
  | commitment => by decide

theorem label_injective : Function.Injective fun o : Oracle => Bytes.ascii o.label := by
  have nodup : (all.map fun o => Bytes.ascii o.label).Nodup := by decide
  intro o o' h
  exact List.inj_on_of_nodup_map nodup o.mem_all o'.mem_all h

theorem length_label_le (o : Oracle) : (Bytes.ascii o.label).length ≤ 19 := by
  have bounded : ∀ o ∈ all, (Bytes.ascii o.label).length ≤ 19 := by decide
  exact bounded o o.mem_all

end Oracle

namespace Suite

variable {S : Suite} {o o' : Oracle} {m m' : Bytes}

theorem wideSize_pos (S : Suite) : 0 < S.wideSize := by
  rw [wideSize]
  omega

theorem tag_injective (S : Suite) : Function.Injective S.tag := by
  intro o o' h
  exact Oracle.label_injective (List.append_cancel_left h)

theorem length_tag_le (short : S.context.length ≤ 236) (o : Oracle) : (S.tag o).length ≤ 255 := by
  have label := o.length_label_le
  rw [tag, List.length_append]
  omega

theorem firstInput_of_ne (h : o ≠ .commitment) (m : Bytes) :
    S.firstInput o m = S.hash.headInput S.wideSize (S.tag o) m := by
  cases o with
  | commitment => exact absurd rfl h
  | coefficient | challenge | nonce => rfl

theorem firstInput_of_length_le (short : S.context.length ≤ 236) (h : o ≠ .commitment)
    (m : Bytes) :
    S.firstInput o m = List.replicate S.wideSize 0 ++ m ++ Bytes.ofNat 2 S.wideSize ++
      0 :: (S.context ++ Bytes.ascii o.label ++ [(S.tag o).length.toUInt8]) := by
  rw [firstInput_of_ne h, Hash.headInput, S.hash.domain_of_length_le (length_tag_le short o), tag]

theorem head?_firstInput_commitment (start : S.context.head? ≠ some 0) (m : Bytes) :
    (S.firstInput .commitment m).head? ≠ some 0 := by
  rw [firstInput, tag]
  cases h : S.context with
  | nil => exact fun h => absurd (Option.some.inj h) (by decide)
  | cons b rest => rwa [h] at start

theorem firstInput_inj (short : S.context.length ≤ 236) (start : S.context.head? ≠ some 0)
    (same : S.firstInput o m = S.firstInput o' m') : o = o' ∧ m = m' := by
  have padded {o : Oracle} (h : o ≠ .commitment) (m : Bytes) :
      (S.firstInput o m).head? = some 0 := by
    rw [firstInput_of_ne h, S.hash.head?_headInput S.wideSize_pos]
  by_cases h : o = .commitment <;> by_cases h' : o' = .commitment
  · rw [h, h'] at same
    exact ⟨h.trans h'.symm, List.append_cancel_left same⟩
  · rw [h] at same
    exact absurd (same ▸ padded h' m') (head?_firstInput_commitment start m)
  · rw [h'] at same
    exact absurd (same ▸ padded h m) (head?_firstInput_commitment start m')
  · rw [firstInput_of_ne h, firstInput_of_ne h'] at same
    obtain ⟨tags, message⟩ :=
      S.hash.headInput_injective (length_tag_le short o) (length_tag_le short o') same
    exact ⟨S.tag_injective tags, message⟩

end Suite

end JointSchnorr
