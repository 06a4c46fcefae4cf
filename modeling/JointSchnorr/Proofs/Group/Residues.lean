import JointSchnorr.Proofs.Group.Lawful
import JointSchnorr.Proofs.Residue.Primality
import JointSchnorr.Suite

namespace JointSchnorr

theorem Residue.succ_mul {m : Modulus} (n : Nat) (a : Residue m) :
    Residue.ofNat (n + 1) * a = Residue.ofNat n * a + a := by
  rw [ofNat_eq_natCast, ofNat_eq_natCast, Nat.cast_succ, add_mul, one_mul]

theorem Residue.order_mul {m : Modulus} (a : Residue m) : Residue.ofNat m.value * a = 0 := by
  apply toZMod_injective
  simp

def CyclicGroup.residues (m : Modulus) : CyclicGroup where
  Point := Residue m
  zero := 0
  add P Q := P + Q
  multiple n P := Residue.ofNat n * P
  generator := 1
  order := m

instance (m : Modulus) [Fact m.value.Prime] : (CyclicGroup.residues m).Lawful where
  prime := (Fact.out : m.value.Prime)
  add_assoc := add_assoc (G := Residue m)
  add_comm := add_comm (G := Residue m)
  zero_add := zero_add (M := Residue m)
  multiple_zero := @zero_mul (Residue m) _
  multiple_succ := Residue.succ_mul
  multiple_order := Residue.order_mul 1
  generator_ne_zero := one_ne_zero (α := Residue m)
  exists_multiple P := ⟨P.val, (mul_one (Residue.ofNat P.val)).trans (Residue.ofNat_val P)⟩

def Suite.residues (m : Modulus) : Suite where
  toCyclicGroup := .residues m
  hash := sha256
  context := Bytes.ascii "RESIDUES"
  commitmentSize := 32
  encode P := if P = 0 then .error (.malformed .identity) else .ok (Residue.encode P)
  decode b := do
    let P ← (Residue.decode b).mapError .malformed
    if P = 0 then .error (.malformed .identity) else .ok P

theorem Suite.exists_encode_residues {m : Modulus} (P : (Suite.residues m).Point) (hP : P ≠ 0) :
    ∃ b, (Suite.residues m).encode P = .ok b :=
  ⟨_, if_neg hP⟩

theorem Suite.eq_of_encode_residues {m : Modulus} {P : Residue m} {b : Bytes}
    (h : (Suite.residues m).encode P = .ok b) : P.encode = b := by
  have h : (if P = 0 then .error (.malformed .identity) else .ok P.encode) =
    (.ok b : Except Error Bytes) := h
  split at h
  · cases h
  · exact Except.ok.inj h

instance (m : Modulus) [Fact m.value.Prime] : (Suite.residues m).Lawful :=
  inferInstanceAs (CyclicGroup.residues m).Lawful

def Suite.seven : Suite := .residues { value := 7 }

instance : Suite.seven.Lawful :=
  haveI : Fact (Nat.Prime 7) := ⟨by decide⟩
  inferInstanceAs (Suite.residues { value := 7 }).Lawful

/-- Residues modulo seven with a hash that adds up bytes, so that challenges are plain to see. -/
def Suite.summing : Suite :=
  { Suite.seven with hash := ⟨fun m => [m.foldl (· + ·) 0], 1, fun _ => rfl⟩ }

instance : Suite.summing.Lawful := inferInstanceAs Suite.seven.Lawful

def wideModulus : Modulus := { value := 3 * 2 ^ 36 + 1 }

theorem prime_wideModulus : wideModulus.value.Prime := by
  -- twenty-two is a primitive root
  apply Residue.prime_of_generator wideModulus 22 [2, 3] 36
  · exact List.forall_mem_cons.2 ⟨Nat.prime_two, List.forall_mem_singleton.2 Nat.prime_three⟩
  · decide +kernel

def Suite.wide : Suite := .residues wideModulus

instance : Suite.wide.Lawful :=
  haveI : Fact wideModulus.value.Prime := ⟨prime_wideModulus⟩
  inferInstanceAs (Suite.residues wideModulus).Lawful

end JointSchnorr
