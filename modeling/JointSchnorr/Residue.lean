import JointSchnorr.Binary
import JointSchnorr.Error

namespace JointSchnorr

structure Modulus where
  value : Nat
  value_pos : 0 < value := by decide

namespace Modulus

def bits (m : Modulus) : Nat := m.value.log2 + 1

def bytes (m : Modulus) : Nat := (m.bits + 7) / 8

end Modulus

@[ext] structure Residue (m : Modulus) where
  val : Nat
  val_lt : val < m.value
  deriving DecidableEq

namespace Residue

variable {m : Modulus}

def ofNat (n : Nat) : Residue m := ⟨n % m.value, Nat.mod_lt n m.value_pos⟩

instance (n : Nat) : OfNat (Residue m) n := ⟨ofNat n⟩

instance : Add (Residue m) := ⟨fun a b => ofNat (a.val + b.val)⟩

instance : Mul (Residue m) := ⟨fun a b => ofNat (a.val * b.val)⟩

instance : Sub (Residue m) := ⟨fun a b => ofNat (a.val + (m.value - b.val))⟩

instance : Neg (Residue m) := ⟨fun a => ofNat (m.value - a.val)⟩

@[simp] theorem val_ofNat (n : Nat) : (ofNat n : Residue m).val = n % m.value := rfl

@[simp] theorem val_zero : (0 : Residue m).val = 0 := Nat.zero_mod _

@[simp] theorem val_add (a b : Residue m) : (a + b).val = (a.val + b.val) % m.value := rfl

@[simp] theorem val_mul (a b : Residue m) : (a * b).val = a.val * b.val % m.value := rfl

theorem val_sub (a b : Residue m) : (a - b).val = (a.val + (m.value - b.val)) % m.value := rfl

theorem val_neg (a : Residue m) : (-a).val = (m.value - a.val) % m.value := rfl

def pow (a : Residue m) (n : Nat) : Residue m := binary 1 (fun x => x * x) (fun x => x * a) n

def inv (a : Residue m) : Residue m := a.pow (m.value - 2)

def inv? (a : Residue m) : Option (Residue m) := if a = 0 then none else some a.inv

def encode (a : Residue m) : Bytes := Bytes.ofNat m.bytes a.val

@[simp] theorem length_encode (a : Residue m) : a.encode.length = m.bytes := Bytes.length_ofNat _ _

def decode (b : Bytes) : Except Malformed (Residue m) :=
  if b.length = m.bytes then
    if h : b.value < m.value then .ok ⟨b.value, h⟩ else .error .unreduced
  else .error (.length m.bytes b.length)

end Residue

end JointSchnorr
