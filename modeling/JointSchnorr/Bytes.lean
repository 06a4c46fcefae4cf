namespace JointSchnorr

abbrev Bytes := List UInt8

namespace Bytes

def ascii (text : String) : Bytes := text.toList.map fun c => c.toNat.toUInt8

def value (b : Bytes) : Nat := b.foldl (fun n x => 256 * n + x.toNat) 0

def valueLow (b : Bytes) : Nat := b.foldr (fun x n => x.toNat + 256 * n) 0

def ofNat : Nat → Nat → Bytes
  | 0, _ => []
  | k + 1, n => ofNat k (n / 256) ++ [n.toUInt8]

@[simp] theorem length_ofNat (k n : Nat) : (ofNat k n).length = k := by
  induction k generalizing n with
  | zero => rfl
  | succ k ih => simp [ofNat, ih]

@[simp] theorem value_append_singleton (b : Bytes) (x : UInt8) :
    value (b ++ [x]) = 256 * value b + x.toNat := by
  simp [value]

/-- The first `k` bytes, with zeros after the last where there are fewer. -/
def fit (k : Nat) (b : Bytes) : Bytes := b.take k ++ List.replicate (k - b.length) 0

def xor (a b : Bytes) : Bytes := a.zipWith (· ^^^ ·) b

def toHex (b : Bytes) : String :=
  String.ofList (b.flatMap fun x => [(x.toNat / 16).digitChar, (x.toNat % 16).digitChar])

def hexValue? (c : Char) : Option Nat :=
  if '0' ≤ c ∧ c ≤ '9' then some (c.toNat - '0'.toNat)
  else if 'a' ≤ c ∧ c ≤ 'f' then some (c.toNat - 'a'.toNat + 10)
  else if 'A' ≤ c ∧ c ≤ 'F' then some (c.toNat - 'A'.toNat + 10)
  else none

def ofHexDigits? : List Char → Option Bytes
  | [] => some []
  | [_] => none
  | high :: low :: rest => do
    let h ← hexValue? high
    let l ← hexValue? low
    return (16 * h + l).toUInt8 :: (← ofHexDigits? rest)

def ofHex? (text : String) : Option Bytes := ofHexDigits? text.toList

end Bytes

end JointSchnorr
