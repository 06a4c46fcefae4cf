import JointSchnorr.Residue

namespace JointSchnorr.Residue

def twos (n : Nat) : Nat := ((List.range (n.log2 + 1)).find? n.testBit).getD 0

variable {p : Modulus}

/-- At `k`, the order of `t` divides `2 ^ k`, and `2 ^ k` is half the order of `c`. -/
def descend : Nat → Residue p → Residue p → Residue p → Residue p
  | 0, _, _, r => r
  | k + 1, c, t, r =>
    if t.pow (2 ^ k) = 1 then descend k (c * c) t r
    else descend k (c * c) (t * (c * c)) (r * c)

def sqrt? (z a : Residue p) : Option (Residue p) :=
  let s := twos (p.value - 1)
  let q := (p.value - 1) >>> s
  let r := descend (s - 1) (z.pow q) (a.pow q) (a.pow ((q + 1) / 2))
  if r * r = a then some r else none

theorem mul_self_of_sqrt? {z a r : Residue p} (h : sqrt? z a = some r) : r * r = a := by
  simp only [sqrt?] at h
  split at h
  · simp_all
  · simp at h

end JointSchnorr.Residue
