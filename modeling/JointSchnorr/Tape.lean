import JointSchnorr.Group

/-!
A draw takes whole 64-bit limbs, least significant byte first, keeps as many bits as the order of
the group has, and starts over on the following bytes until the number is acceptable.
-/

namespace JointSchnorr

/-- A computation that takes bytes off the front of a tape.  It is `none` when the tape is too
short. -/
abbrev Sampler := StateT Bytes Option

namespace Sampler

variable {α : Type}

def bytes (n : Nat) : Sampler Bytes := fun tape =>
  if n ≤ tape.length then some (tape.take n, tape.drop n) else none

def list (draw : Sampler α) : Nat → Sampler (List α)
  | 0 => pure []
  | n + 1 => return (← draw) :: (← list draw n)

/-- Reads `size` bytes at a time until the number in their low `bits` bits is taken.  Each attempt
uses up one of the first argument, for which the length of the tape suffices. -/
def takenWithin (size bits : Nat) (take? : Nat → Option α) : Nat → Sampler α
  | 0, _ => none
  | fuel + 1, tape => do
    let (b, rest) ← bytes size tape
    match take? (b.valueLow % 2 ^ bits) with
    | some a => some (a, rest)
    | none => takenWithin size bits take? fuel rest

def taken (size bits : Nat) (take? : Nat → Option α) : Sampler α := fun tape =>
  takenWithin size bits take? (tape.length + 1) tape

end Sampler

namespace CyclicGroup

variable (G : CyclicGroup) {α : Type}

def limbs : Nat := (G.order.bits + 63) / 64

def radix : Nat := 1 <<< (64 * G.limbs)

def ofDrawn (v : Nat) : G.Scalar := Residue.ofNat v * (Residue.ofNat G.radix).inv

def draw (take? : G.Scalar → Option α) : Sampler α :=
  Sampler.taken (8 * G.limbs) G.order.bits fun v =>
    if v < G.order.value then take? (G.ofDrawn v) else none

def scalar : Sampler G.Scalar := G.draw some

end CyclicGroup

def blind : Sampler Bytes := Sampler.bytes 32

end JointSchnorr
