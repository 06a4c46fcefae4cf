import JointSchnorr.Hash.Sha2

/-!
A chain of digests.  Each link after the head digests the head combined with the link before it, a
counter and the domain.
-/

namespace JointSchnorr.Hash

variable (H : Hash)

/-- A tag followed by its length in one byte.  A tag too long for that gives way to its digest. -/
def domain (tag : Bytes) : Bytes :=
  let t := if tag.length ≤ 255 then tag else H.digest (Bytes.ascii "H2C-OVERSIZE-DST-" ++ tag)
  t ++ [t.length.toUInt8]

theorem domain_of_length_le {tag : Bytes} (h : tag.length ≤ 255) :
    H.domain tag = tag ++ [tag.length.toUInt8] := by
  simp [domain, h]

def headInput (length : Nat) (tag m : Bytes) : Bytes :=
  List.replicate length 0 ++ m ++ Bytes.ofNat 2 length ++ 0 :: H.domain tag

/-- The next `k` links after `last`, the first of them numbered `i`. -/
def links (head domain : Bytes) : Nat → Nat → Bytes → Bytes
  | 0, _, _ => []
  | k + 1, i, last =>
    let link := H.digest (head.xor last ++ i.toUInt8 :: domain)
    link ++ links head domain k (i + 1) link

def stretch (length : Nat) (tag head : Bytes) : Bytes :=
  let count := (length + H.size - 1) / H.size
  (H.links head (H.domain tag) count 1 (List.replicate H.size 0)).take length

end JointSchnorr.Hash
