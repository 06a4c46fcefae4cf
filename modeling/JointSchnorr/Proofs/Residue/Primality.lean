import Mathlib.NumberTheory.LucasPrimality
import JointSchnorr.Proofs.Residue.Ring

namespace JointSchnorr.Residue

theorem prime_of_generator (m : Modulus) (g : Residue m) (factors : List Nat) (k : Nat)
    (primes : ∀ f ∈ factors, f.Prime)
    (full : m.value - 1 ∣ factors.prod ^ k ∧ g.pow (m.value - 1) = 1 ∧
      ∀ f ∈ factors, g.pow ((m.value - 1) / f) ≠ 1) : m.value.Prime := by
  obtain ⟨factored, one, proper⟩ := full
  apply lucas_primality _ g.toZMod
  · rw [← toZMod_pow, one, toZMod_one]
  · intro p hp dvd
    obtain ⟨f, hf, dvd⟩ := hp.prime.dvd_prod_iff.1 (hp.dvd_of_dvd_pow (dvd.trans factored))
    obtain rfl := (Nat.prime_dvd_prime_iff_eq hp (primes f hf)).1 dvd
    rw [← toZMod_pow, ← toZMod_one]
    exact fun h => proper p hf (toZMod_injective h)

end JointSchnorr.Residue
