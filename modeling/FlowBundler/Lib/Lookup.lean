import FlowBundler.Lib.Wheel
import Mathlib.NumberTheory.Padics.PadicVal.Basic

/-!
Keys and locations of a multi-level wheel name each other, whichever way a key was found.

* `level_eq_padicValNat`: the level of a key is its number of trailing zero bits.
* `eq_iff_level_odd`: a key is given by its level and its odd part.
* `same_bucket_iff`: two keys share a bucket exactly when they share a level and agree modulo one
  rotation of it.
* `existsUnique_next`, `existsUnique_ceil`: a scan that goes up by one granule meets every
  multiple of the granule ahead of it exactly once.
* `within_rotation_iff`: when a time within one rotation is still within one rotation after it is
  rounded up.

Everything comes from writing a key as its odd part times two to its level, in one way only.
Rounding a time gives a multiple of the granule, whose level is at least that of the granule; so a
location may be computed from the rounded time or from the number of granules, shifted by the lowest
set bit of that number.
-/

namespace Wheel

open Dyadic

variable {D D' k n : ℕ}

/-! ### Keys -/

/-- A key is its odd part at its level. -/
lemma two_pow_level_mul (hD : 0 < D) (hlt : D < 2 ^ 64) :
    2 ^ level D * (D / 2 ^ level D) = D :=
  Nat.mul_div_cancel' (dvd_of_le_level hD hlt le_rfl)

lemma odd_part (hD : 0 < D) (hlt : D < 2 ^ 64) : D / 2 ^ level D % 2 = 1 := by
  obtain ⟨m, hm, hodd, -⟩ := lowBit_factor hD hlt
  have hdiv : D / 2 ^ level D = m := Nat.div_eq_of_eq_mul_right (Nat.two_pow_pos _) hm
  rw [hdiv]
  exact hodd

/-- The level of a key is its number of trailing zero bits. -/
theorem level_eq_padicValNat (hD : 0 < D) (hlt : D < 2 ^ 64) : level D = padicValNat 2 D := by
  have hodd := odd_part hD hlt
  have hpart : padicValNat 2 (D / 2 ^ level D) = 0 :=
    padicValNat.eq_zero_of_not_dvd fun hdvd => by omega
  have hne : D / 2 ^ level D ≠ 0 := fun h => by simp [h] at hodd
  calc level D = level D + padicValNat 2 (D / 2 ^ level D) := by rw [hpart, Nat.add_zero]
    _ = padicValNat 2 (2 ^ level D * (D / 2 ^ level D)) := by
        rw [padicValNat.mul (by positivity) hne, padicValNat.prime_pow]
    _ = padicValNat 2 D := by rw [two_pow_level_mul hD hlt]

/-- The level of an odd number times a power of two. -/
lemma level_two_pow_mul_odd {r b : ℕ} (hr : r < 64) (hb : b % 2 = 1) : level (2 ^ r * b) = r :=
  lowBit_mul_odd hr hb

/-- A key is given by its level and its odd part. -/
theorem eq_iff_level_odd (hD : 0 < D) (hlt : D < 2 ^ 64) (hD' : 0 < D') (hlt' : D' < 2 ^ 64) :
    D = D' ↔ level D = level D' ∧ D / 2 ^ level D = D' / 2 ^ level D' := by
  constructor
  · rintro rfl
    exact ⟨rfl, rfl⟩
  · rintro ⟨hlevel, hpart⟩
    rw [← two_pow_level_mul hD hlt, ← two_pow_level_mul hD' hlt', hpart, hlevel]

/-- Agreeing modulo one rotation of a level is agreeing in the bucket number. -/
lemma modEq_two_pow_mul (k a b n : ℕ) :
    2 ^ k * a ≡ 2 ^ k * b [MOD 2 ^ (k + n)] ↔ a ≡ b [MOD 2 ^ n] := by
  rw [pow_add]
  exact ⟨Nat.ModEq.mul_left_cancel' (Nat.two_pow_pos k).ne', Nat.ModEq.mul_left' _⟩

/-- Two keys share a bucket exactly when they share a level and agree modulo one rotation of
it. -/
theorem same_bucket_iff (hD : 0 < D) (hlt : D < 2 ^ 64) (hD' : 0 < D') (hlt' : D' < 2 ^ 64) :
    level D = level D' ∧ index n D = index n D' ↔
      level D = level D' ∧ D ≡ D' [MOD 2 ^ (level D + n)] := by
  refine and_congr_right fun hlevel => ?_
  have hmod := modEq_two_pow_mul (level D) (D / 2 ^ level D) (D' / 2 ^ level D) n
  rw [two_pow_level_mul hD hlt, hlevel, two_pow_level_mul hD' hlt', ← hlevel] at hmod
  rw [index, index, ← hlevel]
  exact hmod.symm

/-! ### Scans -/

lemma nextTo_add (k t i : ℕ) : nextTo k (t + i * 2 ^ k) = nextTo k t + i * 2 ^ k := by
  rw [nextTo, nextTo, Nat.add_mul_div_right _ _ (Nat.two_pow_pos k)]
  ring

/-- A scan that starts at `s` and looks up the granule after each position meets every multiple
of the granule beyond `s` exactly once. -/
theorem existsUnique_next {s : ℕ} (hdvd : 2 ^ k ∣ D) (hlt : s < D) :
    ∃! i, nextTo k (s + i * 2 ^ k) = D := by
  obtain ⟨i, hi⟩ := exists_steps (dvd_nextTo k s) hdvd (nextTo_le hdvd hlt)
  refine ⟨i, (nextTo_add k s i).trans hi.symm, fun j hj => ?_⟩
  dsimp only at hj
  rw [nextTo_add, hi] at hj
  exact Nat.eq_of_mul_eq_mul_right (Nat.two_pow_pos k) (Nat.add_left_cancel hj)

/-- A scan that starts at `s` and rounds each position up meets every multiple of the granule at
or beyond `s` exactly once. -/
theorem existsUnique_ceil {s : ℕ} (hdvd : 2 ^ k ∣ D) (hle : s ≤ D) :
    ∃! i, ceilTo k (s + i * 2 ^ k) = D := by
  obtain ⟨i, hi⟩ := exists_steps (dvd_ceilTo k s) hdvd (ceilTo_le hdvd hle)
  refine ⟨i, (ceilTo_add k s i).trans hi.symm, fun j hj => ?_⟩
  dsimp only at hj
  rw [ceilTo_add, hi] at hj
  exact Nat.eq_of_mul_eq_mul_right (Nat.two_pow_pos k) (Nat.add_left_cancel hj)

/-! ### One rotation -/

/-- A time less than one rotation ahead of `H` is rounded up to at most the granule one rotation
after that of `H`. -/
lemma ceilTo_le_rotation {H a : ℕ} (hrot : a < H + 2 ^ (k + n)) :
    ceilTo k a ≤ ceilTo k H + 2 ^ (k + n) := by
  refine ceilTo_le ((dvd_ceilTo k H).add (pow_dvd_pow 2 (Nat.le_add_right k n))) ?_
  have := le_ceilTo k H
  omega

/-- **Within one rotation**: a time `a` less than one rotation of its granule ahead of `H` is
rounded up to a key less than one rotation of the level of that key ahead of `H`, unless it falls
into the granule one rotation after that of `H` and this granule belongs to no coarser level. -/
theorem within_rotation_iff {H a : ℕ} (hpos : 0 < ceilTo k a) (hlt : ceilTo k a < 2 ^ 64)
    (hrot : a < H + 2 ^ (k + n)) :
    ceilTo k a < H + 2 ^ (level (ceilTo k a) + n) ↔
      a + 2 ^ k ≤ ceilTo k H + 2 ^ (k + n) ∨ 2 ^ (k + 1) ∣ ceilTo k H + 2 ^ (k + n) := by
  have hdvd : 2 ^ k ∣ ceilTo k H + 2 ^ (k + n) :=
    (dvd_ceilTo k H).add (pow_dvd_pow 2 (Nat.le_add_right k n))
  have hlevel : k ≤ level (ceilTo k a) := le_level_of_dvd hpos hlt (dvd_ceilTo k a)
  have hmono : ∀ l, k ≤ l → 2 ^ (k + n) ≤ 2 ^ (l + n) := fun l hl =>
    Nat.pow_le_pow_right (by norm_num) (by omega)
  have hceil := ceilTo_lt_add k H
  rcases (ceilTo_le_rotation hrot).lt_or_eq with hbefore | hat
  · -- the key is at least one granule before the end of the rotation
    have hstep := add_le_of_dvd_of_lt (dvd_ceilTo k a) hdvd hbefore
    have hle := le_ceilTo k a
    have hwide := hmono _ hlevel
    exact iff_of_true (by omega) (.inl (by omega))
  · have hnot : ¬ a + 2 ^ k ≤ ceilTo k H + 2 ^ (k + n) := by
      have := ceilTo_lt_add k a
      omega
    rw [or_iff_right hnot, ← hat]
    constructor
    · intro hwithin
      refine dvd_of_le_level hpos hlt (lt_of_le_of_ne hlevel fun heq => ?_)
      have := le_ceilTo k H
      rw [← heq] at hwithin
      omega
    · intro hcoarse
      have hl : k + 1 ≤ level (ceilTo k a) := le_level_of_dvd hpos hlt hcoarse
      have hgran : 2 ^ k ≤ 2 ^ (k + n) := Nat.pow_le_pow_right (by norm_num) (by omega)
      calc ceilTo k a = ceilTo k H + 2 ^ (k + n) := hat
        _ < H + 2 ^ k + 2 ^ (k + n) := Nat.add_lt_add_right hceil _
        _ ≤ H + 2 ^ (k + 1 + n) := by
            rw [show k + 1 + n = k + n + 1 by ring, pow_succ]
            omega
        _ ≤ H + 2 ^ (level (ceilTo k a) + n) :=
            Nat.add_le_add_left (Nat.pow_le_pow_right (by norm_num) (by omega)) _

end Wheel
