import FlowBundler.Lib.Dyadic

/-!
A multi-level timing wheel: level `a` holds the keys whose lowest set bit is `a`,
in `2^n` buckets indexed by the odd part modulo `2^n`.

* `level`, `index`: where a key lives.
* `eq_of_same_bucket`: two keys of one bucket that are less than one rotation
  `2^(a+n)` apart are equal; this is all that keeps rotations from mixing.
* `eq_of_mod_eq`: the same for a wheel of one level; `slots_distinct_iff`: when such a wheel has
  enough buckets for a window of times.
* `next_lookup`, `ceil_lookup`: the two ways to find a bucket from a time and a
  granule `2^k` agree with `level` and the odd part, when the key is the time
  rounded strictly up, or rounded up.
* `le_of_idle`: a scan over consecutive multiples of the granule that met no key
  so far has every key still ahead of it.

The level of a key and its odd part name the key, and the index keeps the odd part modulo the number
of buckets only; two keys of one bucket therefore differ by a multiple of one rotation of their
level.  A scan goes in steps of the granule of some level and looks up a bucket at each step; it
meets all keys on that level and above, since these are multiples of the granule.
-/

namespace Wheel

open Dyadic

/-- The level of a key: its lowest set bit. -/
def level (D : ℕ) : ℕ := lowBit 64 D

/-- The bucket of a key within its level: the odd part modulo the number of buckets. -/
def index (n D : ℕ) : ℕ := D / 2 ^ level D % 2 ^ n

lemma le_level_of_dvd {D k : ℕ} (hD : 0 < D) (hlt : D < 2 ^ 64) (h : 2 ^ k ∣ D) : k ≤ level D :=
  le_lowBit_of_dvd hD hlt h

lemma dvd_of_le_level {D k : ℕ} (hD : 0 < D) (hlt : D < 2 ^ 64) (h : k ≤ level D) : 2 ^ k ∣ D :=
  dvd_of_le_lowBit hD hlt h

/-- A key below `2^b` lives on a level below `b`. -/
lemma level_lt {D b : ℕ} (hD : 0 < D) (hlt : D < 2 ^ 64) (hb : D < 2 ^ b) : level D < b := by
  have hle := Nat.le_of_dvd hD (dvd_of_le_level hD hlt le_rfl)
  exact (Nat.pow_lt_pow_iff_right (by norm_num)).mp (lt_of_le_of_lt hle hb)

/-- Two keys of one bucket less than one rotation apart are equal. -/
theorem eq_of_same_bucket {n D D' : ℕ} (hD : 0 < D) (hlt' : D' < 2 ^ 64)
    (hl : level D = level D') (hi : index n D = index n D') (hle : D ≤ D')
    (hrot : D' < D + 2 ^ (level D + n)) : D = D' := by
  have hlt : D < 2 ^ 64 := lt_of_le_of_lt hle hlt'
  obtain ⟨m, hm⟩ := dvd_of_le_level hD hlt le_rfl
  obtain ⟨m', hm'⟩ := dvd_of_le_level (lt_of_lt_of_le hD hle) hlt' le_rfl
  rw [← hl] at hm'
  have hp := Nat.two_pow_pos (level D)
  have hdiv : D / 2 ^ level D = m := Nat.div_eq_of_eq_mul_right hp hm
  have hdiv' : D' / 2 ^ level D = m' := Nat.div_eq_of_eq_mul_right hp hm'
  have hmod : m ≡ m' [MOD 2 ^ n] := by
    rw [index, index, ← hl, hdiv, hdiv'] at hi
    exact hi
  have hmm : m ≤ m' := by
    refine Nat.le_of_mul_le_mul_left ?_ hp
    rw [← hm, ← hm']
    exact hle
  have hlt2 : m' < m + 2 ^ n := by
    refine Nat.lt_of_mul_lt_mul_left (a := 2 ^ level D) ?_
    rw [← hm', Nat.mul_add, ← hm, ← pow_add]
    exact hrot
  have hsub : m' - m = 0 :=
    Nat.eq_zero_of_dvd_of_lt ((Nat.modEq_iff_dvd' hmm).mp hmod) (by omega)
  rw [hm, hm', show m = m' by omega]

/-- Two numbers of one window of `n` that agree modulo `n` are equal: a wheel of `n` buckets
does not mix turns. -/
lemma eq_of_mod_eq {n a x y : ℕ} (hx : a ≤ x) (hxn : x < a + n) (hy : a ≤ y) (hyn : y < a + n)
    (h : x % n = y % n) : x = y := by
  have hmod : x ≡ y [MOD n] := h
  rcases le_total x y with hle | hle
  · have := Nat.eq_zero_of_dvd_of_lt ((Nat.modEq_iff_dvd' hle).mp hmod) (by omega)
    omega
  · have := Nat.eq_zero_of_dvd_of_lt ((Nat.modEq_iff_dvd' hle).mp hmod.symm) (by omega)
    omega

/-- **A wheel of `1 + H / g` buckets** keeps the slots of a window of length `H` from `h` on apart
exactly when the remainders of `h` and `H` do not add up to another slot. -/
theorem slots_distinct_iff {g h H : ℕ} (hg : 0 < g) :
    (∀ t t', h ≤ t → t ≤ h + H → h ≤ t' → t' ≤ h + H → t / g ≠ t' / g →
      t / g % (1 + H / g) ≠ t' / g % (1 + H / g)) ↔ h % g + H % g < g := by
  constructor
  · intro hall
    by_contra hcarry
    -- the two ends of the window are a turn apart
    have hend : (h + H) / g = h / g + (1 + H / g) := by
      rw [Nat.add_div hg, if_pos (not_lt.mp hcarry)]
      ring
    refine hall h (h + H) le_rfl (Nat.le_add_right h H) (Nat.le_add_right h H) le_rfl ?_ ?_
    · rw [hend]
      exact (Nat.lt_add_of_pos_right (Nat.add_pos_left Nat.one_pos _)).ne
    · rw [hend, Nat.add_mod_right]
  · intro hfit t t' ht htH ht' htH' hne hmod
    have hend : (h + H) / g = h / g + H / g := by
      rw [Nat.add_div hg, if_neg (not_le.mpr hfit), Nat.add_zero]
    have hlow : h / g ≤ t / g := Nat.div_le_div_right ht
    have hlow' : h / g ≤ t' / g := Nat.div_le_div_right ht'
    have hhigh : t / g ≤ (h + H) / g := Nat.div_le_div_right htH
    have hhigh' : t' / g ≤ (h + H) / g := Nat.div_le_div_right htH'
    exact hne (eq_of_mod_eq hlow (by omega) hlow' (by omega) hmod)

/-! ### Finding the bucket of a rounded time -/

/-- The lowest set bit moves with a shift. -/
lemma level_two_pow_mul {k b : ℕ} (hb : 0 < b) (hlt : 2 ^ k * b < 2 ^ 64) :
    level (2 ^ k * b) = k + level b := by
  have hb64 : b < 2 ^ 64 := lt_of_le_of_lt (Nat.le_mul_of_pos_left b (Nat.two_pow_pos k)) hlt
  obtain ⟨m, hbm, hm, -⟩ := lowBit_factor hb hb64
  set a := lowBit 64 b with ha
  have hka : k + a < 64 := by
    have hle : 2 ^ (k + a) ≤ 2 ^ k * b := by
      rw [pow_add, hbm]
      exact Nat.mul_le_mul_left _ (Nat.le_mul_of_pos_right _ (by omega))
    exact (Nat.pow_lt_pow_iff_right (by norm_num)).mp (lt_of_le_of_lt hle hlt)
  have heq : 2 ^ k * b = 2 ^ (k + a) * m := by
    rw [pow_add]
    conv_lhs => rw [hbm]
    ring
  rw [level, heq, lowBit_mul_odd hka hm, level]

/-- The level found from a bucket number `b` at granule `2^k` is the level of the key
`2^k * b`: setting bit 63 first changes nothing for a positive number up to it. -/
lemma lookup_level {k b : ℕ} (hb : 0 < b) (hb63 : b ≤ 2 ^ 63) (hlt : 2 ^ k * b < 2 ^ 64) :
    k + lowBit 64 (b ||| 1 <<< 63) = level (2 ^ k * b) := by
  rw [level_two_pow_mul hb hlt, level]
  rcases hb63.lt_or_eq with hlt63 | rfl
  · rw [lowBit_or_top hb hlt63]
  · rw [Nat.one_shiftLeft, Nat.or_self]

/-- Looking up the granule after a time: level and bucket number of `nextTo k t`. -/
lemma next_lookup {k t : ℕ} (hlt : nextTo k t < 2 ^ 63) :
    k + lowBit 64 (t / 2 ^ k + 1 ||| 1 <<< 63) = level (nextTo k t) ∧
      t / 2 ^ level (nextTo k t) + 1 = nextTo k t / 2 ^ level (nextTo k t) := by
  have hD : nextTo k t = 2 ^ k * (t / 2 ^ k + 1) := Nat.mul_comm _ _
  have hpos : 0 < nextTo k t := lt_of_le_of_lt (Nat.zero_le t) (lt_nextTo k t)
  constructor
  · rw [hD] at hlt ⊢
    have hle := Nat.le_mul_of_pos_left (t / 2 ^ k + 1) (Nat.two_pow_pos k)
    exact lookup_level (Nat.succ_pos _) (by omega) (by omega)
  · set D := nextTo k t with hDdef
    have hk : k ≤ level D := le_level_of_dvd hpos (by omega) (dvd_nextTo k t)
    have hdvd : 2 ^ level D ∣ D := dvd_of_le_level hpos (by omega) le_rfl
    have hnext : nextTo (level D) t = D := by
      refine le_antisymm (nextTo_le hdvd (lt_nextTo k t)) ?_
      rw [hDdef]
      exact nextTo_le ((pow_dvd_pow 2 hk).trans (dvd_nextTo _ t)) (lt_nextTo _ t)
    exact (Nat.div_eq_of_eq_mul_left (Nat.two_pow_pos _) hnext.symm).symm

/-- Looking up the granule at or after a positive time: level and bucket number of
`ceilTo k t`. -/
lemma ceil_lookup {k t : ℕ} (ht : 0 < t) (ht63 : t ≤ 2 ^ 63) (hlt : ceilTo k t < 2 ^ 64) :
    k + lowBit 64 ((t + 2 ^ k - 1) / 2 ^ k ||| 1 <<< 63) = level (ceilTo k t) ∧
      (t + 2 ^ level (ceilTo k t) - 1) / 2 ^ level (ceilTo k t)
        = ceilTo k t / 2 ^ level (ceilTo k t) := by
  have hD : ceilTo k t = 2 ^ k * ((t + 2 ^ k - 1) / 2 ^ k) := Nat.mul_comm _ _
  have hpos : 0 < ceilTo k t := lt_of_lt_of_le ht (le_ceilTo k t)
  constructor
  · rw [hD] at hlt hpos ⊢
    refine lookup_level (Nat.pos_of_mul_pos_left hpos) (le_trans ?_ ht63) hlt
    -- the number of granules is at most the time itself
    have hp := Nat.two_pow_pos k
    refine Nat.div_le_of_le_mul ?_
    have hmul : t + 2 ^ k ≤ 2 ^ k * t + 1 := by nlinarith
    omega
  · set D := ceilTo k t with hDdef
    have hk : k ≤ level D := le_level_of_dvd hpos (by omega) (dvd_ceilTo k t)
    have hdvd : 2 ^ level D ∣ D := dvd_of_le_level hpos (by omega) le_rfl
    have hceil : ceilTo (level D) t = D := by
      refine le_antisymm (ceilTo_le hdvd (le_ceilTo k t)) ?_
      rw [hDdef]
      exact ceilTo_le ((pow_dvd_pow 2 hk).trans (dvd_ceilTo _ t)) (le_ceilTo _ t)
    exact (Nat.div_eq_of_eq_mul_left (Nat.two_pow_pos _) hceil.symm).symm

/-! ### Scanning -/

/-- A scan over the multiples of `2^h` from `D₀` that met no key of `K` in `i` rounds has
every key of `K` at or beyond its next position. -/
lemma le_of_idle {h D₀ : ℕ} {K : ℕ → Prop} (hD₀ : 2 ^ h ∣ D₀) (hK : ∀ D, K D → 2 ^ h ∣ D)
    (hlow : ∀ D, K D → D₀ ≤ D) : ∀ i, (∀ j < i, ¬ K (D₀ + j * 2 ^ h)) →
    ∀ D, K D → D₀ + i * 2 ^ h ≤ D := by
  intro i
  induction i with
  | zero => intro _ D hD; simpa using hlow D hD
  | succ i ih =>
      intro hidle D hD
      have hle := ih (fun j hj => hidle j (by omega)) D hD
      have hne : D₀ + i * 2 ^ h ≠ D := fun heq => hidle i (by omega) (heq ▸ hD)
      have hdvd : 2 ^ h ∣ D₀ + i * 2 ^ h := hD₀.add (Dvd.intro_left i rfl)
      have hstep := add_le_of_dvd_of_lt hdvd (hK D hD) (lt_of_le_of_ne hle hne)
      calc D₀ + (i + 1) * 2 ^ h = D₀ + i * 2 ^ h + 2 ^ h := by ring
        _ ≤ D := hstep

end Wheel
