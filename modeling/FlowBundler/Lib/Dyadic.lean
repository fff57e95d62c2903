import Mathlib.Tactic
import Mathlib.Data.Nat.Bitwise

/-!
Powers of two, as the schedulers use them: rounding a time to a multiple of
`2^k`, masking, and the lowest set bit of a word.

* `floorTo`, `ceilTo`, `nextTo`: the multiple of `2^k` at or below a time, at or
  above it, and strictly above it; `dvd_le_floorTo`, `ceilTo_le`, `nextTo_le` are
  their universal properties.
* `land_mask`: anding a word with `~0 << k` is `floorTo k`; `testBit_clear`: anding it with
  `~(1 << l)` clears a bit.
* `lowBit`: the index of the lowest set bit, by structural recursion on the
  width; `lowBit_eq_iff` characterises it by bits and `lowBit_mul_odd` by
  the factorisation `2^a * m` with `m` odd.
* `land_upperHalf_eq_zero_iff`, `log2_shiftRight`: a step of the search for the
  highest set bit.

The three roundings are used through their universal properties: a bound of a rounded time is a
bound of the time itself, as soon as the bound is a multiple of the granule.  The other facts about
them are that they move by less than a granule, and that they commute with a step of one.
-/

namespace Dyadic

/-! ### Rounding to a multiple of a power of two -/

/-- The largest multiple of `2^k` that is at most `t`. -/
def floorTo (k t : ℕ) : ℕ := t / 2 ^ k * 2 ^ k

/-- The least multiple of `2^k` that is at least `t`. -/
def ceilTo (k t : ℕ) : ℕ := (t + 2 ^ k - 1) / 2 ^ k * 2 ^ k

/-- The least multiple of `2^k` that is greater than `t`. -/
def nextTo (k t : ℕ) : ℕ := (t / 2 ^ k + 1) * 2 ^ k

lemma dvd_floorTo (k t : ℕ) : 2 ^ k ∣ floorTo k t := Dvd.intro_left _ rfl

lemma dvd_ceilTo (k t : ℕ) : 2 ^ k ∣ ceilTo k t := Dvd.intro_left _ rfl

lemma dvd_nextTo (k t : ℕ) : 2 ^ k ∣ nextTo k t := Dvd.intro_left _ rfl

lemma floorTo_le (k t : ℕ) : floorTo k t ≤ t := Nat.div_mul_le_self t (2 ^ k)

lemma lt_nextTo (k t : ℕ) : t < nextTo k t :=
  (Nat.div_lt_iff_lt_mul (Nat.two_pow_pos k)).mp (Nat.lt_succ_self _)

lemma nextTo_eq (k t : ℕ) : nextTo k t = floorTo k t + 2 ^ k := by
  rw [nextTo, floorTo, Nat.add_mul, Nat.one_mul]

lemma nextTo_le_add (k t : ℕ) : nextTo k t ≤ t + 2 ^ k := by
  rw [nextTo_eq]
  exact Nat.add_le_add_right (floorTo_le k t) _

lemma lt_floorTo_add (k t : ℕ) : t < floorTo k t + 2 ^ k := by
  rw [← nextTo_eq]
  exact lt_nextTo k t

lemma le_ceilTo (k t : ℕ) : t ≤ ceilTo k t := by
  have h := lt_floorTo_add k (t + 2 ^ k - 1)
  have hp := Nat.two_pow_pos k
  rw [floorTo] at h
  rw [ceilTo]
  omega

lemma ceilTo_lt_add (k t : ℕ) : ceilTo k t < t + 2 ^ k := by
  have h := floorTo_le k (t + 2 ^ k - 1)
  have hp := Nat.two_pow_pos k
  rw [floorTo] at h
  rw [ceilTo]
  omega

/-- A multiple of `2^k` that is at most `t` is at most `floorTo k t`. -/
lemma dvd_le_floorTo {k d t : ℕ} (hd : 2 ^ k ∣ d) (h : d ≤ t) : d ≤ floorTo k t := by
  obtain ⟨m, rfl⟩ := hd
  rw [floorTo, Nat.mul_comm]
  exact Nat.mul_le_mul_right _ ((Nat.le_div_iff_mul_le (Nat.two_pow_pos k)).mpr
    (by rwa [Nat.mul_comm]))

/-- A multiple of `2^k` that is at least `t` is at least `ceilTo k t`. -/
lemma ceilTo_le {k d t : ℕ} (hd : 2 ^ k ∣ d) (h : t ≤ d) : ceilTo k t ≤ d := by
  obtain ⟨m, rfl⟩ := hd
  rw [ceilTo, Nat.mul_comm (2 ^ k)]
  refine Nat.mul_le_mul_right _ (Nat.lt_succ_iff.mp ?_)
  rw [Nat.div_lt_iff_lt_mul (Nat.two_pow_pos k), Nat.succ_mul, Nat.mul_comm m]
  have hp := Nat.two_pow_pos k
  omega

/-- A multiple of `2^k` that is greater than `t` is at least `nextTo k t`. -/
lemma nextTo_le {k d t : ℕ} (hd : 2 ^ k ∣ d) (h : t < d) : nextTo k t ≤ d := by
  obtain ⟨m, rfl⟩ := hd
  rw [nextTo, Nat.mul_comm (2 ^ k)]
  refine Nat.mul_le_mul_right _ ?_
  rw [Nat.succ_le_iff, Nat.div_lt_iff_lt_mul (Nat.two_pow_pos k), Nat.mul_comm m]
  exact h

lemma floorTo_of_dvd {k t : ℕ} (h : 2 ^ k ∣ t) : floorTo k t = t := Nat.div_mul_cancel h

lemma ceilTo_of_dvd {k t : ℕ} (h : 2 ^ k ∣ t) : ceilTo k t = t :=
  le_antisymm (ceilTo_le h le_rfl) (le_ceilTo k t)

/-- Rounding up commutes with a step of one granule. -/
lemma ceilTo_add (k t i : ℕ) : ceilTo k (t + i * 2 ^ k) = ceilTo k t + i * 2 ^ k := by
  have hp := Nat.two_pow_pos k
  have hsplit : t + i * 2 ^ k + 2 ^ k - 1 = t + 2 ^ k - 1 + i * 2 ^ k := by omega
  rw [ceilTo, ceilTo, hsplit, Nat.add_mul_div_right _ _ hp, Nat.add_mul]

/-- Two distinct multiples of `2^k` are at least one granule apart. -/
lemma add_le_of_dvd_of_lt {k a b : ℕ} (ha : 2 ^ k ∣ a) (hb : 2 ^ k ∣ b) (h : a < b) :
    a + 2 ^ k ≤ b := by
  obtain ⟨m, rfl⟩ := ha
  obtain ⟨n, rfl⟩ := hb
  have hmn : m < n := Nat.lt_of_mul_lt_mul_left h
  calc 2 ^ k * m + 2 ^ k = 2 ^ k * (m + 1) := by ring
    _ ≤ 2 ^ k * n := Nat.mul_le_mul_left _ hmn

/-- A time is rounded up by less than one granule from `s` exactly when it is not beyond the
granule of `s`. -/
lemma ceilTo_lt_add_iff {k s t : ℕ} : ceilTo k t < s + 2 ^ k ↔ t ≤ ceilTo k s := by
  constructor
  · intro hlt
    by_contra hgt
    have hstep := add_le_of_dvd_of_lt (dvd_ceilTo k s) (dvd_ceilTo k t)
      (lt_of_lt_of_le (not_le.mp hgt) (le_ceilTo k t))
    have hle := le_ceilTo k s
    omega
  · intro hle
    exact lt_of_le_of_lt (ceilTo_le (dvd_ceilTo k s) hle) (ceilTo_lt_add k s)

/-- Two multiples of `2^k` in order are a whole number of granules apart. -/
lemma exists_steps {k a b : ℕ} (ha : 2 ^ k ∣ a) (hb : 2 ^ k ∣ b) (h : a ≤ b) :
    ∃ i, b = a + i * 2 ^ k := by
  obtain ⟨i, hi⟩ := (Nat.dvd_sub_iff_left h ha).mpr hb
  exact ⟨i, by rw [Nat.mul_comm] at hi; omega⟩

/-! ### Masks -/

/-- Anding a 64-bit word with `~0 << k` clears the bits below `k`. -/
lemma land_mask {t k : ℕ} (ht : t < 2 ^ 64) :
    t &&& ((2 ^ 64 - 1) <<< k % 2 ^ 64) = floorTo k t := by
  have hfloor : floorTo k t = t >>> k <<< k := by
    rw [floorTo, Nat.shiftLeft_eq, Nat.shiftRight_eq_div_pow]
  rw [hfloor]
  apply Nat.eq_of_testBit_eq
  intro i
  simp only [Nat.testBit_and, Nat.testBit_mod_two_pow, Nat.testBit_shiftLeft,
    Nat.testBit_shiftRight, Nat.testBit_two_pow_sub_one]
  by_cases hki : k ≤ i
  · by_cases hi : i < 64
    · simp [hki, hi, show i - k < 64 by omega]
    · have hfalse : t.testBit i = false :=
        Nat.testBit_lt_two_pow (lt_of_lt_of_le ht (Nat.pow_le_pow_right (by norm_num) (by omega)))
      simp [hki, hfalse]
  · simp [hki]

/-- The mask that clears bit `l` of a 64-bit map. -/
lemma testBit_clear {b l i : ℕ} (hl : l < 64) (hb : ∀ i, b.testBit i = true → i < 64) :
    (b &&& (2 ^ 64 - 1 - 1 <<< l)).testBit i = (b.testBit i && decide (i ≠ l)) := by
  have hlt : 2 ^ l < 2 ^ 64 := Nat.pow_lt_pow_right (by norm_num) hl
  have hmask : 2 ^ 64 - 1 - 1 <<< l = 2 ^ 64 - (2 ^ l + 1) := by rw [Nat.one_shiftLeft]; omega
  rw [Nat.testBit_and, hmask, Nat.testBit_two_pow_sub_succ hlt, Nat.testBit_two_pow]
  cases hbit : b.testBit i with
  | false => simp
  | true =>
      have hi := hb i hbit
      simp [hi, eq_comm]

/-! ### The lowest set bit -/

/-- The index of the lowest set bit of a word of width `w`; `w` when no bit below `w`
is set. -/
def lowBit : ℕ → ℕ → ℕ
  | 0, _ => 0
  | w + 1, n => if n % 2 = 1 then 0 else lowBit w (n / 2) + 1

/-- `lowBit` finds the first set bit below the width. -/
lemma lowBit_eq_iff : ∀ {w n a : ℕ}, a < w →
    (lowBit w n = a ↔ n.testBit a = true ∧ ∀ i < a, n.testBit i = false)
  | 0, _, _, ha => absurd ha (Nat.not_lt_zero _)
  | w + 1, n, 0, _ => by
      rw [lowBit, Nat.testBit_zero]
      split <;> simp_all
  | w + 1, n, a + 1, ha => by
      have ih := lowBit_eq_iff (w := w) (n := n / 2) (a := a) (by omega)
      rw [lowBit, Nat.testBit_succ]
      by_cases hodd : n % 2 = 1
      · rw [if_pos hodd]
        refine ⟨fun h => absurd h (by omega), fun h => ?_⟩
        have h0 := h.2 0 (by omega)
        rw [Nat.testBit_zero, hodd] at h0
        simp at h0
      · rw [if_neg hodd, Nat.add_right_cancel_iff, ih]
        refine and_congr_right fun _ => ⟨fun h i hi => ?_, fun h i hi => ?_⟩
        · cases i with
          | zero => rw [Nat.testBit_zero]; simpa using hodd
          | succ i => rw [Nat.testBit_succ]; exact h i (by omega)
        · have hs := h (i + 1) (by omega)
          rwa [Nat.testBit_succ] at hs

/-- Every word with a set bit below the width has its lowest one below the width. -/
lemma lowBit_lt : ∀ {w n : ℕ}, (∃ i < w, n.testBit i = true) → lowBit w n < w
  | 0, _, h => absurd h (by simp)
  | w + 1, n, h => by
      obtain ⟨i, hi, hb⟩ := h
      rw [lowBit]
      by_cases hodd : n % 2 = 1
      · rw [if_pos hodd]; omega
      · rw [if_neg hodd]
        cases i with
        | zero =>
            rw [Nat.testBit_zero] at hb
            exact absurd (by simpa using hb) hodd
        | succ i =>
            rw [Nat.testBit_succ] at hb
            have ih := lowBit_lt (w := w) (n := n / 2) ⟨i, by omega, hb⟩
            omega

/-- The lowest set bit of a non-zero word is set, and it is the least such. -/
lemma lowBit_spec {w n : ℕ} (h : ∃ i < w, n.testBit i = true) :
    n.testBit (lowBit w n) = true ∧ ∀ i < lowBit w n, n.testBit i = false :=
  (lowBit_eq_iff (lowBit_lt h)).mp rfl

/-- No set bit is below the lowest one. -/
lemma lowBit_le_of_testBit {w n i : ℕ} (h : n.testBit i = true) (hi : i < w) :
    lowBit w n ≤ i := by
  by_contra hlt
  have hclear := (lowBit_spec ⟨i, hi, h⟩).2 i (by omega)
  rw [h] at hclear
  exact absurd hclear (by simp)

/-- The lowest set bit of `2^a * m` with `m` odd is `a`. -/
lemma lowBit_mul_odd {w a m : ℕ} (ha : a < w) (hm : m % 2 = 1) : lowBit w (2 ^ a * m) = a := by
  refine (lowBit_eq_iff ha).mpr ⟨?_, fun i hi => ?_⟩
  · rw [Nat.testBit_two_pow_mul]
    simp [Nat.testBit_zero, hm]
  · rw [Nat.testBit_two_pow_mul]
    simp [show ¬ a ≤ i by omega]

/-- Every positive number is `2^a * m` with `m` odd. -/
lemma exists_eq_two_pow_mul_odd {n : ℕ} (hn : 0 < n) : ∃ a m, n = 2 ^ a * m ∧ m % 2 = 1 := by
  obtain ⟨a, m, hm, rfl⟩ := Nat.exists_eq_two_pow_mul_odd hn.ne'
  exact ⟨a, m, rfl, Nat.odd_iff.mp hm⟩

/-- The factorisation of a positive word read off its lowest set bit. -/
lemma lowBit_factor {w n : ℕ} (hn : 0 < n) (hw : n < 2 ^ w) :
    ∃ m, n = 2 ^ lowBit w n * m ∧ m % 2 = 1 ∧ lowBit w n < w := by
  obtain ⟨a, m, rfl, hm⟩ := exists_eq_two_pow_mul_odd hn
  have ha : a < w := by
    by_contra hge
    have hle : 2 ^ w ≤ 2 ^ a := Nat.pow_le_pow_right (by norm_num) (by omega)
    have hpos : 0 < m := by omega
    exact absurd hw (not_lt.mpr (hle.trans (Nat.le_mul_of_pos_right _ hpos)))
  rw [lowBit_mul_odd ha hm]
  exact ⟨m, rfl, hm, ha⟩

/-- A power of two dividing a positive word is at most its lowest set bit. -/
lemma le_lowBit_of_dvd {w n k : ℕ} (hn : 0 < n) (hw : n < 2 ^ w) (h : 2 ^ k ∣ n) :
    k ≤ lowBit w n := by
  obtain ⟨m, hnm, hm, -⟩ := lowBit_factor hn hw
  by_contra hlt
  have hdvd : 2 ^ (lowBit w n + 1) ∣ 2 ^ lowBit w n * m := by
    rw [← hnm]
    exact (pow_dvd_pow 2 (by omega)).trans h
  rw [pow_succ, Nat.mul_dvd_mul_iff_left (Nat.two_pow_pos _)] at hdvd
  omega

/-- A positive word is a multiple of `2^k` for every `k` up to its lowest set bit. -/
lemma dvd_of_le_lowBit {w n k : ℕ} (hn : 0 < n) (hw : n < 2 ^ w) (h : k ≤ lowBit w n) :
    2 ^ k ∣ n := by
  obtain ⟨m, hnm, -, -⟩ := lowBit_factor hn hw
  exact (pow_dvd_pow 2 h).trans (Dvd.intro m hnm.symm)

/-- Setting a bit above all others leaves the lowest set bit of a positive word. -/
lemma lowBit_or_top {w n : ℕ} (hn : 0 < n) (hw : n < 2 ^ w) :
    lowBit (w + 1) (n ||| 1 <<< w) = lowBit (w + 1) n := by
  have hw1 : n < 2 ^ (w + 1) := lt_trans hw (Nat.pow_lt_pow_right (by norm_num) (by omega))
  obtain ⟨m, hnm, hm, hlt⟩ := lowBit_factor hn hw1
  set a := lowBit (w + 1) n with ha
  have hspec := (lowBit_eq_iff hlt).mp ha.symm
  have haw : a < w := by
    by_contra hge
    have hle : 2 ^ w ≤ 2 ^ a := Nat.pow_le_pow_right (by norm_num) (by omega)
    have hpos : 0 < m := by omega
    rw [hnm] at hw
    exact absurd hw (not_lt.mpr (hle.trans (Nat.le_mul_of_pos_right _ hpos)))
  refine (lowBit_eq_iff hlt).mpr ⟨?_, fun i hi => ?_⟩
  · rw [Nat.testBit_or, hspec.1, Bool.true_or]
  · rw [Nat.testBit_or, hspec.2 i hi, Nat.testBit_shiftLeft]
    simp [show ¬ w ≤ i by omega]

/-- Setting the top bit of the zero word makes it the lowest set bit. -/
lemma lowBit_top (w : ℕ) : lowBit (w + 1) (0 ||| 1 <<< w) = w := by
  rw [Nat.zero_or, Nat.one_shiftLeft, ← Nat.mul_one (2 ^ w)]
  exact lowBit_mul_odd (Nat.lt_succ_self w) rfl

/-! ### The highest set bit -/

/-- The upper half of a word of `k + k` bits is empty exactly when the word has `k` bits. -/
lemma land_upperHalf_eq_zero_iff {x k : ℕ} (hx : x < 2 ^ (k + k)) :
    x &&& (2 ^ (k + k) - 2 ^ k) = 0 ↔ x < 2 ^ k := by
  have hmask : 2 ^ (k + k) - 2 ^ k = (2 ^ k - 1) <<< k := by
    rw [Nat.shiftLeft_eq, Nat.sub_mul, pow_add, Nat.one_mul]
  have hbit : ∀ i, (x &&& (2 ^ (k + k) - 2 ^ k)).testBit i = (x.testBit i && decide (k ≤ i)) := by
    intro i
    rw [hmask, Nat.testBit_and, Nat.testBit_shiftLeft, Nat.testBit_two_pow_sub_one]
    by_cases hi : i < k + k
    · by_cases hk : k ≤ i
      · simp [hk, show i - k < k by omega]
      · simp [hk]
    · have hfalse : x.testBit i = false :=
        Nat.testBit_lt_two_pow (hx.trans_le (Nat.pow_le_pow_right (by norm_num) (not_lt.mp hi)))
      simp [hfalse]
  constructor
  · intro hzero
    by_contra hge
    obtain ⟨i, hi, hset⟩ := Nat.exists_ge_and_testBit_of_ge_two_pow (not_lt.mp hge)
    have hand := hbit i
    rw [hzero, Nat.zero_testBit, hset] at hand
    simp [hi] at hand
  · intro hlt
    refine Nat.eq_of_testBit_eq fun i => ?_
    rw [hbit, Nat.zero_testBit]
    by_cases hk : k ≤ i
    · have hfalse : x.testBit i = false :=
        Nat.testBit_lt_two_pow (hlt.trans_le (Nat.pow_le_pow_right (by norm_num) hk))
      simp [hfalse]
    · simp [hk]

/-- The logarithm of a shifted number. -/
lemma log2_shiftRight {x k : ℕ} (hx : 2 ^ k ≤ x) : k + Nat.log2 (x >>> k) = Nat.log2 x := by
  have hp := Nat.two_pow_pos k
  rw [Nat.shiftRight_eq_div_pow]
  have hne : x / 2 ^ k ≠ 0 := (Nat.div_pos hx hp).ne'
  refine ((Nat.log2_eq_iff (by omega)).mpr ⟨?_, ?_⟩).symm
  · rw [pow_add, Nat.mul_comm, ← Nat.le_div_iff_mul_le hp]
    exact Nat.log2_self_le hne
  · rw [Nat.add_assoc, pow_add, Nat.mul_comm, ← Nat.div_lt_iff_lt_mul hp]
    exact Nat.lt_log2_self
end Dyadic
