import FlowBundler.Kernel.Eiffel.Operations

/-!
The size of the trees that `gq_init` of `sch_eiffel.c` sets up.

* `logApprox_eq`: `log_approx` is the logarithm of a 32-bit word, rounded down.  Each of its five
  rounds halves the number of bits, and keeps the sum of what it has found and the logarithm of what
  is left; the induction is on the rounds.
* `visited`: the nodes that the loops of `gq_push` and `gq_extract` come to;
  `Side.push_isSome_iff`, `Side.pop_isSome_iff`: they return exactly when these exist.  The loops do
  not change the links that they follow, so the nodes can be told beforehand.
* `TreeFits`: the trees have room for the buckets, and the loops stay within them.  In the trees of
  `gq_init` the nodes visited are the ancestors of the bucket (`visited_eq`), so the second part
  follows from the first.
* `room_iff`: the depth is the logarithm of the number of buckets over that of `32`, rounded up, but
  of rounded logarithms: it is too small just above a power of `32`, up to its double.
* `tree_fits_iff`: when they do; `tree_too_small`: `33` buckets.
-/

namespace Eiffel

open Gq Occupancy Dyadic

variable {P : Params} {s index : ℕ}

/-! ### The logarithm -/

/-- The mask and the shift of a round on words of `2^(j + 1)` bits. -/
def logMask (j : ℕ) : ℕ × ℕ := (2 ^ (2 ^ j + 2 ^ j) - 2 ^ 2 ^ j, 2 ^ j)

/-- A round halves the number of bits, and keeps the sum of what it found and what is left to
find. -/
lemma logRound_spec {j : ℕ} {st : ℕ × ℕ} (hx : st.1 < 2 ^ 2 ^ (j + 1)) (hr : 2 ^ (j + 1) ∣ st.2) :
    (logRound st (logMask j)).1 < 2 ^ 2 ^ j ∧ 2 ^ j ∣ (logRound st (logMask j)).2 ∧
      (logRound st (logMask j)).2 + Nat.log2 (logRound st (logMask j)).1
        = st.2 + Nat.log2 st.1 := by
  have hdouble : 2 ^ (j + 1) = 2 ^ j + 2 ^ j := by rw [pow_succ]; ring
  rw [hdouble] at hx
  have hhalf := land_upperHalf_eq_zero_iff hx
  have hdvd : 2 ^ j ∣ st.2 := (pow_dvd_pow 2 (Nat.le_succ j)).trans hr
  rw [logRound, logMask]
  dsimp only
  split
  · rename_i hupper
    have hge : 2 ^ 2 ^ j ≤ st.1 := not_lt.mp fun hlt => hupper (hhalf.mpr hlt)
    obtain ⟨b, hb⟩ := hr
    have hor : st.2 ||| 2 ^ j = st.2 + 2 ^ j := by
      rw [hb]
      exact (Nat.two_pow_add_eq_or_of_lt (Nat.pow_lt_pow_right (by norm_num) (Nat.lt_succ_self j))
        b).symm
    refine ⟨?_, ?_, ?_⟩
    · rw [Nat.shiftRight_eq_div_pow]
      refine Nat.div_lt_of_lt_mul ?_
      rwa [← pow_add]
    · rw [hor]
      exact Nat.dvd_add hdvd dvd_rfl
    · dsimp only
      rw [hor, Nat.add_assoc, log2_shiftRight hge]
  · rename_i hlower
    exact ⟨hhalf.mp (not_not.mp hlower), hdvd, rfl⟩

/-- The rounds on words of `2^n` bits, by induction on `n`. -/
lemma logRounds_spec : ∀ (n : ℕ) {st : ℕ × ℕ}, st.1 < 2 ^ 2 ^ n → 2 ^ n ∣ st.2 →
    (((List.range n).reverse.map logMask).foldl logRound st).2 = st.2 + Nat.log2 st.1 := by
  intro n
  induction n with
  | zero =>
      intro st hx _
      have hlog : Nat.log2 st.1 = 0 := by
        rcases Nat.eq_zero_or_pos st.1 with hzero | hpos
        · rw [hzero, Nat.log2_zero]
        · have hone : st.1 = 1 := by norm_num at hx; omega
          rw [hone]
          decide
      rw [hlog]
      rfl
  | succ n ih =>
      intro st hx hr
      obtain ⟨hx', hr', hsum⟩ := logRound_spec hx hr
      rw [List.range_succ, List.reverse_append, List.reverse_singleton, List.singleton_append,
        List.map_cons, List.foldl_cons, ih hx' hr', hsum]

/-- **`log_approx`** is the logarithm, rounded down, of a word of 32 bits. -/
lemma logApprox_eq (v : ℕ) : logApprox v = Nat.log2 (v % 2 ^ 32) := by
  have hrounds : [(0xFFFF0000, 16), (0xFF00, 8), (0xF0, 4), (0xC, 2), (0x2, 1)]
      = (List.range 5).reverse.map logMask := by decide
  have hlt : v % 2 ^ 32 < 2 ^ 2 ^ 5 := Nat.mod_lt _ (by norm_num)
  rw [logApprox, hrounds, logRounds_spec 5 hlt (dvd_zero _), Nat.zero_add]

/-! ### The loops over the ancestors -/

/-- The node that a loop is at after `k` links from `parentI`. -/
def visited (tree : ℕ → CurvatureDesc) (parentI k : ℕ) : ℕ :=
  (fun n => (tree n).abcI)^[k] parentI

/-- **A loop over the ancestors** returns exactly when the nodes it comes to exist, by induction on
its rounds. -/
lemma climb_isSome_iff (visit : Bool → ℕ → CurvatureDesc → CurvatureDesc)
    (stop : CurvatureDesc → Bool) (hlink : ∀ done wI node, (visit done wI node).abcI = node.abcI) :
    ∀ (n parentI wI : ℕ) (done : Bool) (tree : ℕ → CurvatureDesc),
      (climb s visit stop n parentI wI done tree).isSome = true ↔
        ∀ k < n, visited tree parentI k < s := by
  intro n
  induction n with
  | zero =>
      intro parentI wI done tree
      exact iff_of_true rfl fun k hk => absurd hk (Nat.not_lt_zero k)
  | succ n ih =>
      intro parentI wI done tree
      rw [climb, Nat.forall_lt_succ_left]
      have hstart : visited tree parentI 0 = parentI := rfl
      rw [hstart]
      split
      · rename_i hge
        exact iff_of_false (by simp) fun hall => absurd hall.1 (not_lt.mpr hge)
      · rename_i hlt
        rw [and_iff_right (not_le.mp hlt)]
        dsimp only
        rw [ih, hlink]
        -- the links are the same in the changed tree
        have hsame : (fun m => (Function.update tree parentI (visit done wI (tree parentI)) m).abcI)
            = fun m => (tree m).abcI := by
          funext m
          rcases eq_or_ne m parentI with rfl | hne
          · rw [Function.update_self, hlink]
          · rw [Function.update_of_ne hne]
        refine forall₂_congr fun k _ => ?_
        rw [visited, hsame]
        rfl

/-- A loop that runs only for an empty bucket. -/
lemma ite_climb_isSome_iff (visit : Bool → ℕ → CurvatureDesc → CurvatureDesc)
    (stop : CurvatureDesc → Bool) (hlink : ∀ done wI node, (visit done wI node).abcI = node.abcI)
    (empty : Prop) [Decidable empty] (n parentI wI : ℕ) (tree : ℕ → CurvatureDesc) :
    (if empty then climb s visit stop n parentI wI false tree else some tree).isSome = true ↔
      (empty → ∀ k < n, visited tree parentI k < s) := by
  split
  · rename_i hempty
    rw [forall_prop_of_true hempty]
    exact climb_isSome_iff visit stop hlink n parentI wI false tree
  · rename_i hfull
    exact iff_of_true rfl fun hempty => absurd hempty hfull

/-- A push into an array returns exactly when the bucket exists, and so do the nodes above it if
the bucket is empty. -/
lemma Side.push_isSome_iff (gq : GradientQueue) (side : Side) (index : ℕ) (skb : SkBuff) :
    (side.push gq index skb).isSome = true ↔ index < gq.numOfBuckets ∧
      ((side.buckets index).qlen = 0 → ∀ k < gq.l,
        visited side.tree ((gq.s + index + 2 ^ 64 - 1) % 2 ^ 64 / gq.w) k < gq.s) := by
  rw [Side.push]
  split
  · rename_i hge
    exact iff_of_false (by simp) fun hall => absurd hall.1 (not_lt.mpr hge)
  · rename_i hlt
    rw [and_iff_right (not_le.mp hlt), Option.isSome_map]
    exact ite_climb_isSome_iff mark _ (fun _ _ _ => rfl) _ gq.l _ _ side.tree

/-- A pop from an array returns exactly when the bucket exists, and so do the nodes above it if
the bucket is left empty. -/
lemma Side.pop_isSome_iff (gq : GradientQueue) (side : Side) (index : ℕ) :
    (side.pop gq index).isSome = true ↔ index < gq.numOfBuckets ∧
      ((gqBucketDequeueHead (side.buckets index)).2.qlen = 0 → ∀ k < gq.l,
        visited side.tree ((gq.s + index + 2 ^ 64 - 1) % 2 ^ 64 / gq.w) k < gq.s) := by
  rw [Side.pop]
  split
  · rename_i hge
    exact iff_of_false (by simp) fun hall => absurd hall.1 (not_lt.mpr hge)
  · rename_i hlt
    rw [and_iff_right (not_le.mp hlt)]
    dsimp only
    rw [Option.isSome_map]
    exact ite_climb_isSome_iff clear _ (fun _ _ _ => rfl) _ gq.l _ _ side.tree

/-! ### The size -/

/-- The loop of `gq_init` that computes `w^l`. -/
def powLoop : ℕ → ℕ
  | 0 => 1
  | i + 1 => powLoop i * base % 2 ^ 64

/-- `s`, as `gq_init` computes it. -/
def nodesLoop (P : Params) : ℕ := (powLoop (levels P) + 2 ^ 64 - 1) % 2 ^ 64 / (base - 1)

/-- The node where the loops for a bucket begin. -/
def firstParent (P : Params) (index : ℕ) : ℕ := (nodesLoop P + index + 2 ^ 64 - 1) % 2 ^ 64 / base

/-- The trees of `gq_init` have room for the buckets, and the loops of `gq_push` and `gq_extract`
stay within them. -/
structure TreeFits (P : Params) : Prop where
  room : numBuckets P ≤ base ^ levels P
  count : nodesLoop P = (base ^ levels P - 1) / (base - 1)
  visits : ∀ index < numBuckets P, ∀ k < levels P,
    visited initNode (firstParent P index) k < nodesLoop P

/-- The numbers of buckets for which the depth is enough: below `2^32` all that do not lie between
a power of `32` and its double; beyond, up to `2^35`, those that leave at least `2^31` in 32
bits. -/
def Sizable (nb : ℕ) : Prop :=
  nb < 2 ^ 32 ∧ (∀ m < 7, ¬ (base ^ m < nb ∧ nb < 2 * base ^ m)) ∨
    2 ^ 32 ≤ nb ∧ nb ≤ 2 ^ 35 ∧ 2 ^ 31 ≤ nb % 2 ^ 32

instance (nb : ℕ) : Decidable (Sizable nb) := inferInstanceAs (Decidable (_ ∨ _))

/-- The loop computes the power, by induction on its rounds. -/
lemma powLoop_eq : ∀ {l : ℕ}, l ≤ 12 → powLoop l = base ^ l := by
  intro l
  induction l with
  | zero => exact fun _ => rfl
  | succ l ih =>
      intro hl
      have hle : base ^ (l + 1) ≤ base ^ 12 := Nat.pow_le_pow_right (by decide) hl
      have hword : base ^ 12 < 2 ^ 64 := by decide
      rw [powLoop, ih (Nat.le_of_succ_le hl), ← pow_succ, Nat.mod_eq_of_lt (hle.trans_lt hword)]

/-- The power is a word. -/
lemma base_pow_levels_lt (P : Params) : base ^ levels P < 2 ^ 64 :=
  (Nat.pow_le_pow_right (by decide) (levels_le P)).trans_lt (by decide : base ^ 7 < 2 ^ 64)

/-- Subtracting `1` from a positive word. -/
lemma pred_word {n : ℕ} (hpos : 0 < n) (hlt : n < 2 ^ 64) : (n + 2 ^ 64 - 1) % 2 ^ 64 = n - 1 := by
  omega

lemma nodesLoop_eq (P : Params) : nodesLoop P = nodes P := by
  have hpow : powLoop (levels P) = base ^ levels P := powLoop_eq ((levels_le P).trans (by decide))
  have hpred := pred_word (pow_pos (by decide) _) (base_pow_levels_lt P)
  rw [nodesLoop, nodes, hpow, hpred]

/-- The depth: the logarithm of the number of buckets in 32 bits by that of `32`, rounded up. -/
lemma levels_eq (P : Params) : levels P = (Nat.log2 (numBuckets P % 2 ^ 32) + 4) / 5 := by
  rw [levels, logApprox_eq, show logApprox base = 5 by decide, Nat.add_sub_assoc (by norm_num)]

lemma base_pow (m : ℕ) : base ^ m = 2 ^ (5 * m) := by
  rw [pow_mul]
  rfl

/-- **The depth** is enough for these numbers of buckets. -/
lemma room_iff (P : Params) : numBuckets P ≤ base ^ levels P ↔ Sizable (numBuckets P) := by
  set nb := numBuckets P with hnb
  rw [levels_eq, ← hnb, base_pow, Sizable]
  rcases Nat.lt_or_ge nb (2 ^ 32) with hsmall | hlarge
  · rw [Nat.mod_eq_of_lt hsmall, and_iff_right hsmall, or_iff_left (by omega)]
    rcases Nat.eq_zero_or_pos nb with hzero | hpos
    · rw [hzero]
      exact iff_of_true (Nat.zero_le _) fun m _ hm => absurd hm.1 (Nat.not_lt_zero _)
    have hfloor := Nat.log2_self_le hpos.ne'
    have hceil : nb < 2 ^ (Nat.log2 nb + 1) := Nat.lt_log2_self
    constructor
    · rintro hle m - ⟨hlt, hdouble⟩
      rw [base_pow] at hlt hdouble
      -- such a number has the logarithm `5 * m`
      have hlog : Nat.log2 nb = 5 * m :=
        (Nat.log2_eq_iff hpos.ne').mpr ⟨hlt.le, by rw [pow_succ]; omega⟩
      rw [hlog, show (5 * m + 4) / 5 = m by omega] at hle
      omega
    · intro hall
      by_contra hgt
      have hgt := not_le.mp hgt
      have hmul : 5 * ((Nat.log2 nb + 4) / 5) ≤ Nat.log2 nb := by
        by_contra hmore
        have hle : 2 ^ (Nat.log2 nb + 1) ≤ 2 ^ (5 * ((Nat.log2 nb + 4) / 5)) :=
          Nat.pow_le_pow_right (by norm_num) (not_le.mp hmore)
        omega
      have hexact : Nat.log2 nb = 5 * ((Nat.log2 nb + 4) / 5) := by omega
      have hlog : Nat.log2 nb < 32 := (Nat.log2_lt hpos.ne').mpr hsmall
      refine hall ((Nat.log2 nb + 4) / 5) (by omega) ⟨?_, ?_⟩
      · rw [base_pow]
        exact hgt
      · rw [base_pow, ← hexact, ← pow_succ']
        exact hceil
  · rw [or_iff_right (by omega), and_iff_right hlarge]
    set v := nb % 2 ^ 32 with hv
    have hvlt : v < 2 ^ 32 := Nat.mod_lt _ (by norm_num)
    rcases Nat.lt_or_ge v (2 ^ 31) with hlow | hhigh
    · refine iff_of_false (fun hle => ?_) fun hcon => absurd hcon.2 (not_le.mpr hlow)
      have hlog : Nat.log2 v ≤ 30 := by
        rcases Nat.eq_zero_or_pos v with hzero | hpos
        · rw [hzero, Nat.log2_zero]
          exact Nat.zero_le _
        · exact Nat.lt_succ_iff.mp ((Nat.log2_lt hpos.ne').mpr hlow)
      have hpow : 2 ^ (5 * ((Nat.log2 v + 4) / 5)) ≤ 2 ^ 30 :=
        Nat.pow_le_pow_right (by norm_num) (by omega)
      omega
    · have hlog : Nat.log2 v = 31 := (Nat.log2_eq_iff (by omega)).mpr ⟨hhigh, hvlt⟩
      rw [hlog, and_iff_left hhigh]

/-- The nodes that the loops come to are the ancestors of the bucket. -/
lemma visited_eq (hindex : index < base ^ levels P) : ∀ {k : ℕ}, k < levels P →
    visited initNode (firstParent P index) k = ancestor base (levels P) (k + 1) index := by
  have hbase : 0 < base := by decide
  have hs : start base (levels P) < 2 ^ 31 := nodes_eq P ▸ nodes_lt P
  have hword : base ^ levels P ≤ 2 ^ 35 := by
    rw [base_pow]
    exact Nat.pow_le_pow_right (by norm_num) (by have := levels_le P; omega)
  intro k
  induction k with
  | zero =>
      intro hk
      have hpos := @ancestor_pos base _ _ hk index
      have hlink := (ancestor_parent hbase hk index).1
      rw [ancestor_zero] at hpos hlink
      rw [visited, Function.iterate_zero_apply, firstParent, nodesLoop_eq, nodes_eq,
        pred_word hpos (by omega), hlink]
  | succ k ih =>
      intro hk
      have hlt := ancestor_lt hbase hindex (Nat.lt_of_succ_lt hk)
      rw [visited, Function.iterate_succ_apply', ← visited, ih (Nat.lt_of_succ_lt hk), initNode]
      dsimp only
      rw [pred_word (ancestor_pos hk index) (by omega), (ancestor_parent hbase hk index).1]

/-- **The size of the trees** is right exactly for these numbers of buckets. -/
theorem tree_fits_iff (P : Params) : TreeFits P ↔ Sizable (numBuckets P) := by
  rw [← room_iff]
  constructor
  · exact TreeFits.room
  · intro hroom
    refine ⟨hroom, nodesLoop_eq P, fun index hindex k hk => ?_⟩
    have hlt := hindex.trans_le hroom
    rw [visited_eq hlt hk, nodesLoop_eq, nodes_eq]
    exact ancestor_lt (by decide) hlt hk

/-- A granularity of `30` milliseconds and a horizon of one second: `33` buckets. -/
def moreThanLeaves : Params :=
  { gsoSplit := false, granularity := 30000000, horizon := 1
    granularity_lt := by norm_num, horizon_lt := second_horizon_lt }

/-- The trees for `33` buckets have one level, which is enough for `32`. -/
theorem tree_too_small :
    ¬ ∀ P : Params, 1 ≤ P.granularity → 1 ≤ P.horizon → TreeFits P := by
  intro hall
  have hroom := (hall moreThanLeaves (by decide) (by decide)).room
  exact absurd hroom (by decide)

end Eiffel
