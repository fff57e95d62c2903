import FlowBundler.Lib.Dyadic

/-!
The occupancy tree of a set of numbers: a complete `w`-ary tree whose leaves are the numbers below
`w^l`, and whose inner nodes count the members below them and have a bit for each child with a
member below it.

* `start w d`: the number of nodes above level `d`, which is the number of the first node of that
  level when the root is `0` and the children of `n` are `w * n + 1, …, w * n + w`.
* `ancestor w l k i`: the node at height `k` above the leaf `i`; `ancestor_parent`,
  `ancestor_child`: climbing and descending.
* `Above w l n x`: node `n` is on the path from `x` to the root; `exists_level`, `above_leaf_iff`:
  nodes and paths by height and position.
* `NodeOk w F k p a c`: the node at height `k + 1` and position `p` has the right word and count;
  `count_above`, `bit_above`: the same by paths.
* `insert_self`, `erase_self`: what a member more or less does to a node above it, `insert_of_ne`,
  `erase_of_ne`: and to the others; `lowBit_eq`: the first child with a member.

Nodes are addressed by height and position: the position of the ancestor of leaf `i` at height `k`
is `i / w ^ k`, so climbing is dividing and descending is multiplying.  An insertion that has met a
child with a member leaves the bits above alone, as these are set already, and only counts; likewise
an erasure that leaves a member below a child.  Both facts hold for each node by itself, from the
members below it, and no proof follows the loops of an implementation.
-/

namespace Occupancy

open Dyadic

variable {w l k i p : ℕ}

/-! ### Numbering -/

/-- The number of nodes above level `d`. -/
def start (w : ℕ) : ℕ → ℕ
  | 0 => 0
  | d + 1 => w * start w d + 1

lemma start_add_pow (w d : ℕ) : start w d + w ^ d = start w (d + 1) := by
  induction d with
  | zero => rfl
  | succ d ih => rw [start, start, ← ih, pow_succ]; ring

/-- The closed form. -/
lemma start_eq (hw : 2 ≤ w) (d : ℕ) : (w ^ d - 1) / (w - 1) = start w d := by
  have hmul : (w - 1) * start w d + 1 = w ^ d := by
    induction d with
    | zero => rfl
    | succ d ih =>
        calc (w - 1) * (w * start w d + 1) + 1 = w * ((w - 1) * start w d + 1) := by
              obtain ⟨v, rfl⟩ : ∃ v, w = v + 1 := ⟨w - 1, by omega⟩
              rw [Nat.add_sub_cancel]
              ring
          _ = w ^ (d + 1) := by rw [ih, pow_succ, Nat.mul_comm]
  rw [← hmul, Nat.add_sub_cancel]
  exact Nat.mul_div_cancel_left _ (by omega)

lemma start_mono (hw : 0 < w) {d d' : ℕ} (h : d ≤ d') : start w d ≤ start w d' := by
  induction h with
  | refl => exact le_rfl
  | @step m _ ih =>
      rw [start]
      exact ih.trans (Nat.le_succ_of_le (Nat.le_mul_of_pos_left _ hw))

/-- The levels do not overlap. -/
lemma level_unique (hw : 0 < w) {d d' q : ℕ} (hp : p < w ^ d) (hq : q < w ^ d')
    (h : start w d + p = start w d' + q) : d = d' ∧ p = q := by
  have hpd := start_add_pow w d
  have hqd := start_add_pow w d'
  have hlevel : d = d' := by
    rcases lt_trichotomy d d' with hlt | heq | hlt
    · have hle : start w (d + 1) ≤ start w d' := start_mono hw hlt
      omega
    · exact heq
    · have hle : start w (d' + 1) ≤ start w d := start_mono hw hlt
      omega
  subst hlevel
  exact ⟨rfl, by omega⟩

lemma div_div (w x k : ℕ) : x / w ^ k / w = x / w ^ (k + 1) := by
  rw [Nat.div_div_eq_div_mul, pow_succ]

lemma div_lt_pow (hi : i < w ^ l) (hk : k < l) : i / w ^ (k + 1) < w ^ (l - (k + 1)) := by
  refine Nat.div_lt_of_lt_mul ?_
  rw [← pow_add, Nat.add_sub_cancel' hk]
  exact hi

/-- The node at height `k` above a leaf. -/
def ancestor (w l k i : ℕ) : ℕ := start w (l - k) + i / w ^ k

lemma ancestor_zero (w l i : ℕ) : ancestor w l 0 i = start w l + i := by
  rw [ancestor, Nat.sub_zero, pow_zero, Nat.div_one]

lemma ancestor_self (hi : i < w ^ l) : ancestor w l l i = 0 := by
  rw [ancestor, Nat.sub_self, Nat.div_eq_of_lt hi]
  rfl

/-- The level below. -/
lemma start_sub (hk : k < l) : start w (l - k) = w * start w (l - (k + 1)) + 1 := by
  rw [show l - k = l - (k + 1) + 1 by omega, start]

lemma ancestor_pos (hk : k < l) (i : ℕ) : 0 < ancestor w l k i := by
  rw [ancestor, start_sub hk]
  exact Nat.add_pos_left (Nat.succ_pos _) _

/-- Climbing one level. -/
lemma ancestor_parent (hw : 0 < w) (hk : k < l) (i : ℕ) :
    (ancestor w l k i - 1) / w = ancestor w l (k + 1) i ∧
      (ancestor w l k i - 1) % w = i / w ^ k % w := by
  have hnum : ancestor w l k i - 1 = i / w ^ k + w * start w (l - (k + 1)) := by
    rw [ancestor, start_sub hk, Nat.add_right_comm, Nat.add_sub_cancel, Nat.add_comm]
  rw [hnum, Nat.add_mul_div_left _ _ hw, Nat.add_mul_mod_self_left, div_div, ancestor, Nat.add_comm]
  exact ⟨rfl, rfl⟩

/-- Descending one level, to the child that leads to the leaf. -/
lemma ancestor_child (hk : k < l) {j : ℕ} (hj : w * (i / w ^ (k + 1)) + j = i / w ^ k) :
    w * ancestor w l (k + 1) i + j + 1 = ancestor w l k i := by
  rw [ancestor, ancestor, start_sub hk, ← hj]
  ring

lemma ancestor_lt (hw : 0 < w) (hi : i < w ^ l) (hk : k < l) :
    ancestor w l (k + 1) i < start w l := by
  have hlt := div_lt_pow hi hk
  have hend := start_add_pow w (l - (k + 1))
  have hmono := start_mono hw (show l - (k + 1) + 1 ≤ l by omega)
  rw [ancestor]
  omega

/-! ### Paths -/

/-- The parent of a node; the root is its own. -/
def parent (w x : ℕ) : ℕ := (x - 1) / w

/-- The node `n` is at most `l` steps above `x`. -/
def Above (w l n x : ℕ) : Prop := ∃ k, k ≤ l ∧ (parent w)^[k] x = n

instance (w l n x : ℕ) : Decidable (Above w l n x) :=
  inferInstanceAs (Decidable (∃ k, k ≤ l ∧ _))

/-- The path from a leaf, by induction on its length. -/
lemma parent_iterate (hw : 0 < w) (i : ℕ) : ∀ {k : ℕ}, k ≤ l →
    (parent w)^[k] (start w l + i) = ancestor w l k i := by
  intro k
  induction k with
  | zero =>
      intro _
      rw [Function.iterate_zero_apply, ancestor_zero]
  | succ k ih =>
      intro hk
      rw [Function.iterate_succ_apply', ih (Nat.le_of_succ_le hk), parent,
        (ancestor_parent hw hk i).1]

/-- Every node has a height and a position, by induction on the levels. -/
lemma exists_level (w : ℕ) {n : ℕ} : ∀ {l : ℕ}, n < start w l →
    ∃ k < l, ∃ p < w ^ (l - (k + 1)), n = start w (l - (k + 1)) + p := by
  intro l
  induction l with
  | zero => exact fun h => absurd h (Nat.not_lt_zero n)
  | succ l ih =>
      intro h
      rw [← start_add_pow] at h
      rcases Nat.lt_or_ge n (start w l) with hlt | hge
      · obtain ⟨k, hk, p, hp, heq⟩ := ih hlt
        refine ⟨k + 1, Nat.succ_lt_succ hk, p, ?_, ?_⟩
        · rwa [Nat.add_sub_add_right]
        · rwa [Nat.add_sub_add_right]
      · exact ⟨0, Nat.succ_pos l, n - start w l, by rw [Nat.zero_add, Nat.add_sub_cancel]; omega,
          by rw [Nat.zero_add, Nat.add_sub_cancel]; omega⟩

/-- **Paths** by height and position. -/
lemma above_leaf_iff (hw : 0 < w) (hi : i < w ^ l) (hk : k ≤ l) (hp : p < w ^ (l - k)) :
    Above w l (start w (l - k) + p) (start w l + i) ↔ i / w ^ k = p := by
  constructor
  · rintro ⟨m, hm, hpath⟩
    rw [parent_iterate hw i hm, ancestor] at hpath
    have hlt : i / w ^ m < w ^ (l - m) := by
      refine Nat.div_lt_of_lt_mul ?_
      rwa [← pow_add, Nat.add_sub_cancel' hm]
    obtain ⟨hlevel, hpos⟩ := level_unique hw hlt hp hpath
    rw [show k = m by omega]
    exact hpos
  · intro hpos
    exact ⟨k, hk, by rw [parent_iterate hw i hk, ancestor, hpos]⟩

/-- The number of a child. -/
lemma child_number (hk : k < l) (p j : ℕ) :
    w * (start w (l - (k + 1)) + p) + j + 1 = start w (l - k) + (w * p + j) := by
  rw [start_sub hk]
  ring

/-! ### Words and counts -/

/-- The node at height `k + 1` and position `p` has the right word and count. -/
structure NodeOk (w : ℕ) (F : Finset ℕ) (k p a c : ℕ) : Prop where
  count : c = (F.filter fun x => x / w ^ (k + 1) = p).card
  bit : ∀ j, a.testBit j = true ↔ j < w ∧ ∃ x ∈ F, x / w ^ k = w * p + j

/-- The position of a child in its parent. -/
lemma child_eq (w i k : ℕ) : w * (i / w ^ (k + 1)) + i / w ^ k % w = i / w ^ k := by
  rw [← div_div]
  exact Nat.div_add_mod _ _

namespace NodeOk

variable {F : Finset ℕ} {a c : ℕ}

lemma empty (w k p : ℕ) : NodeOk w ∅ k p 0 0 := ⟨by simp, by simp⟩

/-- The count of a node, by paths. -/
lemma count_above (h : NodeOk w F k p a c) (hw : 0 < w) (hF : ∀ x ∈ F, x < w ^ l) (hk : k < l)
    (hp : p < w ^ (l - (k + 1))) :
    c = (F.filter fun x => Above w l (start w (l - (k + 1)) + p) (start w l + x)).card := by
  rw [h.count]
  exact congrArg Finset.card (Finset.filter_congr fun x hx =>
    (above_leaf_iff hw (hF x hx) hk hp).symm)

/-- The bits of a node, by paths. -/
lemma bit_above (h : NodeOk w F k p a c) (hw : 0 < w) (hF : ∀ x ∈ F, x < w ^ l) (hk : k < l)
    (hp : p < w ^ (l - (k + 1))) (j : ℕ) :
    a.testBit j = true ↔ j < w ∧
      ∃ x ∈ F, Above w l (w * (start w (l - (k + 1)) + p) + j + 1) (start w l + x) := by
  rw [h.bit, child_number hk]
  refine and_congr_right fun hj => exists_congr fun x => and_congr_right fun hx =>
    (above_leaf_iff hw (hF x hx) hk.le ?_).symm
  calc w * p + j < w * (p + 1) := by rw [Nat.mul_succ]; exact Nat.add_lt_add_left hj _
    _ ≤ w * w ^ (l - (k + 1)) := Nat.mul_le_mul_left w hp
    _ = w ^ (l - k) := by rw [← pow_succ', show l - (k + 1) + 1 = l - k by omega]

/-- A node counts a member exactly when there is one below it. -/
lemma count_pos (h : NodeOk w F k p a c) : 0 < c ↔ ∃ x ∈ F, x / w ^ (k + 1) = p := by
  rw [h.count, Finset.card_pos, Finset.filter_nonempty_iff]

/-- A new member that is not below the node. -/
lemma insert_of_ne (h : NodeOk w F k p a c) (hw : 0 < w) (hp : i / w ^ (k + 1) ≠ p) :
    NodeOk w (insert i F) k p a c := by
  refine ⟨?_, fun j => ?_⟩
  · rw [Finset.filter_insert, if_neg hp]
    exact h.count
  · rw [h.bit]
    refine and_congr_right fun hj => ⟨fun ⟨x, hx, hq⟩ => ⟨x, Finset.mem_insert_of_mem hx, hq⟩, ?_⟩
    rintro ⟨x, hx, hq⟩
    rcases Finset.mem_insert.mp hx with rfl | hx
    · refine absurd ?_ hp
      rw [← div_div, hq, Nat.mul_add_div hw, Nat.div_eq_of_lt hj, Nat.add_zero]
    · exact ⟨x, hx, hq⟩

/-- A member less that is not below the node. -/
lemma erase_of_ne (h : NodeOk w F k p a c) (hw : 0 < w) (hp : i / w ^ (k + 1) ≠ p) :
    NodeOk w (F.erase i) k p a c := by
  refine ⟨?_, fun j => ?_⟩
  · rw [Finset.filter_erase, Finset.erase_eq_of_notMem]
    · exact h.count
    · simp [hp]
  · rw [h.bit]
    refine and_congr_right fun hj => ⟨?_, fun ⟨x, hx, hq⟩ => ⟨x, Finset.mem_of_mem_erase hx, hq⟩⟩
    rintro ⟨x, hx, hq⟩
    refine ⟨x, Finset.mem_erase.mpr ⟨?_, hx⟩, hq⟩
    rintro rfl
    refine hp ?_
    rw [← div_div, hq, Nat.mul_add_div hw, Nat.div_eq_of_lt hj, Nat.add_zero]

/-- **A new member** below the node: the count grows, and the bit of its child is set, unless the
child has a member already. -/
lemma insert_self (h : NodeOk w F k (i / w ^ (k + 1)) a c) (hw : 0 < w) (hi : i ∉ F) {done : Bool}
    (hdone : done = true ↔ ∃ x ∈ F, x / w ^ k = i / w ^ k) :
    NodeOk w (insert i F) k (i / w ^ (k + 1))
      (if done then a else a ||| 1 <<< (i / w ^ k % w)) (c + 1) := by
  have hchild := child_eq w i k
  refine ⟨?_, fun j => ?_⟩
  · rw [Finset.filter_insert, if_pos rfl, Finset.card_insert_of_notMem (by simp [hi]), ← h.count]
  · have hbits : (if done then a else a ||| 1 <<< (i / w ^ k % w)).testBit j = true ↔
        a.testBit j = true ∨ i / w ^ k % w = j := by
      cases hd : done with
      | false =>
          rw [if_neg (by simp), Nat.testBit_or, Nat.one_shiftLeft, Nat.testBit_two_pow]
          simp
      | true =>
          refine ⟨.inl, fun hor => hor.elim id fun hj => ?_⟩
          obtain ⟨x, hx, hq⟩ := hdone.mp hd
          rw [if_pos rfl, h.bit]
          exact ⟨hj ▸ Nat.mod_lt _ hw, x, hx, by rw [hq, ← hj, hchild]⟩
    rw [hbits, h.bit]
    constructor
    · rintro (⟨hj, x, hx, hq⟩ | rfl)
      · exact ⟨hj, x, Finset.mem_insert_of_mem hx, hq⟩
      · exact ⟨Nat.mod_lt _ hw, i, Finset.mem_insert_self i F, hchild.symm⟩
    · rintro ⟨hj, x, hx, hq⟩
      rcases Finset.mem_insert.mp hx with rfl | hx
      · exact .inr (by omega)
      · exact .inl ⟨hj, x, hx, hq⟩

/-- **A member less** below the node: the count shrinks, and the bit of its child is cleared,
unless the child has another member. -/
lemma erase_self (h : NodeOk w F k (i / w ^ (k + 1)) a c) (hw : 0 < w) (hw64 : w ≤ 64)
    (hi : i ∈ F) {done : Bool} (hdone : done = true ↔ ∃ x ∈ F.erase i, x / w ^ k = i / w ^ k) :
    NodeOk w (F.erase i) k (i / w ^ (k + 1))
      (if done then a else a &&& (2 ^ 64 - 1 - 1 <<< (i / w ^ k % w))) (c - 1) ∧ 0 < c := by
  have hchild := child_eq w i k
  have hmem : i ∈ F.filter fun x => x / w ^ (k + 1) = i / w ^ (k + 1) := by simp [hi]
  refine ⟨⟨?_, fun j => ?_⟩, h.count_pos.mpr ⟨i, hi, rfl⟩⟩
  · rw [Finset.filter_erase, Finset.card_erase_of_mem hmem, ← h.count]
  · have hbits : (if done then a else a &&& (2 ^ 64 - 1 - 1 <<< (i / w ^ k % w))).testBit j = true ↔
        a.testBit j = true ∧ (i / w ^ k % w = j → done = true) := by
      cases hd : done with
      | true => simp
      | false =>
          have hlt : i / w ^ k % w < 64 := lt_of_lt_of_le (Nat.mod_lt _ hw) hw64
          rw [if_neg (by simp),
            testBit_clear hlt fun j hj => lt_of_lt_of_le ((h.bit j).mp hj).1 hw64,
            Bool.and_eq_true, decide_eq_true_eq]
          refine and_congr_right fun ha => ⟨fun hj heq => absurd heq.symm hj, fun hj heq => ?_⟩
          exact absurd (hj heq.symm) (by simp)
    rw [hbits, h.bit]
    constructor
    · rintro ⟨⟨hj, x, hx, hq⟩, hself⟩
      refine ⟨hj, ?_⟩
      by_cases hxi : x = i
      · subst hxi
        obtain ⟨y, hy, hyq⟩ := hdone.mp (hself (by omega))
        exact ⟨y, hy, hyq.trans hq⟩
      · exact ⟨x, Finset.mem_erase.mpr ⟨hxi, hx⟩, hq⟩
    · rintro ⟨hj, x, hx, hq⟩
      exact ⟨⟨hj, x, Finset.mem_of_mem_erase hx, hq⟩, fun heq =>
        hdone.mpr ⟨x, hx, by rw [hq, ← heq, hchild]⟩⟩

/-- **The first child with a member** leads to the least member. -/
lemma lowBit_eq (h : NodeOk w F k p a c) (hw : 0 < w) (hw64 : w ≤ 64) {m : ℕ} (hm : m ∈ F)
    (hleast : ∀ x ∈ F, m ≤ x) (hp : m / w ^ (k + 1) = p) : w * p + lowBit 64 a = m / w ^ k := by
  have hchild := child_eq w m k
  rw [hp] at hchild
  have hbit : a.testBit (m / w ^ k % w) = true :=
    (h.bit _).mpr ⟨Nat.mod_lt _ hw, m, hm, hchild.symm⟩
  have hlt : m / w ^ k % w < 64 := lt_of_lt_of_le (Nat.mod_lt _ hw) hw64
  have hle := lowBit_le_of_testBit hbit hlt
  obtain ⟨-, x, hx, hq⟩ := (h.bit _).mp (lowBit_spec ⟨_, hlt, hbit⟩).1
  have hmono : m / w ^ k ≤ x / w ^ k := Nat.div_le_div_right (hleast x hx)
  omega

end NodeOk

end Occupancy
