import FlowBundler.Lib.Occupancy

/-!
Layered bitmaps of a set of numbers: words of `w` bits, where bit `j` of word `p` at height `k`
says that a member lies below child `j` of that word.

* `BitOk w F k p a`: `a` is the right word.
* `BitOk.ne_zero_iff`: a word is not `0` exactly when a member lies below it.
* `insert_self`, `insert_of_ne`, `insert_of_mem`: a new member sets a bit in the words above it,
  up to the first word that is not `0` already.
* `erase_self`, `erase_of_ne`, `erase_of_mem`: a member less clears a bit in the words above it,
  up to the first word that keeps another bit.
* `first_eq`: the lowest bit of a word above the least member leads to it.

A word depends only on which children have members below them.  So a change of the set is seen by a
word only if it gives a child its first member, or takes its last one: the loops that climb from a
leaf may stop at the first word that had another bit, and above it the words are right for both
sets.
-/

namespace Layers

open Dyadic Occupancy

/-- The word `a` at height `k` and position `p` is right for the set `F`. -/
def BitOk (w : ℕ) (F : Finset ℕ) (k p a : ℕ) : Prop :=
  ∀ j, a.testBit j = true ↔ j < w ∧ ∃ x ∈ F, x / w ^ k = w * p + j

variable {w k p a x : ℕ} {F : Finset ℕ}

/-- Numbers that share a place at a height share it above that height. -/
lemma mem_above {l : ℕ} (hle : k ≤ l) (hmem : ∃ y ∈ F, y / w ^ k = x / w ^ k) :
    ∃ y ∈ F, y / w ^ l = x / w ^ l := by
  obtain ⟨y, hy, hq⟩ := hmem
  refine ⟨y, hy, ?_⟩
  rw [← Nat.add_sub_cancel' hle, pow_add, ← Nat.div_div_eq_div_mul, ← Nat.div_div_eq_div_mul, hq]

namespace BitOk

/-- A right word with the count of the members below it is a right node of the occupancy tree. -/
lemma node (h : BitOk w F k p a) :
    NodeOk w F k p a (F.filter fun x => x / w ^ (k + 1) = p).card := ⟨rfl, h⟩

lemma empty (w k p : ℕ) : BitOk w ∅ k p 0 := fun j => by simp

/-- The word above a member has its bit set. -/
lemma testBit_of_mem (h : BitOk w F k p a) (hw : 0 < w) (hx : x ∈ F) (hp : x / w ^ (k + 1) = p) :
    a.testBit (x / w ^ k % w) = true := by
  refine (h _).mpr ⟨Nat.mod_lt _ hw, x, hx, ?_⟩
  rw [← hp]
  exact (child_eq w x k).symm

/-- A word is not `0` exactly when a member lies below it. -/
lemma ne_zero_iff (h : BitOk w F k p a) (hw : 0 < w) :
    a ≠ 0 ↔ ∃ x ∈ F, x / w ^ (k + 1) = p := by
  constructor
  · intro hne
    obtain ⟨j, hj⟩ := Nat.exists_testBit_of_ne_zero hne
    obtain ⟨hlt, x, hx, hq⟩ := (h j).mp hj
    refine ⟨x, hx, ?_⟩
    rw [← div_div, hq, Nat.mul_add_div hw, Nat.div_eq_of_lt hlt, Nat.add_zero]
  · rintro ⟨x, hx, hp⟩ rfl
    have hbit := h.testBit_of_mem hw hx hp
    simp at hbit

/-- Words below which the same children have members. -/
lemma congr {G : Finset ℕ} (h : BitOk w F k p a)
    (hsame : ∀ y, (∃ x ∈ G, x / w ^ k = y) ↔ ∃ x ∈ F, x / w ^ k = y) : BitOk w G k p a := by
  intro j
  rw [h, hsame]

/-- **A new member** below the word sets the bit of its child. -/
lemma insert_self (h : BitOk w F k (x / w ^ (k + 1)) a) (hw : 0 < w) :
    BitOk w (insert x F) k (x / w ^ (k + 1)) (a ||| 1 <<< (x / w ^ k % w)) := by
  have hchild := child_eq w x k
  intro j
  have hbits : (a ||| 1 <<< (x / w ^ k % w)).testBit j = true ↔
      a.testBit j = true ∨ x / w ^ k % w = j := by
    rw [Nat.testBit_or, Nat.one_shiftLeft, Nat.testBit_two_pow]
    simp
  rw [hbits, h]
  constructor
  · rintro (⟨hj, y, hy, hq⟩ | rfl)
    · exact ⟨hj, y, Finset.mem_insert_of_mem hy, hq⟩
    · exact ⟨Nat.mod_lt _ hw, x, Finset.mem_insert_self x F, hchild.symm⟩
  · rintro ⟨hj, y, hy, hq⟩
    rcases Finset.mem_insert.mp hy with rfl | hy
    · exact .inr (by omega)
    · exact .inl ⟨hj, y, hy, hq⟩

lemma insert_of_ne (h : BitOk w F k p a) (hw : 0 < w) (hp : x / w ^ (k + 1) ≠ p) :
    BitOk w (insert x F) k p a := (h.node.insert_of_ne hw hp).bit

/-- A new member in a place that has one already changes no word above that place. -/
lemma insert_of_mem (h : BitOk w F k p a) (hmem : ∃ y ∈ F, y / w ^ k = x / w ^ k) :
    BitOk w (insert x F) k p a := by
  refine h.congr fun z => ⟨?_, fun ⟨y, hy, hq⟩ => ⟨y, Finset.mem_insert_of_mem hy, hq⟩⟩
  rintro ⟨y, hy, hq⟩
  rcases Finset.mem_insert.mp hy with rfl | hy
  · obtain ⟨z', hz', hzq⟩ := hmem
    exact ⟨z', hz', hzq.trans hq⟩
  · exact ⟨y, hy, hq⟩

/-- **A member less** below the word clears the bit of its child, when that has no other one;
a number that was no member has no bit to clear. -/
lemma erase_self (h : BitOk w F k (x / w ^ (k + 1)) a) (hw : 0 < w) (hw64 : w ≤ 64)
    (hno : ¬ ∃ y ∈ F.erase x, y / w ^ k = x / w ^ k) :
    BitOk w (F.erase x) k (x / w ^ (k + 1)) (a &&& (2 ^ 64 - 1 - 1 <<< (x / w ^ k % w))) := by
  have hchild := child_eq w x k
  have hlt : x / w ^ k % w < 64 := lt_of_lt_of_le (Nat.mod_lt _ hw) hw64
  intro j
  rw [testBit_clear hlt fun i hi => lt_of_lt_of_le ((h i).mp hi).1 hw64,
    Bool.and_eq_true, decide_eq_true_eq, h]
  constructor
  · rintro ⟨⟨hj, y, hy, hq⟩, hne⟩
    have hyx : y ≠ x := by
      rintro rfl
      omega
    exact ⟨hj, y, Finset.mem_erase.mpr ⟨hyx, hy⟩, hq⟩
  · rintro ⟨hj, y, hy, hq⟩
    refine ⟨⟨hj, y, Finset.mem_of_mem_erase hy, hq⟩, ?_⟩
    rintro rfl
    exact hno ⟨y, hy, by rw [hq, hchild]⟩

lemma erase_of_ne (h : BitOk w F k p a) (hw : 0 < w) (hp : x / w ^ (k + 1) ≠ p) :
    BitOk w (F.erase x) k p a := (h.node.erase_of_ne hw hp).bit

/-- A member less in a place that keeps one changes no word above that place. -/
lemma erase_of_mem (h : BitOk w F k p a) (hmem : ∃ y ∈ F.erase x, y / w ^ k = x / w ^ k) :
    BitOk w (F.erase x) k p a := by
  refine h.congr fun z => ⟨fun ⟨y, hy, hq⟩ => ⟨y, Finset.mem_of_mem_erase hy, hq⟩, ?_⟩
  rintro ⟨y, hy, hq⟩
  by_cases hyx : y = x
  · obtain ⟨z', hz', hzq⟩ := hmem
    exact ⟨z', hz', by rw [hzq, ← hyx, hq]⟩
  · exact ⟨y, Finset.mem_erase.mpr ⟨hyx, hy⟩, hq⟩

/-- **The lowest bit** of a word above the least member leads to it. -/
lemma first_eq (h : BitOk w F k p a) (hw : 0 < w) (hw64 : w ≤ 64) (hx : x ∈ F)
    (hleast : ∀ y ∈ F, x ≤ y) (hp : x / w ^ (k + 1) = p) : w * p + lowBit 64 a = x / w ^ k :=
  h.node.lowBit_eq hw hw64 hx hleast hp

end BitOk

end Layers
