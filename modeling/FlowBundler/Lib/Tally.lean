import FlowBundler.Lib.Dyadic
import FlowBundler.Lib.Ledger

/-!
The counters of a store with levels: a total, a counter for each level and a 64-bit map of
the occupied levels.

* `Tally lvl held total count bitmap`: the counters and the map say how many entries of
  `held` there are, and on which levels.
* `Tally.push`, `Tally.remove`: adding an entry, and removing entries of one level.
* `Tally.bitmap_eq_zero_iff`, `Tally.lowBit_le`: what the map answers.
* `Tally.count_eq_sum`, `Tally.total_eq_sum`: the counters as sums over the slots.

A removal takes entries of one level only, so one counter and at most one bit change; the bit goes
when the counter becomes `0`.  The answers are then read off the bits: the map is `0` when no level
has an entry, and its lowest bit is the lowest level that has one.
-/

namespace Ledger

open Dyadic

variable {ε : Type*}

/-- The counters and the map describe the entries `held` by their level `lvl`. -/
structure Tally (lvl : ε → ℕ) (held : List ε) (total : ℕ) (count : ℕ → ℕ) (bitmap : ℕ) :
    Prop where
  total_eq : total = held.length
  count_eq : ∀ l, count l = held.countP fun e => lvl e = l
  bits : ∀ l, bitmap.testBit l = true ↔ ∃ e ∈ held, lvl e = l
  level_lt : ∀ e ∈ held, lvl e < 64

namespace Tally

variable {lvl : ε → ℕ} {held : List ε} {total bitmap l : ℕ} {count : ℕ → ℕ} {e : ε}

/-- The counters of an empty store. -/
lemma nil (lvl : ε → ℕ) : Tally lvl [] 0 (fun _ => 0) 0 :=
  ⟨rfl, fun _ => rfl, fun l => by simp, by simp⟩

lemma pos_iff (h : Tally lvl held total count bitmap) :
    0 < count l ↔ ∃ e ∈ held, lvl e = l := by
  rw [h.count_eq, List.countP_pos_iff]
  simp

/-- A bit is set exactly when the counter of its level is positive. -/
lemma bits_iff (h : Tally lvl held total count bitmap) (l : ℕ) :
    bitmap.testBit l = true ↔ 0 < count l :=
  (h.bits l).trans h.pos_iff.symm

/-- Adding an entry. -/
lemma push (h : Tally lvl held total count bitmap) (e : ε) (he : lvl e < 64) :
    Tally lvl (held ++ [e]) (total + 1) (Function.update count (lvl e) (count (lvl e) + 1))
      (bitmap ||| 1 <<< lvl e) where
  total_eq := by rw [h.total_eq, List.length_append, List.length_singleton]
  count_eq := fun l => by
    rw [List.countP_append, ← h.count_eq l]
    by_cases hl : lvl e = l
    · subst hl
      simp
    · rw [Function.update_of_ne (Ne.symm hl)]
      simp [hl]
  bits := fun l => by
    rw [Nat.testBit_or, Bool.or_eq_true, h.bits l, Nat.one_shiftLeft, Nat.testBit_two_pow]
    simp only [List.mem_append, List.mem_singleton, decide_eq_true_eq]
    constructor
    · rintro (⟨x, hx, hxl⟩ | hl)
      · exact ⟨x, .inl hx, hxl⟩
      · exact ⟨e, .inr rfl, hl⟩
    · rintro ⟨x, hx | rfl, hxl⟩
      · exact .inl ⟨x, hx, hxl⟩
      · exact .inr hxl
  level_lt := by
    intro x hx
    rcases List.mem_append.mp hx with hx | hx
    · exact h.level_lt x hx
    · obtain rfl : x = e := by simpa using hx
      exact he

/-- The counter of a level after entries of level `l` are removed. -/
lemma countP_remove {removed held' : List ε} (hperm : held.Perm (removed ++ held'))
    (hlev : ∀ x ∈ removed, lvl x = l) (i : ℕ) :
    (held.countP fun x => lvl x = i)
      = (held'.countP fun x => lvl x = i) + if i = l then removed.length else 0 := by
  rw [hperm.countP_eq, List.countP_append, Nat.add_comm]
  congr 1
  split
  · rename_i hi
    subst hi
    exact List.countP_eq_length.mpr fun x hx => by simpa using hlev x hx
  · rename_i hi
    refine List.countP_eq_zero.mpr fun x hx => ?_
    rw [hlev x hx]
    simpa using fun heq => hi heq.symm

/-- Removing entries of the level `l`; its bit is cleared when none is left. -/
lemma remove (h : Tally lvl held total count bitmap) {removed held' : List ε}
    (hperm : held.Perm (removed ++ held')) (hl : l < 64) (hlev : ∀ x ∈ removed, lvl x = l) :
    Tally lvl held' (total - removed.length)
      (Function.update count l (count l - removed.length))
      (if count l - removed.length = 0 then bitmap &&& (2 ^ 64 - 1 - 1 <<< l) else bitmap) where
  total_eq := by
    have hlen := hperm.length_eq
    rw [List.length_append] at hlen
    rw [h.total_eq, hlen, Nat.add_sub_cancel_left]
  count_eq := fun i => by
    have hcount := countP_remove hperm hlev i
    by_cases hi : i = l
    · subst hi
      rw [if_pos rfl] at hcount
      rw [Function.update_self, h.count_eq, hcount, Nat.add_sub_cancel]
    · rw [if_neg hi] at hcount
      rw [Function.update_of_ne hi, h.count_eq, hcount, Nat.add_zero]
  bits := fun i => by
    have hlt64 : ∀ j, bitmap.testBit j = true → j < 64 := fun j hj => by
      obtain ⟨x, hx, rfl⟩ := (h.bits j).mp hj
      exact h.level_lt x hx
    have hcount := countP_remove hperm hlev i
    have hnew : (∃ x ∈ held', lvl x = i) ↔ 0 < held'.countP fun x => lvl x = i := by
      rw [List.countP_pos_iff]
      simp
    rw [hnew]
    by_cases hi : i = l
    · subst hi
      rw [if_pos rfl, ← h.count_eq] at hcount
      split
      · rw [testBit_clear hl hlt64]
        simp only [ne_eq, not_true_eq_false, decide_false, Bool.and_false, Bool.false_eq_true,
          false_iff]
        omega
      · rw [h.bits_iff]
        omega
    · rw [if_neg hi, ← h.count_eq, Nat.add_zero] at hcount
      rw [← hcount, ← h.bits_iff]
      split
      · rw [testBit_clear hl hlt64]
        simp [hi]
      · rfl
  level_lt := fun x hx => h.level_lt x (hperm.mem_iff.mpr (List.mem_append_right _ hx))

/-- The map is zero exactly when nothing is held. -/
lemma bitmap_eq_zero_iff (h : Tally lvl held total count bitmap) : bitmap = 0 ↔ held = [] := by
  constructor
  · intro hz
    refine List.eq_nil_iff_forall_not_mem.mpr fun e he => ?_
    have hb := (h.bits (lvl e)).mpr ⟨e, he, rfl⟩
    rw [hz, Nat.zero_testBit] at hb
    exact absurd hb (by simp)
  · rintro rfl
    refine Nat.eq_of_testBit_eq fun l => ?_
    rw [Nat.zero_testBit, ← Bool.not_eq_true, h.bits]
    simp

/-- The lowest occupied level is at most every occupied level. -/
lemma lowBit_le (h : Tally lvl held total count bitmap) (he : e ∈ held) :
    lowBit 64 bitmap ≤ lvl e :=
  lowBit_le_of_testBit ((h.bits _).mpr ⟨e, he, rfl⟩) (h.level_lt e he)

/-- The total is the sum of the counters. -/
lemma total_eq_sum (h : Tally lvl held total count bitmap) :
    total = ∑ l ∈ Finset.range 64, count l := by
  have hcount : ∀ l, count l = (slot lvl held l).length := fun l => by
    rw [h.count_eq, List.countP_eq_length_filter, slot]
  simp only [hcount]
  rw [sum_length_slot fun e he => Finset.mem_range.mpr (h.level_lt e he), h.total_eq]

/-- A counter is the sum of the lengths of the slots of its level. -/
lemma count_eq_sum (h : Tally lvl held total count bitmap) {idx : ε → ℕ} {n : ℕ}
    (hidx : ∀ e ∈ held, idx e < n) (l : ℕ) :
    count l = ∑ i ∈ Finset.range n, (slot (fun e => (lvl e, idx e)) held (l, i)).length := by
  have hslot : ∀ i, slot (fun e => (lvl e, idx e)) held (l, i)
      = slot idx (held.filter fun e => lvl e = l) i := fun i => by
    rw [slot, slot, List.filter_filter]
    refine List.filter_congr fun e _ => ?_
    by_cases hl : lvl e = l <;> by_cases hi : idx e = i <;> simp [hl, hi]
  simp only [hslot]
  rw [sum_length_slot fun e he => Finset.mem_range.mpr (hidx e (List.mem_filter.mp he).1),
    h.count_eq, List.countP_eq_length_filter]

end Tally

end Ledger
