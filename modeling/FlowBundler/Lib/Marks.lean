import Mathlib.Tactic
import Mathlib.Data.Finset.Card

/-!
Tables of marks: an array of counters of which the entries that are `1` are counted.

* `marked s f`: the marked entries of the table `f` over the indices `s`.
* `card_mark`, `card_clear`: setting an entry that is not marked adds one, clearing a marked one
  removes one; `marked_clear`: clearing any other entry changes nothing.

The tables are finite maps as the code has them, and the count is the cardinality of a filter, so
that the three lemmas are about inserting into a finite set and erasing from it.
-/

namespace Marks

variable {ι : Type*} {s : Finset ι} {f : ι → ℕ} {i : ι}

/-- The marked entries of a table. -/
def marked (s : Finset ι) (f : ι → ℕ) : Finset ι := s.filter fun i => f i = 1

@[simp] lemma mem_marked : i ∈ marked s f ↔ i ∈ s ∧ f i = 1 := by simp [marked]

lemma card_marked_le (s : Finset ι) (f : ι → ℕ) : (marked s f).card ≤ s.card :=
  Finset.card_filter_le _ _

/-- Some entry is marked exactly when the count is positive. -/
lemma card_marked_pos (hi : i ∈ s) (h : f i = 1) : 0 < (marked s f).card :=
  Finset.card_pos.mpr ⟨i, mem_marked.mpr ⟨hi, h⟩⟩

variable [DecidableEq ι]

lemma marked_mark (hi : i ∈ s) : marked s (Function.update f i 1) = insert i (marked s f) := by
  ext j
  rw [Finset.mem_insert, mem_marked, mem_marked]
  by_cases hj : j = i
  · simp [hj, hi]
  · simp [hj]

lemma marked_erase : marked s (Function.update f i 0) = (marked s f).erase i := by
  ext j
  rw [Finset.mem_erase, mem_marked, mem_marked]
  by_cases hj : j = i
  · simp [hj]
  · simp [hj]

/-- Marking an entry that is not marked. -/
theorem card_mark (hi : i ∈ s) (h : f i ≠ 1) :
    (marked s (Function.update f i 1)).card = (marked s f).card + 1 := by
  rw [marked_mark hi]
  exact Finset.card_insert_of_notMem fun hmem => h (mem_marked.mp hmem).2

/-- Clearing a marked entry. -/
theorem card_clear (hi : i ∈ s) (h : f i = 1) :
    (marked s (Function.update f i 0)).card + 1 = (marked s f).card := by
  rw [marked_erase]
  exact Finset.card_erase_add_one (mem_marked.mpr ⟨hi, h⟩)

/-- Clearing an entry that is not marked. -/
lemma marked_clear (h : f i ≠ 1) : marked s (Function.update f i 0) = marked s f := by
  rw [marked_erase]
  exact Finset.erase_eq_of_notMem fun hmem => h (mem_marked.mp hmem).2

end Marks
