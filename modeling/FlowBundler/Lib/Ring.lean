import Mathlib.Tactic

/-!
A list in a ring of `n` cells, of which one is always left free.

* `Holds n mem head tail l`: the cells from `head` up to `tail`, around the ring, are `l`.
* `full_iff`, `empty_iff`, `count_eq`: what the two positions say about the length.
* `Holds.snoc`, `Holds.pop`: writing at the tail, and taking from the head.
* `cells`, `Holds.cells_eq`: the list read back from the ring.

With one cell always free the two positions are equal exactly when the list is empty, and the length
is the difference of the positions modulo `n`.  A position goes around at most once in a step
(`wrap`), which turns the remainders into a case split that `omega` can do.
-/

namespace Ring

variable {α : Type*} {n : ℕ} {mem : ℕ → α} {head tail : ℕ} {l : List α} {x : α}

/-- The cells from `head` up to `tail` are the list `l`. -/
structure Holds (n : ℕ) (mem : ℕ → α) (head tail : ℕ) (l : List α) : Prop where
  head_lt : head < n
  tail_eq : tail = (head + l.length) % n
  length_lt : l.length < n
  cell : ∀ i (h : i < l.length), mem ((head + i) % n) = l[i]

/-- A position that goes around at most once. -/
lemma wrap {a : ℕ} (h : a < 2 * n) : a % n = if a < n then a else a - n := by
  split
  · rename_i hlt
    exact Nat.mod_eq_of_lt hlt
  · rename_i hge
    rw [Nat.mod_eq_sub_mod (not_lt.mp hge), Nat.mod_eq_of_lt (by omega)]

/-- An empty ring. -/
lemma Holds.nil (mem : ℕ → α) (h : head < n) : Holds n mem head head [] where
  head_lt := h
  tail_eq := by simp [Nat.mod_eq_of_lt h]
  length_lt := by simpa using Nat.lt_of_le_of_lt (Nat.zero_le head) h
  cell := by simp

namespace Holds

lemma tail_lt (h : Holds n mem head tail l) : tail < n := by
  rw [h.tail_eq]
  exact Nat.mod_lt _ (Nat.lt_of_le_of_lt (Nat.zero_le _) h.head_lt)

lemma empty_iff (h : Holds n mem head tail l) : head = tail ↔ l = [] := by
  have hlt := h.length_lt
  have hhead := h.head_lt
  rw [h.tail_eq, wrap (by omega), ← List.length_eq_zero_iff]
  split <;> omega

lemma full_iff (h : Holds n mem head tail l) : (tail + 1) % n = head ↔ l.length + 1 = n := by
  have hlt := h.length_lt
  have hhead := h.head_lt
  have htail := h.tail_lt
  have heq := h.tail_eq
  rw [wrap (show head + l.length < 2 * n by omega)] at heq
  rw [wrap (by omega)]
  split at heq <;> split <;> omega

/-- The length, computed from the positions. -/
lemma count_eq (h : Holds n mem head tail l) : (n - head + tail) % n = l.length := by
  have hlt := h.length_lt
  have hhead := h.head_lt
  have htail := h.tail_lt
  have heq := h.tail_eq
  rw [wrap (show head + l.length < 2 * n by omega)] at heq
  rw [wrap (by omega)]
  split at heq <;> split <;> omega

/-- Writing at the tail of a ring that is not full. -/
lemma snoc (h : Holds n mem head tail l) (hroom : l.length + 1 < n) (x : α) :
    Holds n (Function.update mem tail x) head ((tail + 1) % n) (l ++ [x]) where
  head_lt := h.head_lt
  tail_eq := by
    rw [h.tail_eq, List.length_append, List.length_singleton, Nat.mod_add_mod, Nat.add_assoc]
  length_lt := by simpa using hroom
  cell := by
    intro i hi
    rw [List.length_append, List.length_singleton] at hi
    have hhead := h.head_lt
    by_cases hil : i < l.length
    · -- an older cell is not the one written
      have hne : (head + i) % n ≠ tail := by
        rw [h.tail_eq, wrap (by omega), wrap (by omega)]
        split <;> split <;> omega
      rw [Function.update_of_ne hne, h.cell i hil, List.getElem_append_left hil]
    · obtain rfl : i = l.length := by omega
      rw [← h.tail_eq, Function.update_self, List.getElem_append_right le_rfl]
      simp

/-- Taking from the head. -/
lemma pop (h : Holds n mem head tail (x :: l)) :
    mem head = x ∧ Holds n mem ((head + 1) % n) tail l := by
  have hhead := h.head_lt
  have hlen := h.length_lt
  rw [List.length_cons] at hlen
  constructor
  · have h0 := h.cell 0 (by simp)
    rwa [Nat.add_zero, Nat.mod_eq_of_lt hhead] at h0
  · refine ⟨Nat.mod_lt _ (by omega), ?_, by omega, fun i hi => ?_⟩
    · rw [h.tail_eq, List.length_cons, Nat.mod_add_mod]
      congr 1
      omega
    · have hi' := h.cell (i + 1) (by simpa using hi)
      rw [List.getElem_cons_succ] at hi'
      rw [← hi', Nat.mod_add_mod]
      congr 2
      omega

end Holds

/-! ### Reading the list back -/

/-- The `k` cells from `head` on. -/
def cells (n : ℕ) (mem : ℕ → α) (head k : ℕ) : List α :=
  (List.range k).map fun i => mem ((head + i) % n)

lemma Holds.cells_eq (h : Holds n mem head tail l) : cells n mem head l.length = l := by
  refine List.ext_getElem (by simp [cells]) fun i hi hi' => ?_
  rw [← h.cell i hi']
  simp [cells]

end Ring
