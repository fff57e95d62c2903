import Mathlib.Tactic
import Mathlib.Data.Nat.Count

/-!
A sequence with marked positions, cut into windows of `n` marks.

* `Boundary n p k`: position `k` is the mark number `n + 1`, or `2 * n + 1`, or `3 * n + 1`, ….
* `Opened n p k s`: the window that is open before `k` began at `s`, the last boundary before `k`
  or the first position.
* `Opened.first`, `Opened.stay`, `Opened.move`: the window from one position to the next;
  `exists_opened`, `Opened.unique`: there is exactly one.
* `Opened.count_le`, `Opened.boundary_iff`: a window has at most `n` marks, and the next mark
  after `n` of them is a boundary.

Marks are counted with `Nat.count`, so that a boundary is a mark whose number is one more than a
multiple of `n`; a window then starts at a mark with a multiple of `n` marks before it, and ends
after `n` of its own.
-/

namespace Windows

variable {p : ℕ → Prop} [DecidablePred p] {n k s : ℕ}

/-- Position `k` is a mark, and its number among the marks is `m * n + 1` for a positive `m`. -/
def Boundary (n : ℕ) (p : ℕ → Prop) [DecidablePred p] (k : ℕ) : Prop :=
  p k ∧ ∃ m, 1 ≤ m ∧ Nat.count p (k + 1) = m * n + 1

/-- The window that is open before `k` began at `s`. -/
structure Opened (n : ℕ) (p : ℕ → Prop) [DecidablePred p] (k s : ℕ) : Prop where
  lt : s < k
  start : s = 0 ∨ Boundary n p s
  last : ∀ j, s < j → j < k → ¬ Boundary n p j

namespace Opened

/-- Before position `1` it began at `0`. -/
lemma first (n : ℕ) (p : ℕ → Prop) [DecidablePred p] : Opened n p 1 0 :=
  ⟨Nat.one_pos, .inl rfl, fun j hj hj1 => by omega⟩

lemma stay (h : Opened n p k s) (hk : ¬ Boundary n p k) : Opened n p (k + 1) s := by
  refine ⟨h.lt.trans (Nat.lt_succ_self k), h.start, fun j hsj hjk => ?_⟩
  rcases Nat.lt_succ_iff_lt_or_eq.mp hjk with hjk | rfl
  · exact h.last j hsj hjk
  · exact hk

lemma move (hk : Boundary n p k) : Opened n p (k + 1) k :=
  ⟨Nat.lt_succ_self k, .inr hk, fun j hkj hjk => by omega⟩

/-- What the window was before the last position. -/
lemma prev (h : Opened n p (k + 1) s) : s = k ∨ Opened n p k s ∧ ¬ Boundary n p k := by
  rcases Nat.lt_succ_iff_lt_or_eq.mp h.lt with hlt | heq
  · exact .inr ⟨⟨hlt, h.start, fun j hsj hjk => h.last j hsj (hjk.trans (Nat.lt_succ_self k))⟩,
      h.last k hlt (Nat.lt_succ_self k)⟩
  · exact .inl heq

lemma unique {s' : ℕ} (h : Opened n p k s) (h' : Opened n p k s') : s = s' := by
  rcases lt_trichotomy s s' with hlt | heq | hlt
  · rcases h'.start with rfl | hb
    · omega
    · exact absurd hb (h.last s' hlt h'.lt)
  · exact heq
  · rcases h.start with rfl | hb
    · omega
    · exact absurd hb (h'.last s hlt h.lt)

/-- The start of a window is a mark, and the marks before it fill whole windows. -/
lemma start_count (h : Opened n p k s) (h0 : p 0) :
    p s ∧ ∃ m, Nat.count p s = m * n := by
  rcases h.start with rfl | ⟨hs, m, -, hcount⟩
  · exact ⟨h0, 0, by rw [Nat.count_zero, Nat.zero_mul]⟩
  · rw [Nat.count_succ, if_pos hs] at hcount
    exact ⟨hs, m, Nat.succ.inj hcount⟩

lemma count_lt (h : Opened n p k s) (h0 : p 0) : Nat.count p s < Nat.count p k :=
  Nat.count_strict_mono (h.start_count h0).1 h.lt

/-- A mark with `n` marks before it in the window is a boundary. -/
lemma boundary_of_count (h : Opened n p k s) (h0 : p 0) (hk : p k)
    (hcount : Nat.count p k = Nat.count p s + n) : Boundary n p k := by
  obtain ⟨m, hm⟩ := (h.start_count h0).2
  refine ⟨hk, m + 1, Nat.le_add_left 1 m, ?_⟩
  rw [Nat.count_succ, if_pos hk, hcount, hm, Nat.succ_mul]

/-- **A window** has at most `n` marks, by induction on the position. -/
theorem count_le (hn : 1 ≤ n) (h0 : p 0) : ∀ {k s : ℕ}, Opened n p k s →
    Nat.count p k ≤ Nat.count p s + n := by
  intro k
  induction k with
  | zero =>
      intro s h
      exact absurd h.lt (Nat.not_lt_zero s)
  | succ k ih =>
      intro s h
      rcases h.prev with rfl | ⟨hk, hnot⟩
      · rw [Nat.count_succ, if_pos (h.start_count h0).1]
        exact Nat.add_le_add_left hn _
      · have hle := ih hk
        rw [Nat.count_succ]
        by_cases hmark : p k
        · have hne : Nat.count p k ≠ Nat.count p s + n :=
            fun heq => hnot (hk.boundary_of_count h0 hmark heq)
          rw [if_pos hmark]
          omega
        · rw [if_neg hmark]
          exact hle

/-- **The next boundary** is the mark after the `n` marks of the window. -/
theorem boundary_iff (h : Opened n p k s) (hn : 1 ≤ n) (h0 : p 0) :
    Boundary n p k ↔ p k ∧ Nat.count p k = Nat.count p s + n := by
  constructor
  · rintro ⟨hk, m, -, hcount⟩
    refine ⟨hk, le_antisymm (count_le hn h0 h) ?_⟩
    obtain ⟨m', hm'⟩ := (h.start_count h0).2
    have hlt := h.count_lt h0
    rw [Nat.count_succ, if_pos hk] at hcount
    rw [hm', Nat.succ.inj hcount] at hlt
    rw [hm', Nat.succ.inj hcount, ← Nat.succ_mul]
    exact Nat.mul_le_mul_right n (Nat.lt_of_mul_lt_mul_right hlt)
  · rintro ⟨hk, hcount⟩
    exact h.boundary_of_count h0 hk hcount

end Opened

/-- There is a window before every position but the first. -/
lemma exists_opened (n : ℕ) (p : ℕ → Prop) [DecidablePred p] (k : ℕ) :
    ∃ s, Opened n p (k + 1) s := by
  induction k with
  | zero => exact ⟨0, .first n p⟩
  | succ k ih =>
      obtain ⟨s, hs⟩ := ih
      by_cases hk : Boundary n p (k + 1)
      · exact ⟨k + 1, .move hk⟩
      · exact ⟨s, hs.stay hk⟩

/-- The first position is no boundary. -/
lemma not_boundary_zero (hn : 1 ≤ n) (h0 : p 0) : ¬ Boundary n p 0 := by
  rintro ⟨-, m, hm, hcount⟩
  rw [Nat.count_succ, Nat.count_zero, if_pos h0] at hcount
  have hpos := Nat.mul_pos hm hn
  omega

end Windows
