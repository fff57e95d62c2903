import Mathlib.Tactic
import Mathlib.Data.List.Chain

/-!
Pacing: stamped items of several classes, each item at least its cost after the one of its class
before it.

* `Spaced key stamp cost log`: that is so for every item of a log.
* `Spaced.sum_le`: then the stamps of two items of a class are at least the costs of the items
  between them apart.
* `Paced key stamp cost last log`: moreover `last` has the last stamp of every class in the log;
  `Paced.accept`, `Paced.congr`: adding an item, and changing `last` for other classes.

Only the last stamp of a class enters the condition on a new item, so `Paced` is kept by comparing
the item with that, and the sum over the items in between comes by induction on the chain.
-/

namespace Pacing

variable {α κ : Type*} [DecidableEq κ] {key : α → κ} {stamp cost : α → ℕ} {log : List α}

/-- The items of a class, in the order of the log. -/
def ofClass (key : α → κ) (log : List α) (k : κ) : List α := log.filter fun a => key a = k

@[simp] lemma ofClass_nil (k : κ) : ofClass key [] k = [] := rfl

lemma ofClass_append_self (e : α) :
    ofClass key (log ++ [e]) (key e) = ofClass key log (key e) ++ [e] := by
  simp [ofClass]

lemma ofClass_append_of_ne {e : α} {k : κ} (h : k ≠ key e) :
    ofClass key (log ++ [e]) k = ofClass key log k := by
  simp [ofClass, Ne.symm h]

/-- Every item is at least its cost after the one of its class before it. -/
def Spaced (key : α → κ) (stamp cost : α → ℕ) (log : List α) : Prop :=
  ∀ k, (ofClass key log k).IsChain fun a b => stamp a + cost b ≤ stamp b

/-- In a chain the costs add up, by induction on the items between. -/
lemma sum_le_of_isChain {a b : α} {mid : List α}
    (h : (a :: (mid ++ [b])).IsChain fun a b => stamp a + cost b ≤ stamp b) :
    stamp a + ((mid ++ [b]).map cost).sum ≤ stamp b := by
  induction mid generalizing a with
  | nil => simpa using h
  | cons x mid ih =>
      rw [List.cons_append, List.isChain_cons_cons] at h
      have hrest := ih h.2
      have hfirst := h.1
      rw [List.cons_append, List.map_cons, List.sum_cons]
      omega

/-- **The costs add up**: two items of a class are at least the costs of the items after the
first, up to the second, apart. -/
theorem Spaced.sum_le (h : Spaced key stamp cost log) {k : κ} {pre mid post : List α} {a b : α}
    (hsplit : ofClass key log k = pre ++ a :: (mid ++ b :: post)) :
    stamp a + ((mid ++ [b]).map cost).sum ≤ stamp b := by
  have hchain := h k
  rw [hsplit] at hchain
  have hpart : (a :: (mid ++ [b])).IsChain fun a b => stamp a + cost b ≤ stamp b := by
    rw [show a :: (mid ++ b :: post) = (a :: (mid ++ [b])) ++ post by simp] at hchain
    exact (List.isChain_append.mp (List.isChain_append.mp hchain).2.1).1
  exact sum_le_of_isChain hpart

/-- The log is spaced, and `last` has the last stamp of every class in it. -/
structure Paced (key : α → κ) (stamp cost : α → ℕ) (last : κ → ℕ) (log : List α) : Prop where
  spaced : Spaced key stamp cost log
  last_eq : ∀ k, ∀ a ∈ (ofClass key log k).getLast?, last k = stamp a

namespace Paced

variable {last last' : κ → ℕ}

lemma nil (key : α → κ) (stamp cost : α → ℕ) (last : κ → ℕ) : Paced key stamp cost last [] :=
  ⟨fun _ => .nil, by simp⟩

/-- The last stamps of classes without items do not matter. -/
lemma congr (h : Paced key stamp cost last log) (hlast : ∀ a ∈ log, last' (key a) = last (key a)) :
    Paced key stamp cost last' log := by
  refine ⟨h.spaced, fun k a ha => ?_⟩
  obtain ⟨hmem, hkey⟩ := List.mem_filter.mp (List.mem_of_getLast? ha)
  obtain rfl : key a = k := by simpa using hkey
  rw [hlast a hmem]
  exact h.last_eq _ a ha

/-- **Accepting an item** at least its cost after the last stamp of its class. -/
lemma accept (h : Paced key stamp cost last log) {e : α}
    (hcost : (∃ a ∈ log, key a = key e) → last (key e) + cost e ≤ stamp e)
    (hself : last' (key e) = stamp e) (hother : ∀ k, k ≠ key e → last' k = last k) :
    Paced key stamp cost last' (log ++ [e]) := by
  constructor
  · intro k
    by_cases hk : k = key e
    · subst hk
      rw [ofClass_append_self]
      refine List.isChain_append.mpr ⟨h.spaced _, .singleton _, fun a ha b hb => ?_⟩
      obtain rfl : e = b := by simpa using hb
      obtain ⟨hmem, hkey⟩ := List.mem_filter.mp (List.mem_of_getLast? ha)
      rw [← h.last_eq _ a ha]
      exact hcost ⟨a, hmem, by simpa using hkey⟩
    · rw [ofClass_append_of_ne hk]
      exact h.spaced k
  · intro k a ha
    by_cases hk : k = key e
    · subst hk
      rw [ofClass_append_self, List.getLast?_concat] at ha
      obtain rfl : e = a := by simpa using ha
      exact hself
    · rw [ofClass_append_of_ne hk] at ha
      rw [hother k hk]
      exact h.last_eq k a ha

end Paced

end Pacing
