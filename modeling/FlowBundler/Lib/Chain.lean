import Mathlib.Tactic
import Mathlib.Data.List.Nodup

/-!
Linked lists in a heap: singly linked by `next`, and stacks linked both ways.

* `Chain next h l`: following `next` from the pointer `h` visits exactly the
  nodes `l` and then ends at the null pointer.
* `Chain.congr`: a chain depends only on the pointers of its own nodes, which is
  the frame rule for every update elsewhere.
* `Chain.snoc`: linking a fresh node behind the last node; `Chain.unique`: a heap
  determines the list.
* `Stack prev next base t l`: a doubly linked stack on the sentinel `base`, with its top at
  `t` and the nodes `l` from the top down; `Stack.congr` is its frame rule.
* `Stack.isChain`, `Stack.up`, `Stack.down`: its links; `Stack.reach_of_mem`,
  `Stack.mem_of_reach`: the nodes met on the way up from the sentinel.

Both predicates are defined along the list, so that their lemmas are inductions on it; a proof about
an update of the heap shows that the nodes of the list keep their pointers, and applies the frame
rule.
-/

namespace Heap

/-- Following `next` from `h` visits exactly the nodes `l`, then reaches the null pointer. -/
def Chain (next : ℕ → Option ℕ) : Option ℕ → List ℕ → Prop
  | h, [] => h = none
  | h, x :: xs => h = some x ∧ Chain next (next x) xs

namespace Chain

variable {next next' : ℕ → Option ℕ}

@[simp] lemma nil_iff {h : Option ℕ} : Chain next h [] ↔ h = none := Iff.rfl

/-- A chain is read off the pointers of its own nodes only. -/
lemma congr : ∀ {l : List ℕ} {h : Option ℕ}, Chain next h l → (∀ x ∈ l, next' x = next x) →
    Chain next' h l
  | [], _, hc, _ => hc
  | x :: xs, _, hc, hn => by
      refine ⟨hc.1, ?_⟩
      rw [hn x (by simp)]
      exact hc.2.congr fun y hy => hn y (List.mem_cons_of_mem x hy)

/-- The null pointer heads only the empty chain. -/
lemma eq_nil : ∀ {l : List ℕ}, Chain next none l → l = []
  | [], _ => rfl
  | _ :: _, h => absurd h.1 (by simp)

/-- The heap determines the list. -/
lemma unique : ∀ {l l' : List ℕ} {h : Option ℕ}, Chain next h l → Chain next h l' → l = l'
  | [], l', h, hl, hl' => by
      rw [nil_iff] at hl
      subst hl
      exact hl'.eq_nil.symm
  | x :: xs, [], h, hl, hl' => by
      rw [nil_iff] at hl'
      exact absurd (hl'.symm.trans hl.1) (by simp)
  | x :: xs, y :: ys, h, hl, hl' => by
      obtain rfl : x = y := Option.some_injective _ (hl.1.symm.trans hl'.1)
      rw [hl.2.unique hl'.2]

/-- Linking a fresh node `p` behind the last node of a chain. -/
lemma snoc : ∀ {l : List ℕ} {h : Option ℕ} {last p : ℕ}, Chain next h (l ++ [last]) →
    (l ++ [last]).Nodup → next' last = some p → next' p = none →
    (∀ x ∈ l, next' x = next x) → Chain next' h (l ++ [last] ++ [p])
  | [], h, last, p, hc, _, hlast, hp, _ => by
      refine ⟨hc.1, ?_⟩
      rw [hlast]
      exact ⟨rfl, hp⟩
  | x :: xs, h, last, p, hc, hnd, hlast, hp, hfr => by
      refine ⟨hc.1, ?_⟩
      rw [hfr x (by simp)]
      exact hc.2.snoc (List.nodup_cons.mp hnd).2 hlast hp
        fun y hy => hfr y (List.mem_cons_of_mem x hy)

end Chain

/-! ### Doubly linked stacks -/

/-- From the top `t` down the nodes are `l`, and below them the sentinel `base`; each node
and the one below it point at each other. -/
def Stack (prev next : ℕ → Option ℕ) (base : ℕ) : ℕ → List ℕ → Prop
  | t, [] => t = base
  | t, x :: xs => t = x ∧ ∃ y, prev x = some y ∧ next y = some x ∧ Stack prev next base y xs

namespace Stack

variable {prev next prev' next' : ℕ → Option ℕ} {base t : ℕ}

/-- The top of a stack is the first node, or the sentinel. -/
lemma top_mem : ∀ {l : List ℕ} {t : ℕ}, Stack prev next base t l → t ∈ base :: l
  | [], _, h => by rw [h]; simp
  | x :: xs, _, h => by rw [h.1]; simp

/-- A stack is read off the back links of its nodes and the forward links of everything
below its top. -/
lemma congr : ∀ {l : List ℕ} {t : ℕ}, Stack prev next base t l → (base :: l).Nodup →
    (∀ x ∈ l, prev' x = prev x) → (∀ x ∈ base :: l, x ≠ t → next' x = next x) →
    Stack prev' next' base t l
  | [], _, h, _, _, _ => h
  | x :: xs, t, h, hnd, hp, hn => by
      obtain ⟨rfl, y, hprev, hnext, hrest⟩ := h
      have hnd' : (base :: xs).Nodup := hnd.sublist ((List.sublist_cons_self t xs).cons_cons base)
      have htop := hrest.top_mem
      have hnot : t ∉ base :: xs := by
        rw [List.nodup_cons, List.nodup_cons] at hnd
        rintro (_ | ⟨_, hmem⟩)
        · exact hnd.1 (by simp)
        · exact hnd.2.1 hmem
      have hsub : ∀ z ∈ base :: xs, z ∈ base :: t :: xs := by
        rintro z (_ | ⟨_, hz⟩)
        · exact List.mem_cons_self
        · exact List.mem_cons_of_mem base (List.mem_cons_of_mem t hz)
      have hne : ∀ z ∈ base :: xs, z ≠ t := fun z hz hzt => hnot (hzt ▸ hz)
      refine ⟨rfl, y, ?_, ?_, ?_⟩
      · rw [hp t (by simp)]
        exact hprev
      · rw [hn y (hsub y htop) (hne y htop)]
        exact hnext
      · exact hrest.congr hnd' (fun z hz => hp z (List.mem_cons_of_mem t hz))
          fun z hz _ => hn z (hsub z hz) (hne z hz)

/-! ### Walking a stack -/

/-- The links of a stack, from the top down to the sentinel. -/
lemma isChain : ∀ {l : List ℕ} {t : ℕ}, Stack prev next base t l →
    (l ++ [base]).IsChain fun a b => prev a = some b ∧ next b = some a
  | [], _, _ => List.isChain_singleton base
  | x :: xs, t, h => by
      obtain ⟨-, y, hprev, hnext, hrest⟩ := h
      have hchain := hrest.isChain
      cases xs with
      | nil =>
          obtain rfl : y = base := hrest
          exact List.IsChain.cons_cons ⟨hprev, hnext⟩ hchain
      | cons z zs =>
          obtain rfl : y = z := hrest.1
          exact List.IsChain.cons_cons ⟨hprev, hnext⟩ hchain

/-- Every node below the top points up at one that points back. -/
lemma up {x : ℕ} : ∀ {l : List ℕ} {t : ℕ}, Stack prev next base t l → x ∈ base :: l → x ≠ t →
    ∃ y ∈ l, next x = some y ∧ prev y = some x
  | [], _, h, hx, hne => by
      rw [List.mem_singleton] at hx
      exact absurd (hx.trans (Eq.symm h)) hne
  | a :: xs, t, h, hx, hne => by
      obtain ⟨rfl, y, hprev, hnext, hrest⟩ := h
      by_cases hxy : x = y
      · exact ⟨t, List.mem_cons_self, hxy ▸ hnext, hxy ▸ hprev⟩
      · have hx' : x ∈ base :: xs := by
          rcases List.mem_cons.mp hx with hx | hx
          · exact hx ▸ List.mem_cons_self
          · exact List.mem_cons_of_mem base ((List.mem_cons.mp hx).resolve_left hne)
        obtain ⟨z, hz, hlinks⟩ := hrest.up hx' hxy
        exact ⟨z, List.mem_cons_of_mem t hz, hlinks⟩

/-- Every node above the sentinel points down at one that points back. -/
lemma down {x : ℕ} : ∀ {l : List ℕ} {t : ℕ}, Stack prev next base t l → x ∈ l →
    ∃ y ∈ base :: l, prev x = some y ∧ next y = some x
  | a :: xs, t, h, hx => by
      obtain ⟨rfl, y, hprev, hnext, hrest⟩ := h
      have hsub : ∀ z ∈ base :: xs, z ∈ base :: t :: xs := fun z hz =>
        ((List.sublist_cons_self t xs).cons_cons base).subset hz
      rcases List.mem_cons.mp hx with rfl | hx
      · exact ⟨y, hsub y hrest.top_mem, hprev, hnext⟩
      · obtain ⟨z, hz, hlinks⟩ := hrest.down hx
        exact ⟨z, hsub z hz, hlinks⟩

/-- Walking up from the sentinel meets every node of the stack. -/
lemma reach_of_mem {x : ℕ} : ∀ {l : List ℕ} {t : ℕ}, Stack prev next base t l → x ∈ base :: l →
    Relation.ReflTransGen (fun a b => next a = some b) base x
  | [], _, _, hx => by
      rw [List.mem_singleton] at hx
      rw [hx]
  | a :: xs, t, h, hx => by
      obtain ⟨rfl, y, hprev, hnext, hrest⟩ := h
      rcases List.mem_cons.mp hx with hx | hx
      · rw [hx]
      · rcases List.mem_cons.mp hx with rfl | hx
        · exact (hrest.reach_of_mem hrest.top_mem).tail hnext
        · exact hrest.reach_of_mem (List.mem_cons_of_mem base hx)

/-- It meets nothing else, when it ends at the top; by induction on the walk. -/
lemma mem_of_reach {x : ℕ} {l : List ℕ} (h : Stack prev next base t l) (htop : next t = none)
    (hx : Relation.ReflTransGen (fun a b => next a = some b) base x) : x ∈ base :: l := by
  induction hx with
  | refl => exact List.mem_cons_self
  | @tail a b _ hlink ih =>
      have hne : a ≠ t := by
        rintro rfl
        rw [htop] at hlink
        exact absurd hlink (by simp)
      obtain ⟨y, hy, hnext, -⟩ := h.up ih hne
      rw [hnext, Option.some.injEq] at hlink
      exact hlink ▸ List.mem_cons_of_mem base hy

end Stack

end Heap
