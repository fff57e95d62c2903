import FlowBundler.Lib.Ledger

/-!
Shelves of values that stand for the entries of a ledger, and the order of service.

* `Fifo place val shelf held`: every shelf has the values of the entries placed there, in the
  order of arrival; `Fifo.push`, `Fifo.pop`: adding at the end, taking from the front.
* `Lifo place val shelf held`: the same with the latest entry in front; `Lifo.push`,
  `Lifo.front`: adding in front, taking some from the front.
* `spread base g n shelf`: shelves at the places of a grid; `spread_update`, `spread_swap`:
  changing a shelf, and exchanging the two halves.
* `Fair seq rank l`: in the order of service `l` an entry is ahead of one that arrived before
  it only with a smaller rank; `Fair.arrive`, `Fair.serve`: a stable priority queue keeps the
  order of service fair when keys follow ranks.

A shelf relates the values in a place, as an implementation holds them, to the slot of the ledger
for that place.  `spread` lays the shelves of an array out along the keys they stand for, so that
moving the base of the array is a change of places and not of contents.
-/

namespace Shelf

open Ledger

variable {ε κ β : Type*} [DecidableEq κ]

/-! ### Shelves -/

/-- Every shelf has the values of its entries in the order of arrival. -/
def Fifo (place : ε → κ) (val : ε → β) (shelf : κ → List β) (held : List ε) : Prop :=
  ∀ k, shelf k = (slot place held k).map val

namespace Fifo

variable {place : ε → κ} {val : ε → β} {shelf : κ → List β} {held : List ε} {k : κ}

lemma nil (place : ε → κ) (val : ε → β) : Fifo place val (fun _ => []) [] := fun _ => rfl

/-- The value of a new entry goes to the end of its shelf. -/
lemma push (h : Fifo place val shelf held) (e : ε) :
    Fifo place val (Function.update shelf (place e) (shelf (place e) ++ [val e]))
      (held ++ [e]) := by
  intro k
  rw [slot_append, List.map_append, ← h k]
  by_cases hk : k = place e
  · subst hk
    rw [Function.update_self, slot_singleton_self, List.map_singleton]
  · rw [Function.update_of_ne hk, slot_singleton_of_ne (Ne.symm hk), List.map_nil, List.append_nil]

/-- The front of a shelf is the value of the first entry placed there. -/
lemma pop {name : ε → ℕ} {b : β} {rest : List β} (h : Fifo place val shelf held)
    (hnd : (held.map name).Nodup) (hk : shelf k = b :: rest) :
    ∃ e tl, slot place held k = e :: tl ∧ val e = b ∧
      Fifo place val (Function.update shelf k rest) (without name held [name e]) := by
  have hslot := h k
  rw [hk] at hslot
  obtain ⟨e, tl, hcons, hval, htl⟩ := List.map_eq_cons_iff.mp hslot.symm
  refine ⟨e, tl, hcons, hval, fun k' => ?_⟩
  rw [slot_without]
  by_cases hkk : k' = k
  · subst hkk
    have hnd' : ((slot place held k').map name).Nodup := nodup_slot hnd
    rw [hcons] at hnd' ⊢
    rw [Function.update_self, without_cons hnd', htl]
  · have he : place e = k := (mem_slot.mp (hcons ▸ List.mem_cons_self)).2
    rw [Function.update_of_ne hkk, h k', without_eq_self]
    intro x hx hmem
    obtain ⟨hxh, hxp⟩ := mem_slot.mp hx
    have hee : e ∈ held := (mem_slot.mp (hcons ▸ List.mem_cons_self)).1
    obtain rfl := List.inj_on_of_nodup_map hnd hxh hee (by simpa using hmem)
    exact hkk (hxp.symm.trans he)

end Fifo

/-- Every shelf has the values of its entries, the latest in front. -/
def Lifo (place : ε → κ) (val : ε → β) (shelf : κ → List β)
    (held : List ε) : Prop :=
  ∀ k, shelf k = (slot place held k).reverse.map val

namespace Lifo

variable {place : ε → κ} {val : ε → β} {shelf : κ → List β} {held : List ε} {k : κ}

lemma nil (place : ε → κ) (val : ε → β) : Lifo place val (fun _ => []) [] := fun _ => rfl

/-- The value of a new entry goes to the front of its shelf. -/
lemma push (h : Lifo place val shelf held) (e : ε) :
    Lifo place val (Function.update shelf (place e) (val e :: shelf (place e))) (held ++ [e]) := by
  intro k
  rw [slot_append, List.reverse_append, List.map_append, ← h k]
  by_cases hk : k = place e
  · subst hk
    rw [Function.update_self, slot_singleton_self]
    rfl
  · rw [Function.update_of_ne hk, slot_singleton_of_ne (Ne.symm hk)]
    rfl

/-- Taking `n` values from the front of a shelf takes its latest entries. -/
lemma front {name : ε → ℕ} (h : Lifo place val shelf held) (hnd : (held.map name).Nodup) (n : ℕ) :
    shelf k = ((slot place held k).reverse.take n).map val ++ (shelf k).drop n ∧
      Lifo place val (Function.update shelf k ((shelf k).drop n))
        (without name held (((slot place held k).reverse.take n).map name)) := by
  constructor
  · rw [h k, List.map_take, List.take_append_drop]
  · intro k'
    rw [slot_without]
    by_cases hk : k' = k
    · subst hk
      have hrev : ((slot place held k').reverse.map name).Nodup := by
        rw [List.map_reverse, List.nodup_reverse]
        exact nodup_slot hnd
      rw [Function.update_self, h k', ← List.map_drop, ← without_take hrev n, without_reverse]
    · rw [Function.update_of_ne hk, h k', without_eq_self]
      intro x hx hmem
      obtain ⟨y, hy, hyx⟩ := List.mem_map.mp hmem
      obtain ⟨hyh, hyk⟩ := mem_slot.mp (List.mem_reverse.mp (List.mem_of_mem_take hy))
      obtain ⟨hxh, hxk⟩ := mem_slot.mp hx
      obtain rfl := List.inj_on_of_nodup_map hnd hyh hxh hyx
      exact hk (hxk.symm.trans hyk)

end Lifo

/-! ### Shelves on a grid -/

section Spread

variable {base g n : ℕ} {shelf : ℕ → List β}

/-- The shelves `0, …, n - 1` at the places `base + j * g`. -/
def spread (base g n : ℕ) (shelf : ℕ → List β) (k : ℕ) : List β :=
  if base ≤ k ∧ g ∣ k - base ∧ (k - base) / g < n then shelf ((k - base) / g) else []

lemma spread_at (hg : 0 < g) {j : ℕ} (hj : j < n) :
    spread base g n shelf (base + j * g) = shelf j := by
  rw [spread, Nat.add_sub_cancel_left, Nat.mul_div_cancel j hg]
  exact if_pos ⟨Nat.le_add_right _ _, Nat.dvd_mul_left g j, hj⟩

lemma spread_off {k : ℕ} (h : ∀ j < n, k ≠ base + j * g) : spread base g n shelf k = [] := by
  refine if_neg fun ⟨hle, hdvd, hlt⟩ => h _ hlt ?_
  rw [Nat.div_mul_cancel hdvd]
  omega

/-- A place with a value is on the grid. -/
lemma exists_of_spread_ne_nil {k : ℕ} (h : spread base g n shelf k ≠ []) :
    ∃ j < n, k = base + j * g := by
  by_contra hoff
  exact h (spread_off fun j hj heq => hoff ⟨j, hj, heq⟩)

/-- Two ways to spread that agree on the places of the first, where the second has no others. -/
lemma spread_congr (hg : 0 < g) {base' n' : ℕ} {shelf' : ℕ → List β}
    (h : ∀ j < n, spread base' g n' shelf' (base + j * g) = shelf j)
    (hoff : ∀ j < n', (∀ i < n, base' + j * g ≠ base + i * g) → shelf' j = []) :
    spread base' g n' shelf' = spread base g n shelf := by
  funext k
  by_cases hk : ∃ j < n, k = base + j * g
  · obtain ⟨j, hj, rfl⟩ := hk
    rw [h j hj, spread_at hg hj]
  · have hk' : ∀ j < n, k ≠ base + j * g := fun j hj heq => hk ⟨j, hj, heq⟩
    rw [spread_off hk']
    by_cases hk'' : ∃ j < n', k = base' + j * g
    · obtain ⟨j, hj, rfl⟩ := hk''
      rw [spread_at hg hj, hoff j hj hk']
    · exact spread_off fun j hj heq => hk'' ⟨j, hj, heq⟩

/-- Changing a shelf changes its place. -/
lemma spread_update (hg : 0 < g) {j : ℕ} (hj : j < n) (l : List β) :
    spread base g n (Function.update shelf j l)
      = Function.update (spread base g n shelf) (base + j * g) l := by
  funext k
  by_cases hk : ∃ i < n, k = base + i * g
  · obtain ⟨i, hi, rfl⟩ := hk
    rw [spread_at hg hi]
    by_cases hij : i = j
    · rw [hij, Function.update_self, Function.update_self]
    · have hne : base + i * g ≠ base + j * g := fun heq =>
        hij (Nat.eq_of_mul_eq_mul_right hg (Nat.add_left_cancel heq))
      rw [Function.update_of_ne hij, Function.update_of_ne hne, spread_at hg hi]
  · have hk' : ∀ i < n, k ≠ base + i * g := fun i hi heq => hk ⟨i, hi, heq⟩
    rw [spread_off hk', Function.update_of_ne (hk' j hj), spread_off hk']

/-- Empty shelves. -/
lemma spread_nil (h : ∀ j < n, shelf j = []) : spread base g n shelf = fun _ => [] := by
  funext k
  rw [spread]
  split
  · rename_i hk
    exact h _ hk.2.2
  · rfl

/-- **Exchanging the halves** when the first is empty moves the grid by `m` places. -/
lemma spread_swap (hg : 0 < g) {m : ℕ} {shelf' : ℕ → List β} (h : ∀ j < m, shelf j = [])
    (hswap : ∀ j < m + m, shelf' j = if j < m then shelf (m + j) else shelf (j - m)) :
    spread (base + m * g) g (m + m) shelf' = spread base g (m + m) shelf := by
  refine spread_congr hg (fun j hj => ?_) fun j hj hoff => ?_
  · by_cases hjm : j < m
    · rw [h j hjm]
      refine spread_off fun i _ heq => ?_
      have hlt : j * g < m * g := Nat.mul_lt_mul_of_pos_right hjm hg
      omega
    · obtain ⟨i, rfl⟩ := Nat.exists_eq_add_of_le (not_lt.mp hjm)
      rw [show base + (m + i) * g = base + m * g + i * g by ring, spread_at hg (by omega),
        hswap i (by omega), if_pos (by omega)]
  · rw [hswap j hj]
    by_cases hjm : j < m
    · refine absurd ?_ (hoff (m + j) (by omega))
      ring
    · rw [if_neg hjm]
      exact h _ (by omega)

end Spread

/-! ### The order of service -/

/-- An entry is ahead of one that arrived before it only with a smaller rank. -/
def Fair (seq rank : ε → ℕ) (l : List ε) : Prop :=
  l.Pairwise fun a b => seq b < seq a → rank a < rank b

namespace Fair

variable {seq rank key : ε → ℕ} {sent held : List ε} {e : ε}

/-- An entry that arrives last is served last, if nothing changes. -/
lemma arrive {l : List ε} (h : Fair seq rank l) (hlast : ∀ a ∈ l, seq a < seq e) :
    Fair seq rank (l ++ [e]) := by
  refine List.pairwise_append.mpr ⟨h, List.pairwise_singleton _ _, fun a ha b hb hlt => ?_⟩
  obtain rfl := List.mem_singleton.mp hb
  have := hlast a ha
  omega

/-- Serving the first entry of least key keeps the order fair when, among the entries held, a
rank that is not larger gives a key that is not larger. -/
lemma serve (h : Fair seq rank (sent ++ held)) (hseq : held.Pairwise fun a b => seq a < seq b)
    (hmono : held.Pairwise fun a b => rank a ≤ rank b → key a ≤ key b)
    (hfirst : FirstLeast key held e) :
    Fair seq rank ((sent ++ [e]) ++ without seq held [seq e]) := by
  have hnd : (held.map seq).Nodup := by
    rw [List.Nodup, List.pairwise_map]
    exact hseq.imp fun hlt => hlt.ne
  obtain ⟨pre, post, rfl, hpre, -⟩ := hfirst
  rw [without_middle hnd]
  obtain ⟨hsent, hheld, hcross⟩ := List.pairwise_append.mp h
  obtain ⟨hp, hep, hcross'⟩ := List.pairwise_append.mp hheld
  obtain ⟨he, hq⟩ := List.pairwise_cons.mp hep
  rw [List.append_assoc, List.singleton_append]
  refine List.pairwise_append.mpr ⟨hsent, List.pairwise_cons.mpr ⟨fun x hx hlt => ?_, ?_⟩, ?_⟩
  · rcases List.mem_append.mp hx with hx | hx
    · -- an earlier entry has a larger key, hence a larger rank
      have hle := (List.pairwise_append.mp hmono).2.2 x hx e (by simp)
      have hkey := hpre x hx
      by_contra hrank
      have := hle (not_lt.mp hrank)
      omega
    · exact he x hx hlt
  · exact List.pairwise_append.mpr ⟨hp, hq, fun a ha b hb =>
      hcross' a ha b (List.mem_cons_of_mem e hb)⟩
  · intro a ha b hb
    refine hcross a ha b ?_
    rcases List.mem_cons.mp hb with rfl | hb
    · simp
    · rcases List.mem_append.mp hb with hb | hb <;> simp [hb]

end Fair

end Shelf
