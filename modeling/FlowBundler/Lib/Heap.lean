import Mathlib.Tactic

/-!
Heaps kept in a list, with the least key on top.

* `IsHeap key v`: no element has a smaller key than its parent; `IsHeap.top_le`: the first
  element has the least key.
* `siftDown`: an element goes down by swaps with the smaller of its children;
  `siftDown_isHeap`: the heap is restored if only the edges below the element were wrong.
* `decreaseKeyTop`: the sift from the top, after the key of the top element has grown.
* `StdHeap`: the heap algorithms of a standard library, known by what they promise;
  `StdHeap.deleteSingle` removes the first element with a property.

While an element sinks, the only edges that may be wrong are the ones below it, and its children are
not before its parent (`SiftReady`); one swap with the smaller child moves these edges one level
down, and an element without a smaller child ends the sift.  The positions grow, so that the length
of the list is fuel enough.
-/

namespace MinHeap

variable {α κ : Type} [LinearOrder κ] {key : α → κ} {v w : List α} {x y : α} {i j node : ℕ}

/-- No element has a smaller key than its parent. -/
def IsHeap (key : α → κ) (v : List α) : Prop :=
  ∀ ⦃i : ℕ⦄ ⦃x y : α⦄, 0 < i → v[i]? = some x → v[(i - 1) / 2]? = some y → key y ≤ key x

lemma isHeap_nil : IsHeap key ([] : List α) := fun _ _ _ _ hx => by simp at hx

/-- Only the keys of the elements matter. -/
lemma IsHeap.congr {key' : α → κ} (h : IsHeap key v) (heq : ∀ x ∈ v, key' x = key x) :
    IsHeap key' v := by
  intro i x y hi hx hy
  rw [heq x (List.mem_of_getElem? hx), heq y (List.mem_of_getElem? hy)]
  exact h hi hx hy

/-- **The top** has the least key, by induction on the position: the parent comes first. -/
theorem IsHeap.top_le (h : IsHeap key v) (hx : v[0]? = some x) : ∀ y ∈ v, key x ≤ key y := by
  have hall : ∀ (i : ℕ) (y : α), v[i]? = some y → key x ≤ key y := by
    intro i
    induction i using Nat.strong_induction_on with
    | _ i ih =>
        intro y hy
        rcases Nat.eq_zero_or_pos i with rfl | hi
        · rw [hx, Option.some.injEq] at hy
          rw [hy]
        · have hlt : (i - 1) / 2 < v.length := by
            have := (List.getElem?_eq_some_iff.mp hy).1
            omega
          have hparent := List.getElem?_eq_getElem hlt
          exact (ih _ (by omega) _ hparent).trans (h hi hy hparent)
  intro y hy
  obtain ⟨i, hi⟩ := List.getElem?_of_mem hy
  exact hall i y hi

/-- A list in order of its keys is a heap. -/
lemma isHeap_of_pairwise (h : v.Pairwise fun a b => key a ≤ key b) : IsHeap key v := by
  intro i x y hi hx hy
  obtain ⟨hlt, rfl⟩ := List.getElem?_eq_some_iff.mp hx
  obtain ⟨hlt', rfl⟩ := List.getElem?_eq_some_iff.mp hy
  exact List.pairwise_iff_getElem.mp h _ _ hlt' hlt (by omega)

/-! ### Sifting down -/

/-- The elements at two positions change places. -/
def swap (v : List α) (i j : ℕ) : List α :=
  match v[i]?, v[j]? with
  | some x, some y => (v.set i y).set j x
  | _, _ => v

lemma swap_eq (hx : v[i]? = some x) (hy : v[j]? = some y) : swap v i j = (v.set i y).set j x := by
  rw [swap, hx, hy]

lemma swap_perm (v : List α) (i j : ℕ) : (swap v i j).Perm v := by
  rw [swap]
  split
  · rename_i x y hx hy
    obtain ⟨hi, rfl⟩ := List.getElem?_eq_some_iff.mp hx
    obtain ⟨hj, rfl⟩ := List.getElem?_eq_some_iff.mp hy
    exact List.set_set_perm hi hj
  · exact List.Perm.refl v

lemma getElem?_swap (hx : v[i]? = some x) (hy : v[j]? = some y) (hij : i ≠ j) (k : ℕ) :
    (swap v i j)[k]? = if k = j then some x else if k = i then some y else v[k]? := by
  have hi := (List.getElem?_eq_some_iff.mp hx).1
  have hj := (List.getElem?_eq_some_iff.mp hy).1
  rw [swap_eq hx hy]
  by_cases hkj : k = j
  · subst hkj
    rw [if_pos rfl, List.getElem?_set_self (by rwa [List.length_set])]
  · rw [if_neg hkj, List.getElem?_set_ne (Ne.symm hkj)]
    by_cases hki : k = i
    · subst hki
      rw [if_pos rfl, List.getElem?_set_self hi]
    · rw [if_neg hki, List.getElem?_set_ne (Ne.symm hki)]

/-- The child with the smaller key, the right one if they are level; `none` at a leaf. -/
def smallerChild (key : α → κ) (v : List α) (node : ℕ) : Option ℕ :=
  match v[2 * node + 1]?, v[2 * node + 2]? with
  | some l, some r => if key l < key r then some (2 * node + 1) else some (2 * node + 2)
  | some _, none => some (2 * node + 1)
  | none, _ => none

/-- The element at `node` goes down while a child has a smaller key. -/
def siftDown (key : α → κ) : ℕ → ℕ → List α → List α
  | 0, _, v => v
  | fuel + 1, node, v =>
      match smallerChild key v node with
      | none => v
      | some child =>
          match v[node]?, v[child]? with
          | some x, some y =>
              if key y < key x then siftDown key fuel child (swap v node child) else v
          | _, _ => v

/-- The sift from the top, after the key of the top element has grown. -/
def decreaseKeyTop (key : α → κ) (v : List α) : List α := siftDown key v.length 0 v

lemma siftDown_perm (fuel : ℕ) : ∀ node (v : List α), (siftDown key fuel node v).Perm v := by
  induction fuel with
  | zero => exact fun node v => List.Perm.refl v
  | succ fuel ih =>
      intro node v
      rw [siftDown]
      split
      · exact List.Perm.refl v
      · split
        · split
          · exact (ih _ _).trans (swap_perm v _ _)
          · exact List.Perm.refl v
        · exact List.Perm.refl v

/-- The only edges that may be wrong leave `node`; its children are not before its parent. -/
structure SiftReady (key : α → κ) (v : List α) (node : ℕ) : Prop where
  except : ∀ ⦃i : ℕ⦄ ⦃x y : α⦄, 0 < i → (i - 1) / 2 ≠ node → v[i]? = some x →
    v[(i - 1) / 2]? = some y → key y ≤ key x
  grand : ∀ ⦃i : ℕ⦄ ⦃x y : α⦄, 0 < node → 0 < i → (i - 1) / 2 = node → v[i]? = some x →
    v[(node - 1) / 2]? = some y → key y ≤ key x

/-- The smaller child is a child, and no child has a smaller key. -/
lemma smallerChild_spec {c : ℕ} (h : smallerChild key v node = some c) :
    0 < c ∧ (c - 1) / 2 = node ∧ ∃ y, v[c]? = some y ∧
      ∀ ⦃i : ℕ⦄ ⦃z : α⦄, 0 < i → (i - 1) / 2 = node → v[i]? = some z → key y ≤ key z := by
  have hchild : ∀ i : ℕ, 0 < i → (i - 1) / 2 = node → i = 2 * node + 1 ∨ i = 2 * node + 2 := by
    omega
  rw [smallerChild] at h
  split at h
  · rename_i l r hl hr
    split at h
    · rename_i hlt
      obtain rfl := Option.some.inj h
      refine ⟨by omega, by omega, l, hl, fun i z hi hp hz => ?_⟩
      rcases hchild i hi hp with rfl | rfl
      · rw [hl, Option.some.injEq] at hz
        rw [hz]
      · rw [hr, Option.some.injEq] at hz
        exact hz ▸ hlt.le
    · rename_i hnot
      obtain rfl := Option.some.inj h
      refine ⟨by omega, by omega, r, hr, fun i z hi hp hz => ?_⟩
      rcases hchild i hi hp with rfl | rfl
      · rw [hl, Option.some.injEq] at hz
        exact hz ▸ not_lt.mp hnot
      · rw [hr, Option.some.injEq] at hz
        rw [hz]
  · rename_i l hl hr
    obtain rfl := Option.some.inj h
    refine ⟨by omega, by omega, l, hl, fun i z hi hp hz => ?_⟩
    rcases hchild i hi hp with rfl | rfl
    · rw [hl, Option.some.injEq] at hz
      rw [hz]
    · rw [hr] at hz
      cases hz
  · cases h

/-- A node without a smaller child has no child. -/
lemma smallerChild_none (h : smallerChild key v node = none) (hi : 0 < i)
    (hp : (i - 1) / 2 = node) : v[i]? = none := by
  rw [smallerChild] at h
  split at h
  · split at h <;> cases h
  · cases h
  · rename_i hl
    rw [List.getElem?_eq_none_iff] at hl ⊢
    omega

/-- Nothing below the node comes before it: the heap is whole. -/
lemma SiftReady.finish (h : SiftReady key v node) (hx : v[node]? = some x)
    (hbelow : ∀ ⦃i : ℕ⦄ ⦃z : α⦄, 0 < i → (i - 1) / 2 = node → v[i]? = some z → key x ≤ key z) :
    IsHeap key v := by
  intro i z y hi hz hy
  by_cases hp : (i - 1) / 2 = node
  · rw [hp, hx, Option.some.injEq] at hy
    exact hy ▸ hbelow hi hp hz
  · exact h.except hi hp hz hy

/-- One swap moves the wrong edges one level down. -/
lemma SiftReady.move {c : ℕ} (h : SiftReady key v node) (hx : v[node]? = some x)
    (hc : smallerChild key v node = some c) (hy : v[c]? = some y) (hlt : key y < key x) :
    SiftReady key (swap v node c) c := by
  obtain ⟨hc0, hcp, y', hy', hleast⟩ := smallerChild_spec hc
  rw [hy, Option.some.injEq] at hy'
  subst hy'
  have hne : node ≠ c := by omega
  have hget := getElem?_swap hx hy hne
  refine ⟨fun i z u hi hp hz hu => ?_, fun i z u _ hi hp hz hu => ?_⟩
  · rw [hget] at hz hu
    rw [if_neg hp] at hu
    by_cases hic : i = c
    · -- the edge that was swapped
      subst hic
      rw [if_pos rfl, Option.some.injEq] at hz
      rw [hcp, if_pos rfl, Option.some.injEq] at hu
      rw [← hz, ← hu]
      exact hlt.le
    · rw [if_neg hic] at hz
      by_cases hin : i = node
      · -- the edge into the node: the child that came up is not before the parent
        subst hin
        rw [if_pos rfl, Option.some.injEq] at hz
        rw [if_neg (by omega)] at hu
        exact hz ▸ h.grand hi hc0 hcp hy hu
      · rw [if_neg hin] at hz
        by_cases hpn : (i - 1) / 2 = node
        · rw [if_pos hpn, Option.some.injEq] at hu
          exact hu ▸ hleast hi hpn hz
        · rw [if_neg hpn] at hu
          exact h.except hi hpn hz hu
  · rw [hget, if_neg (by omega), if_neg (by omega)] at hz
    rw [hget, hcp, if_neg hne, if_pos rfl, Option.some.injEq] at hu
    exact hu ▸ h.except hi (by omega) hz (hp ▸ hy)

/-- **The sift** restores the heap, by induction on the fuel: the node goes down at each step. -/
theorem siftDown_isHeap (fuel : ℕ) : ∀ {node : ℕ} {v : List α}, SiftReady key v node →
    v.length ≤ node + fuel → IsHeap key (siftDown key fuel node v) := by
  induction fuel with
  | zero =>
      intro node v h hlen i z y hi hz hy
      rw [siftDown] at hz hy
      refine h.except hi (fun hp => ?_) hz hy
      have := (List.getElem?_eq_some_iff.mp hz).1
      omega
  | succ fuel ih =>
      intro node v h hlen
      rw [siftDown]
      cases hc : smallerChild key v node with
      | none =>
          intro i z y hi hz hy
          refine h.except hi (fun hp => ?_) hz hy
          rw [smallerChild_none hc hi hp] at hz
          cases hz
      | some c =>
          obtain ⟨hc0, hcp, y, hy, hleast⟩ := smallerChild_spec hc
          have hnode : node < v.length := by
            have := (List.getElem?_eq_some_iff.mp hy).1
            omega
          have hx := List.getElem?_eq_getElem hnode
          dsimp only
          rw [hx, hy]
          dsimp only
          split
          · rename_i hlt
            refine ih (h.move hx hc hy hlt) ?_
            rw [(swap_perm v node c).length_eq]
            omega
          · rename_i hnot
            exact h.finish hx fun i z hi hp hz => (not_lt.mp hnot).trans (hleast hi hp hz)

lemma decreaseKeyTop_perm (v : List α) : (decreaseKeyTop key v).Perm v := siftDown_perm _ _ _

/-- The top element may have changed to one with any key. -/
theorem decreaseKeyTop_isHeap (h : IsHeap key v) (x : α) :
    IsHeap key (decreaseKeyTop key (v.set 0 x)) := by
  refine siftDown_isHeap _ ⟨fun i z y hi hp hz hy => ?_, fun i z y h0 => absurd h0 (lt_irrefl 0)⟩
    (by omega)
  rw [List.getElem?_set_ne (by omega)] at hz
  rw [List.getElem?_set_ne (Ne.symm hp)] at hy
  exact h hi hz hy

/-! ### The algorithms of a standard library -/

/-- `push_heap`, `pop_heap` and `make_heap` of a standard library, with what they promise. -/
structure StdHeap (α κ : Type) [LinearOrder κ] where
  push : (α → κ) → List α → α → List α
  pop : (α → κ) → List α → List α
  make : (α → κ) → List α → List α
  push_perm : ∀ key v x, IsHeap key v → (push key v x).Perm (x :: v)
  push_isHeap : ∀ key v x, IsHeap key v → IsHeap key (push key v x)
  pop_perm : ∀ key v x, IsHeap key (x :: v) → (pop key (x :: v)).Perm v
  pop_isHeap : ∀ key v x, IsHeap key (x :: v) → IsHeap key (pop key (x :: v))
  make_perm : ∀ key v, (make key v).Perm v
  make_isHeap : ∀ key v, IsHeap key (make key v)

namespace StdHeap

/-- The first element with the property goes, and the heap is made anew; `none` if there is no
such element. -/
def deleteSingle (std : StdHeap α κ) (key : α → κ) (p : α → Bool) (v : List α) :
    Option (α × List α) :=
  (v.find? p).map fun x => (x, std.make key (v.eraseP p))

lemma deleteSingle_none {std : StdHeap α κ} {p : α → Bool}
    (h : std.deleteSingle key p v = none) : ∀ x ∈ v, p x = false := by
  rw [deleteSingle, Option.map_eq_none_iff, List.find?_eq_none] at h
  exact fun x hx => by simpa using h x hx

lemma deleteSingle_some {std : StdHeap α κ} {p : α → Bool}
    (h : std.deleteSingle key p v = some (x, w)) :
    p x = true ∧ v.Perm (x :: w) ∧ IsHeap key w := by
  rw [deleteSingle, Option.map_eq_some_iff] at h
  obtain ⟨z, hz, heq⟩ := h
  obtain ⟨rfl, rfl⟩ := Prod.mk.inj heq
  refine ⟨List.find?_some hz, ?_, std.make_isHeap key _⟩
  obtain ⟨hp, front, back, rfl, hfront⟩ := List.find?_eq_some_iff_append.mp hz
  have herase : (front ++ z :: back).eraseP p = front ++ back := by
    rw [List.eraseP_append_right _ (fun b hb => by simpa using hfront b hb),
      List.eraseP_cons_of_pos hp]
  rw [herase]
  exact List.perm_middle.trans ((std.make_perm key _).symm.cons z)

/-- An implementation that keeps the list in order. -/
def sorted (α κ : Type) [LinearOrder κ] : StdHeap α κ where
  push key v x := (x :: v).insertionSort fun a b => key a ≤ key b
  pop key v := v.tail.insertionSort fun a b => key a ≤ key b
  make key v := v.insertionSort fun a b => key a ≤ key b
  push_perm _ _ _ _ := List.perm_insertionSort _ _
  push_isHeap key _ _ _ := isHeap_of_pairwise (sorted_pairwise key _)
  pop_perm _ _ _ _ := List.perm_insertionSort _ _
  pop_isHeap key _ _ _ := isHeap_of_pairwise (sorted_pairwise key _)
  make_perm _ _ := List.perm_insertionSort _ _
  make_isHeap key _ := isHeap_of_pairwise (sorted_pairwise key _)
where
  sorted_pairwise (key : α → κ) (v : List α) :
      (v.insertionSort fun a b => key a ≤ key b).Pairwise fun a b => key a ≤ key b := by
    have : Std.Total fun a b : α => key a ≤ key b := ⟨fun a b => le_total (key a) (key b)⟩
    have : IsTrans α fun a b => key a ≤ key b := ⟨fun _ _ _ h h' => h.trans h'⟩
    exact List.pairwise_insertionSort _ v

end StdHeap

end MinHeap
