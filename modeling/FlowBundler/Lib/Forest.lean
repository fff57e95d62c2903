import Mathlib.Tactic

/-!
Forests given by the parents of their nodes.

* `Depth parent c n`: the node `c` has `n` ancestors; `Depth.lt_card`: these are fewer than the
  nodes.
* `Above parent a c`: `a` is the node `c` or an ancestor of it.
* `Rooted parent`: every node has a root; `Rooted.attach`, `Rooted.detach`: this stays so when a
  node is put below one that is not below it, and when it is cut off.

That a node has a root is said by a number, the depth, so that no node is its own ancestor and the
ancestors of a node are all different: they have all the smaller depths.  Putting `c` below `p`
changes the parents above a node only if `c` is the node or above it, and then its root is the one
of `p`, whose own ancestors have not changed, since `c` is not among them.
-/

namespace Forest

variable {α : Type} {parent parent' : α → Option α} {a b c p : α} {n m : ℕ}

/-- The node has `n` ancestors, the last of them a root. -/
inductive Depth (parent : α → Option α) : α → ℕ → Prop
  | root {c : α} (h : parent c = none) : Depth parent c 0
  | child {c p : α} {n : ℕ} (h : parent c = some p) (hp : Depth parent p n) :
      Depth parent c (n + 1)

/-- The first node is the second or an ancestor of it. -/
inductive Above (parent : α → Option α) (a : α) : α → Prop
  | refl : Above parent a a
  | step {c p : α} (h : parent c = some p) (hp : Above parent a p) : Above parent a c

/-- Every node has a root. -/
def Rooted (parent : α → Option α) : Prop := ∀ c, ∃ n, Depth parent c n

lemma Depth.unique (h : Depth parent c n) : ∀ {m : ℕ}, Depth parent c m → n = m := by
  induction h with
  | root h =>
      intro m hm
      cases hm with
      | root => rfl
      | child h' => exact absurd (h.symm.trans h') (by simp)
  | child h _ ih =>
      intro m hm
      cases hm with
      | root h' => exact absurd (h.symm.trans h') (by simp)
      | child h' hp' =>
          obtain rfl := Option.some.inj (h.symm.trans h')
          rw [ih hp']

/-- A node is not its own parent. -/
lemma Depth.parent_ne (h : Depth parent c n) : parent c ≠ some c := by
  intro hself
  cases h with
  | root h => exact absurd (h.symm.trans hself) (by simp)
  | child h hp =>
      obtain rfl := Option.some.inj (h.symm.trans hself)
      have := (Depth.child h hp).unique hp
      omega

/-- There is an ancestor at every depth. -/
lemma Depth.ancestor (h : Depth parent c n) :
    ∀ k ≤ n, ∃ a, Depth parent a k ∧ Above parent a c := by
  induction h with
  | root h =>
      intro k hk
      obtain rfl := Nat.le_zero.mp hk
      exact ⟨_, .root h, .refl⟩
  | child h hp ih =>
      intro k hk
      rcases Nat.lt_succ_iff_lt_or_eq.mp (Nat.lt_succ_of_le hk) with hlt | rfl
      · obtain ⟨a, ha, habove⟩ := ih k (by omega)
        exact ⟨a, ha, .step h habove⟩
      · exact ⟨_, .child h hp, .refl⟩

lemma Above.mem {s : Finset α} (hs : ∀ c p, parent c = some p → p ∈ s) (h : Above parent a c)
    (hc : c ∈ s) : a ∈ s := by
  induction h with
  | refl => exact hc
  | step h _ ih => exact ih (hs _ _ h)

lemma Above.depth_le (h : Above parent a c) (ha : Depth parent a n) :
    ∀ {m : ℕ}, Depth parent c m → n ≤ m := by
  induction h with
  | refl => exact fun hc => (ha.unique hc).le
  | step h _ ih =>
      intro m hc
      cases hc with
      | root h' => exact absurd (h.symm.trans h') (by simp)
      | child h' hp =>
          obtain rfl := Option.some.inj (h.symm.trans h')
          exact (ih hp).trans (Nat.le_succ _)

/-- A node is not above its own parent. -/
lemma Depth.not_above_parent (hp : Depth parent p n) (h : parent c = some p) :
    ¬ Above parent c p := fun habove => by
  have := habove.depth_le (.child h hp) hp
  omega

lemma Above.up (h : Above parent a c) (hp : parent a = some p) : Above parent p c := by
  induction h with
  | refl => exact .step hp .refl
  | step h _ ih => exact .step h ih

/-- **A node has fewer ancestors than there are nodes**: they have different depths. -/
theorem Depth.lt_card {s : Finset α} (hs : ∀ c p, parent c = some p → p ∈ s) (hc : c ∈ s)
    (h : Depth parent c n) : n < s.card := by
  have : Nonempty α := ⟨c⟩
  choose! f hdepth habove using h.ancestor
  have hinj : Set.InjOn f (Finset.range (n + 1) : Set ℕ) := by
    intro i hi j hj hij
    rw [Finset.coe_range, Set.mem_Iio] at hi hj
    have hi' := hdepth i (by omega)
    rw [hij] at hi'
    exact hi'.unique (hdepth j (by omega))
  have hle := Finset.card_le_card_of_injOn f (fun i hi => by
    rw [Finset.mem_coe, Finset.mem_range] at hi
    exact (habove i (by omega)).mem hs hc) hinj
  rwa [Finset.card_range] at hle

/-- The depth only depends on the ancestors. -/
lemma Depth.congr (h : Depth parent c n) (heq : ∀ a, Above parent a c → parent' a = parent a) :
    Depth parent' c n := by
  induction h with
  | root h => exact .root ((heq _ .refl).trans h)
  | child h _ ih => exact .child ((heq _ .refl).trans h) (ih fun a ha => heq a (.step h ha))

/-- The ancestors of a node, from its parent up. -/
def ancestors (parent : α → Option α) : ℕ → α → List α
  | 0, _ => []
  | fuel + 1, c =>
      match parent c with
      | none => []
      | some p => p :: ancestors parent fuel p

lemma mem_ancestors (fuel : ℕ) : ∀ {c : α} {n : ℕ}, Depth parent c n → n ≤ fuel →
    (a ∈ ancestors parent fuel c ↔ Above parent a c ∧ a ≠ c) := by
  have hroot : ∀ {c : α}, parent c = none → ¬ (Above parent a c ∧ a ≠ c) := by
    rintro c h ⟨habove, hne⟩
    cases habove with
    | refl => exact hne rfl
    | step h' _ => exact absurd (h.symm.trans h') (by simp)
  induction fuel with
  | zero =>
      intro c n hd hn
      rw [Nat.le_zero.mp hn] at hd
      cases hd with
      | root h => exact ⟨fun hmem => absurd hmem List.not_mem_nil, fun h' => absurd h' (hroot h)⟩
  | succ fuel ih =>
      intro c n hd hn
      rw [ancestors]
      cases hd with
      | root h =>
          rw [h]
          exact ⟨fun hmem => absurd hmem List.not_mem_nil, fun h' => absurd h' (hroot h)⟩
      | @child _ p m h hp =>
          rw [h, List.mem_cons, ih hp (by omega)]
          constructor
          · rintro (rfl | ⟨habove, -⟩)
            · exact ⟨.step h .refl, fun heq => hp.not_above_parent h (heq ▸ .refl)⟩
            · exact ⟨.step h habove, fun heq => hp.not_above_parent h (heq ▸ habove)⟩
          · rintro ⟨habove, hne⟩
            cases habove with
            | refl => exact absurd rfl hne
            | step h' habove =>
                obtain rfl := Option.some.inj (h.symm.trans h')
                by_cases hap : a = p
                · exact .inl hap
                · exact .inr ⟨habove, hap⟩

variable [DecidableEq α]

/-- A node is put below one that is not below it. -/
theorem Rooted.attach (h : Rooted parent) (hc : ¬ Above parent c p) :
    Rooted (Function.update parent c (some p)) := by
  obtain ⟨n, hp⟩ := h p
  have hp' : Depth (Function.update parent c (some p)) p n := hp.congr fun a ha =>
    Function.update_of_ne (fun hac : a = c => hc (hac ▸ ha)) _ _
  intro d
  obtain ⟨m, hd⟩ := h d
  induction hd with
  | @root d h' =>
      by_cases hdc : d = c
      · exact ⟨n + 1, .child (hdc ▸ Function.update_self _ _ _) hp'⟩
      · exact ⟨0, .root ((Function.update_of_ne hdc _ _).trans h')⟩
  | @child d q m h' _ ih =>
      by_cases hdc : d = c
      · exact ⟨n + 1, .child (hdc ▸ Function.update_self _ _ _) hp'⟩
      · obtain ⟨k, hq⟩ := ih
        exact ⟨k + 1, .child ((Function.update_of_ne hdc _ _).trans h') hq⟩

/-- A node is cut off. -/
theorem Rooted.detach (h : Rooted parent) (c : α) : Rooted (Function.update parent c none) := by
  intro d
  obtain ⟨m, hd⟩ := h d
  induction hd with
  | @root d h' =>
      by_cases hdc : d = c
      · exact ⟨0, .root (hdc ▸ Function.update_self _ _ _)⟩
      · exact ⟨0, .root ((Function.update_of_ne hdc _ _).trans h')⟩
  | @child d q m h' _ ih =>
      by_cases hdc : d = c
      · exact ⟨0, .root (hdc ▸ Function.update_self _ _ _)⟩
      · obtain ⟨k, hq⟩ := ih
        exact ⟨k + 1, .child ((Function.update_of_ne hdc _ _).trans h') hq⟩

end Forest
