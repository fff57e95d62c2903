import Mathlib.Tactic

/-!
Depth-first search with one set of visited nodes, which stops at some of them.

* `visit`, `explore`: the search from a node, and from the successors of a root.  Something is done
  at each node when it is visited.
* `Reaches next stop a b`: a path from `a` to `b` that goes on only from nodes where the search does
  not stop.
* `visit_reaches`: the first search from a node visits, once each, the nodes that it reaches.
* `explore_spec`: the search visits, once each, the nodes that a successor of the root reaches.

The search may stop at a node without looking at its successors, and it may stop at nodes that are
reached on other paths as well; since every node is visited once, what counts is whether some path
reaches it.  `visit_spec` says of the visited nodes that they are reached and closed under
successors (`Found`), by induction on a fuel that the nodes not visited yet bound; a path then stays
within them, by induction on the path.
-/

namespace Explore

variable {α σ : Type} [DecidableEq α] {next : α → List α} {stop : α → Bool} {act : σ → α → σ}
  {a b c : α} {seen new : List α}

/-- The search from `c`, which was not visited; `none` when the fuel runs out. -/
def visit (next : α → List α) (stop : α → Bool) (act : σ → α → σ) :
    ℕ → List α × σ → α → Option (List α × σ)
  | 0, _, _ => none
  | fuel + 1, (seen, s), c =>
      if stop c then some (c :: seen, act s c)
      else (next c).foldlM
        (fun st d => if d ∈ st.1 then some st else visit next stop act fuel st d)
        (c :: seen, act s c)

/-- The search from the successors of `root`. -/
def explore (next : α → List α) (stop : α → Bool) (act : σ → α → σ) (fuel : ℕ) (s : σ) (root : α) :
    Option (List α × σ) :=
  (next root).foldlM
    (fun st d => if d ∈ st.1 then some st else visit next stop act fuel st d) ([root], s)

/-- A path that goes on only from nodes where the search does not stop. -/
inductive Reaches (next : α → List α) (stop : α → Bool) (a : α) : α → Prop
  | refl : Reaches next stop a a
  | step {b c : α} (h : Reaches next stop a b) (hstop : stop b = false) (hc : c ∈ next b) :
      Reaches next stop a c

omit [DecidableEq α] in
lemma Reaches.head (hstop : stop a = false) (hb : b ∈ next a) (h : Reaches next stop b c) :
    Reaches next stop a c := by
  induction h with
  | refl => exact .step .refl hstop hb
  | step _ hstop' hc ih => exact ih.step hstop' hc

omit [DecidableEq α] in
/-- Two searches that agree where the first goes. -/
lemma Reaches.congr {next' : α → List α} {stop' : α → Bool} {U : α → Prop}
    (hU : ∀ c, U c → ∀ d ∈ next c, U d) (hnext : ∀ c, U c → next' c = next c)
    (hstop : ∀ c, U c → stop' c = stop c) (ha : U a) (h : Reaches next stop a b) :
    U b ∧ Reaches next' stop' a b := by
  induction h with
  | refl => exact ⟨ha, .refl⟩
  | step _ hgo hc ih =>
      obtain ⟨hb, h'⟩ := ih
      exact ⟨hU _ hb _ hc, h'.step ((hstop _ hb).trans hgo) ((hnext _ hb).symm ▸ hc)⟩

/-- What is done at the visited nodes, the oldest of which is the last. -/
def effects (act : σ → α → σ) (s : σ) (new : List α) : σ := new.foldr (fun c s => act s c) s

omit [DecidableEq α] in
lemma effects_append (s : σ) (l l' : List α) :
    effects act s (l ++ l') = effects act (effects act s l') l :=
  List.foldr_append

/-- What a search adds to the visited nodes: nodes that one of `from` reaches, none of them visited
before, and with each its successors. -/
structure Found (next : α → List α) (stop : α → Bool) (src seen new : List α) : Prop where
  nodup : new.Nodup
  fresh : ∀ x ∈ new, x ∉ seen
  reached : ∀ x ∈ new, ∃ d ∈ src, Reaches next stop d x
  closed : ∀ x ∈ new, stop x = false → ∀ d ∈ next x, d ∈ new ++ seen

omit [DecidableEq α] in
lemma Found.nil (src seen : List α) : Found next stop src seen [] :=
  ⟨List.nodup_nil, nofun, nofun, nofun⟩

omit [DecidableEq α] in
/-- One search after another. -/
lemma Found.append {src src' new' : List α} (h : Found next stop src seen new)
    (h' : Found next stop src' (new ++ seen) new') :
    Found next stop (src ++ src') seen (new' ++ new) := by
  refine ⟨List.nodup_append.mpr ⟨h'.nodup, h.nodup, ?_⟩, fun x hx => ?_, fun x hx => ?_,
    fun x hx hstop d hd => ?_⟩
  · rintro x hx y hy rfl
    exact h'.fresh x hx (List.mem_append_left _ hy)
  · rcases List.mem_append.mp hx with hx | hx
    · exact fun hseen => h'.fresh x hx (List.mem_append_right _ hseen)
    · exact h.fresh x hx
  · rcases List.mem_append.mp hx with hx | hx
    · obtain ⟨d, hd, hreach⟩ := h'.reached x hx
      exact ⟨d, List.mem_append_right _ hd, hreach⟩
    · obtain ⟨d, hd, hreach⟩ := h.reached x hx
      exact ⟨d, List.mem_append_left _ hd, hreach⟩
  · rw [List.append_assoc]
    rcases List.mem_append.mp hx with hx | hx
    · exact h'.closed x hx hstop d hd
    · exact List.mem_append_right _ (h.closed x hx hstop d hd)

/-- The nodes that are not visited yet. -/
def unseen (U : Finset α) (seen : List α) : ℕ := (U.filter fun x => x ∉ seen).card

lemma unseen_le_of_subset {U : Finset α} {seen' : List α} (h : ∀ x ∈ seen, x ∈ seen') :
    unseen U seen' ≤ unseen U seen :=
  Finset.card_le_card fun _ hx => Finset.mem_filter.mpr
    ⟨(Finset.mem_filter.mp hx).1, fun hseen => (Finset.mem_filter.mp hx).2 (h _ hseen)⟩

lemma unseen_cons_lt {U : Finset α} (hc : c ∈ U) (hfresh : c ∉ seen) :
    unseen U (c :: seen) < unseen U seen := by
  refine Finset.card_lt_card ⟨fun x hx => Finset.mem_filter.mpr ⟨(Finset.mem_filter.mp hx).1,
    fun hseen => (Finset.mem_filter.mp hx).2 (List.mem_cons_of_mem c hseen)⟩, fun hsub => ?_⟩
  exact (Finset.mem_filter.mp (hsub (Finset.mem_filter.mpr ⟨hc, hfresh⟩))).2 List.mem_cons_self

/-- The loop over the successors, by induction on them. -/
lemma foldlM_spec {U : Finset α} {fuel : ℕ}
    (hvisit : ∀ {seen : List α} {s : σ} {c : α}, c ∈ U → c ∉ seen → unseen U seen ≤ fuel →
      ∃ new, visit next stop act fuel (seen, s) c
          = some (new ++ seen, effects act s new) ∧
        c ∈ new ∧ Found next stop [c] seen new) (ds : List α) :
    ∀ {seen : List α} {s : σ}, (∀ d ∈ ds, d ∈ U) → unseen U seen ≤ fuel →
      ∃ new, ds.foldlM
          (fun st d => if d ∈ st.1 then some st else visit next stop act fuel st d) (seen, s)
          = some (new ++ seen, effects act s new) ∧
        (∀ d ∈ ds, d ∈ new ++ seen) ∧ Found next stop ds seen new := by
  induction ds with
  | nil => exact fun _ _ => ⟨[], rfl, nofun, .nil _ _⟩
  | cons d ds ih =>
      intro seen s hU hfuel
      rw [List.foldlM_cons]
      dsimp only
      by_cases hseen : d ∈ seen
      · rw [if_pos hseen]
        obtain ⟨new, hrun, hmem, hfound⟩ :=
          ih (s := s) (fun e he => hU e (List.mem_cons_of_mem d he)) hfuel
        have hfound' := (Found.nil [d] seen).append hfound
        rw [List.append_nil] at hfound'
        refine ⟨new, hrun, fun e he => ?_, hfound'⟩
        rcases List.mem_cons.mp he with rfl | he
        · exact List.mem_append_right _ hseen
        · exact hmem e he
      · rw [if_neg hseen]
        obtain ⟨new, hrun, hd, hfound⟩ := hvisit (s := s) (hU d List.mem_cons_self) hseen hfuel
        obtain ⟨new', hrun', hmem, hfound'⟩ :=
          ih (s := effects act s new) (fun e he => hU e (List.mem_cons_of_mem d he))
            ((unseen_le_of_subset fun x hx => List.mem_append_right new hx).trans hfuel)
        refine ⟨new' ++ new, ?_, fun e he => ?_, hfound.append hfound'⟩
        · rw [hrun, effects_append, List.append_assoc]
          exact hrun'
        · rw [List.append_assoc]
          rcases List.mem_cons.mp he with rfl | he
          · exact List.mem_append_right _ (List.mem_append_left _ hd)
          · exact hmem e he

/-- **The search from a node**, by induction on the fuel: a visited node takes one. -/
theorem visit_spec {U : Finset α} (hU : ∀ c ∈ U, ∀ d ∈ next c, d ∈ U) (fuel : ℕ) :
    ∀ {seen : List α} {s : σ} {c : α}, c ∈ U → c ∉ seen → unseen U seen ≤ fuel →
      ∃ new, visit next stop act fuel (seen, s) c
          = some (new ++ seen, effects act s new) ∧
        c ∈ new ∧ Found next stop [c] seen new := by
  induction fuel with
  | zero =>
      intro seen s c hc hfresh hfuel
      have := unseen_cons_lt hc hfresh
      omega
  | succ fuel ih =>
      intro seen s c hc hfresh hfuel
      have hlt := unseen_cons_lt hc hfresh
      rw [visit]
      by_cases hstop : stop c = true
      · rw [if_pos hstop]
        refine ⟨[c], ?_, List.mem_singleton_self c, List.nodup_singleton c, fun x hx => ?_,
          fun x hx => ?_, fun x hx hx' => ?_⟩
        · rfl
        · rwa [List.mem_singleton.mp hx]
        · exact ⟨c, List.mem_singleton_self c, List.mem_singleton.mp hx ▸ .refl⟩
        · rw [List.mem_singleton.mp hx, hstop] at hx'
          cases hx'
      · rw [if_neg hstop]
        have hgo := Bool.eq_false_of_not_eq_true hstop
        obtain ⟨new, hrun, hmem, hfound⟩ :=
          foldlM_spec ih (next c) (s := act s c) (hU c hc) (by omega : unseen U (c :: seen) ≤ fuel)
        have hsplit : new ++ c :: seen = (new ++ [c]) ++ seen := (List.append_cons new c seen)
        refine ⟨new ++ [c], ?_, List.mem_append_right _ (List.mem_singleton_self c),
          ?_, fun x hx => ?_, fun x hx => ?_, fun x hx hx' d hd => ?_⟩
        · rw [hrun, hsplit, effects_append]
          rfl
        · refine List.nodup_append.mpr ⟨hfound.nodup, List.nodup_singleton c, ?_⟩
          rintro x hx y hy rfl
          exact hfound.fresh x hx (List.mem_singleton.mp hy ▸ List.mem_cons_self)
        · rcases List.mem_append.mp hx with hx | hx
          · exact fun hseen => hfound.fresh x hx (List.mem_cons_of_mem c hseen)
          · rwa [List.mem_singleton.mp hx]
        · refine ⟨c, List.mem_singleton_self c, ?_⟩
          rcases List.mem_append.mp hx with hx | hx
          · obtain ⟨d, hd, hreach⟩ := hfound.reached x hx
            exact hreach.head hgo hd
          · exact List.mem_singleton.mp hx ▸ .refl
        · rw [← hsplit]
          rcases List.mem_append.mp hx with hx | hx
          · exact hfound.closed x hx hx' d hd
          · exact hmem d (List.mem_singleton.mp hx ▸ hd)

/-- **The first search** from a node visits, once each, the nodes that it reaches. -/
theorem visit_reaches {U : Finset α} (hU : ∀ c ∈ U, ∀ d ∈ next c, d ∈ U) (hc : c ∈ U) {fuel : ℕ}
    (hfuel : U.card ≤ fuel) (s : σ) :
    ∃ new, visit next stop act fuel ([], s) c = some (new, effects act s new) ∧ new.Nodup ∧
      ∀ x, x ∈ new ↔ Reaches next stop c x := by
  obtain ⟨new, hrun, hcnew, hfound⟩ :=
    visit_spec hU fuel (s := s) hc List.not_mem_nil ((Finset.card_filter_le _ _).trans hfuel)
  rw [List.append_nil] at hrun
  refine ⟨new, hrun, hfound.nodup, fun x => ⟨fun hx => ?_, fun hreach => ?_⟩⟩
  · obtain ⟨d, hd, hreach⟩ := hfound.reached x hx
    exact List.mem_singleton.mp hd ▸ hreach
  · induction hreach with
    | refl => exact hcnew
    | step _ hgo hd ih => exact List.append_nil new ▸ hfound.closed _ ih hgo _ hd

/-- **The search** visits, once each, the nodes that a successor of the root reaches; it stops at
the root. -/
theorem explore_spec {U : Finset α} (hU : ∀ c ∈ U, ∀ d ∈ next c, d ∈ U) {root : α}
    (hroot : root ∈ U) (hstop : stop root = true) {fuel : ℕ} (hfuel : U.card ≤ fuel) (s : σ) :
    ∃ new, explore next stop act fuel s root = some (new ++ [root], effects act s new) ∧
      new.Nodup ∧
      ∀ x, x ∈ new ↔ x ≠ root ∧ ∃ d ∈ next root, Reaches next stop d x := by
  have hunseen : unseen U [root] ≤ fuel := (Finset.card_filter_le _ _).trans hfuel
  obtain ⟨new, hrun, hmem, hfound⟩ :
      ∃ new, explore next stop act fuel s root = some (new ++ [root], effects act s new) ∧
        (∀ d ∈ next root, d ∈ new ++ [root]) ∧ Found next stop (next root) [root] new :=
    foldlM_spec (visit_spec hU fuel) (next root) (hU root hroot) hunseen
  refine ⟨new, hrun, hfound.nodup, fun x => ⟨fun hx => ⟨?_, hfound.reached x hx⟩, ?_⟩⟩
  · rintro rfl
    exact hfound.fresh x hx (List.mem_singleton_self x)
  · rintro ⟨hne, d, hd, hreach⟩
    -- along the path every node is visited
    have hall : x ∈ new ++ [root] := by
      induction hreach with
      | refl => exact hmem d hd
      | @step b c _ hgo hc ih =>
          have hb : b ≠ root := by
            rintro rfl
            rw [hstop] at hgo
            cases hgo
          have hb' := (List.mem_append.mp (ih hb)).resolve_right fun h =>
            hb (List.mem_singleton.mp h)
          exact hfound.closed b hb' hgo c hc
    exact (List.mem_append.mp hall).resolve_right fun h => hne (List.mem_singleton.mp h)

end Explore
