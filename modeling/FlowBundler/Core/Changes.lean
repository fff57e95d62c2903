import FlowBundler.Core.Rounds

/-!
Changes of the tree of a scheduler, and whole runs.

* `setParent`, `Linked.attach`, `Linked.detach`: the forest after one class has got another parent.
  It is one again when the list of the new parent tells the same, provided that the class is not
  above its new parent, which nothing checks.
* `Moved s s' c parent`: the class `c` now has this parent, and all else is where it was.
* `addChild_spec`, `removeChild_spec`, `attachOrphan_spec`, `adjustDefault_spec`: the changes return
  and keep the invariant.  Each first changes the lists, which may leave the class waiting for a
  walk, and then walks; `Moved.of_walk` adds the walk to what has been moved.
* `updateTcParams_inv`: a new limit keeps the invariant, whatever it is.  The flag of the class is
  not looked at: a class that was blocked when its limit was zero stays blocked.
* `Admits`: what the callers see to, and what nothing checks; `Reach pf`: the schedulers reached by
  any operations that are admitted.
* `inv_step`, `reach_inv`: every operation returns and keeps the invariant, hence every reachable
  scheduler satisfies it.  `exists_pair` runs a small one, with rational passes.
-/

namespace Bess

open Forest MinHeap Classes Machine

variable {κ : Type} [LinearOrder κ] {pf : Platform κ}

/-! ### The forest -/

namespace Classes

variable {tc : Classes κ} {t : TrafficClass κ} {num c p : ℕ} {parent : Option ℕ}

omit [LinearOrder κ] in
/-- An address that was not given has no children. -/
lemma Linked.children_unborn (hl : Linked tc num) (hc : num ≤ c) : (tc c).children = [] := by
  refine List.eq_nil_iff_forall_not_mem.mpr fun d hd => ?_
  exact absurd (hl.bound d c ((hl.mem_iff d c).mp hd)).2 (not_lt.mpr hc)

omit [LinearOrder κ] in
lemma Linked.parents_unborn (hl : Linked tc num) (hc : num ≤ c) : tc.parents c = none := by
  cases hp : tc.parents c with
  | none => rfl
  | some p => exact absurd (hl.bound c p hp).1 (not_lt.mpr hc)

/-- The class `c` gets another parent, and the data of `p` are changed. -/
def setParent (tc : Classes κ) (c p : ℕ) (parent : Option ℕ) (t : TrafficClass κ) : Classes κ :=
  Function.update (Function.update tc c { tc c with parent := parent }) p t

omit [LinearOrder κ] in
variable (parent) in
lemma setParent_parents (hne : p ≠ c) (ht : (tc p).Regrouped t) :
    parents (setParent tc c p parent t) = Function.update tc.parents c parent := by
  rw [setParent, parents_update (by rw [Function.update_of_ne hne]; exact ht.parent)]
  funext d
  by_cases hd : d = c
  · rw [hd, parents, Function.update_self, Function.update_self]
  · rw [parents, Function.update_of_ne hd, Function.update_of_ne hd, parents]

omit [LinearOrder κ] in
/-- The other classes, and all fields but two, are the old ones. -/
lemma setParent_field {β : Type} {f : TrafficClass κ → β} (ht : f t = f (tc p))
    (hf : ∀ (t : TrafficClass κ) x, f { t with parent := x } = f t) (q : ℕ) :
    f (setParent tc c p parent t q) = f (tc q) := by
  rw [setParent]
  by_cases hqp : q = p
  · rw [hqp, Function.update_self]
    exact ht
  · rw [Function.update_of_ne hqp]
    by_cases hqc : q = c
    · rw [hqc, Function.update_self]
      exact hf (tc c) parent
    · rw [Function.update_of_ne hqc]

omit [LinearOrder κ] in
/-- The forest is one again if the list of `p` and the new parent tell the same. -/
lemma Linked.of_setParent (hl : Linked tc num) (hne : p ≠ c) (ht : (tc p).Regrouped t)
    (hbound : ∀ q, parent = some q → c < num ∧ q < num)
    (hother : ∀ q, q ≠ p → tc.parents c ≠ some q ∧ parent ≠ some q)
    (hmem : ∀ d, d ∈ t.children ↔ Function.update tc.parents c parent d = some p)
    (hnd : t.children.Nodup) (hrooted : Rooted (Function.update tc.parents c parent)) :
    Linked (setParent tc c p parent t) num := by
  have hpar := setParent_parents parent hne ht
  have hsame : ∀ q, q ≠ p → (setParent tc c p parent t q).children = (tc q).children :=
    fun q hqp => by
      rw [setParent, Function.update_of_ne hqp]
      by_cases hqc : q = c
      · rw [hqc, Function.update_self]
        rfl
      · rw [Function.update_of_ne hqc]
  have hself : (setParent tc c p parent t p).children = t.children := by
    rw [setParent, Function.update_self]
  refine ⟨fun d q hd => ?_, fun d q => ?_, fun q => ?_, hpar ▸ hrooted⟩
  · rw [hpar] at hd
    by_cases hdc : d = c
    · rw [hdc, Function.update_self] at hd
      exact hdc ▸ hbound q hd
    · rw [Function.update_of_ne hdc] at hd
      exact hl.bound d q hd
  · rw [hpar]
    by_cases hqp : q = p
    · rw [hqp, hself]
      exact hmem d
    · rw [hsame q hqp, hl.mem_iff]
      by_cases hdc : d = c
      · rw [hdc, Function.update_self]
        exact ⟨fun h => absurd h (hother q hqp).1, fun h => absurd h (hother q hqp).2⟩
      · rw [Function.update_of_ne hdc]
  · by_cases hqp : q = p
    · rw [hqp, hself]
      exact hnd
    · rw [hsame q hqp]
      exact hl.nodup q

omit [LinearOrder κ] in
/-- A class without a parent is put below one that is not below it. -/
lemma Linked.attach (hl : Linked tc num) (hc : c < num) (hp : p < num)
    (hnone : tc.parents c = none) (hcp : ¬ Above tc.parents c p) (ht : (tc p).Regrouped t)
    (hch : t.children.Perm (c :: (tc p).children)) : Linked (setParent tc c p (some p) t) num := by
  refine Linked.of_setParent hl (fun hpc => hcp (hpc ▸ .refl)) ht (fun q hq => ?_) (fun q hq => ?_)
    (fun d => ?_) ?_ (hl.rooted.attach hcp)
  · exact ⟨hc, Option.some.inj hq ▸ hp⟩
  · rw [hnone, Ne, Ne, Option.some.injEq]
    exact ⟨nofun, Ne.symm hq⟩
  · rw [hch.mem_iff, List.mem_cons]
    by_cases hdc : d = c
    · rw [hdc, Function.update_self]
      exact ⟨fun _ => rfl, fun _ => .inl rfl⟩
    · rw [Function.update_of_ne hdc, ← hl.mem_iff]
      exact ⟨fun hor => hor.resolve_left hdc, .inr⟩
  · rw [hch.nodup_iff, List.nodup_cons]
    refine ⟨fun hmem => ?_, hl.nodup p⟩
    rw [hl.mem_iff, hnone] at hmem
    cases hmem

omit [LinearOrder κ] in
/-- A class is taken from its parent. -/
lemma Linked.detach (hl : Linked tc num) (hc : tc.parents c = some p) (ht : (tc p).Regrouped t)
    (hch : (tc p).children.Perm (c :: t.children)) : Linked (setParent tc c p none t) num := by
  obtain ⟨hnot, hnd⟩ := List.nodup_cons.mp (hch.nodup_iff.mp (hl.nodup p))
  refine Linked.of_setParent hl (fun hpc => hl.parent_ne (hpc ▸ hc)) ht nofun (fun q hq => ?_)
    (fun d => ?_) hnd (hl.rooted.detach c)
  · rw [hc, Ne, Option.some.injEq]
    exact ⟨Ne.symm hq, nofun⟩
  · by_cases hdc : d = c
    · rw [hdc, Function.update_self]
      exact ⟨fun hmem => absurd hmem hnot, nofun⟩
    · rw [Function.update_of_ne hdc, ← hl.mem_iff, hch.mem_iff, List.mem_cons]
      exact ⟨.inr, fun hor => hor.resolve_left hdc⟩

end Classes

namespace Scheduler

variable {tc : Classes κ} {t : TrafficClass κ} {num tsc c p : ℕ} {queue : List ℕ}
  {s s' : Scheduler κ} {arg : TrafficClass.ChildArg} {parent : Option ℕ}

/-- **A new class** at the next address. -/
theorem Sound.create (h : Sound tc num queue) (new : NewClass) :
    Sound (Function.update tc num (new.create pf)) (num + 1) queue := by
  have hpar : (new.create pf).parent = (tc num).parent :=
    (Linked.parents_unborn h.linked le_rfl).symm
  have hch : (new.create pf).children.Perm (tc num).children := by
    rw [Linked.children_unborn h.linked le_rfl]
    cases new <;> exact List.Perm.refl _
  have hl := h.linked.update hpar hch
  have hwake : ∀ d, wakeupTime (Function.update tc num (new.create pf)) d = tc.wakeupTime d := by
    intro d
    rw [wakeupTime_update]
    by_cases hd : d = num
    · rw [hd, Function.update_self]
      exact (h.unborn num le_rfl).symm
    · rw [Function.update_of_ne hd]
  refine ⟨⟨fun c p hp => ?_, hl.mem_iff, hl.nodup, hl.rooted⟩, fun q => ?_, h.queue.congr hwake,
    fun d hd => ?_⟩
  · have := hl.bound c p hp
    omega
  · refine h.linked.ok_update hch ?_ (fun q _ => h.ok q) (.inr ?_)
    · cases new with
      | priority => exact ⟨List.Pairwise.nil, rfl, rfl⟩
      | weightedFair resource => exact ⟨⟨isHeap_nil, nofun, nofun⟩, rfl⟩
      | roundRobin => exact ⟨⟨.inl rfl, nofun, nofun, List.Perm.refl _⟩, rfl⟩
      | rateLimit resource limit maxBurst => exact nofun
      | leaf => rfl
    · rw [Linked.parents_unborn h.linked le_rfl]
      exact (Option.some_ne_none q).symm
  · rw [hwake]
    exact h.unborn d (by omega)

/-- A new parent and another list leave the flags and the wake-up times as they are. -/
lemma setParent_ok (c : ℕ) (parent : Option ℕ) (h : Sound tc num queue) (ht : (tc p).Regrouped t) :
    flags (setParent tc c p parent t) = tc.flags ∧
      (∀ q, wakeupTime (setParent tc c p parent t) q = tc.wakeupTime q) ∧
      ∀ q, q ≠ p → (setParent tc c p parent t q).Ok tc.flags := by
  refine ⟨funext fun q => ?_, fun q => ?_, fun q hqp => ?_⟩
  · exact setParent_field (f := TrafficClass.blocked) ht.blocked (fun _ _ => rfl) q
  · exact setParent_field (f := TrafficClass.wakeupTime) ht.wakeupTime (fun _ _ => rfl) q
  · rw [setParent, Function.update_of_ne hqp]
    by_cases hqc : q = c
    · rw [hqc, Function.update_self]
      exact h.ok c
    · rw [Function.update_of_ne hqc]
      exact h.ok q

/-! ### The changes -/

/-- The class `c` now has this parent, and all else is where it was. -/
structure Moved (s s' : Scheduler κ) (c : ℕ) (parent : Option ℕ) : Prop where
  sound : Sound s'.tc s'.num s'.wakeupQueue
  num : s'.num = s.num
  root : s'.root = s.root
  defaultRr : s'.defaultRr = s.defaultRr
  parents : s'.tc.parents = Function.update s.tc.parents c parent
  kind : ∀ q, (s'.tc q).kind = (s.tc q).kind

lemma Moved.refl (h : Sound s.tc s.num s.wakeupQueue) (c : ℕ) :
    Moved s s c (s.tc.parents c) :=
  ⟨h, rfl, rfl, rfl, (Function.update_eq_self c _).symm, fun _ => rfl⟩

/-- The walk after a change of the lists does not move anything else. -/
lemma Moved.of_walk {tc' : Classes κ} (h : Sound s.tc s.num s.wakeupQueue)
    (hne : p ≠ c) (ht : (s.tc p).Regrouped t) (hl : Linked (setParent s.tc c p parent t) s.num)
    (hok : ∀ q, (tc' q).Ok tc'.flags)
    (halike : ∀ q, (setParent s.tc c p parent t q).Alike (tc' q))
    (hwake : ∀ q, (tc' q).wakeupTime = (setParent s.tc c p parent t q).wakeupTime) :
    Moved s { s with tc := tc' } c parent := by
  obtain ⟨hl', hpar⟩ := hl.of_alike halike
  have htimes : ∀ q, tc'.wakeupTime q = s.tc.wakeupTime q := fun q =>
    (hwake q).trans ((setParent_ok c parent h ht).2.1 q)
  refine ⟨⟨hl', hok, h.queue.congr htimes, fun q hq => (htimes q).trans (h.unborn q hq)⟩, rfl, rfl,
    rfl, hpar.trans (setParent_parents parent hne ht), fun q => (halike q).kind.trans ?_⟩
  exact setParent_field (f := TrafficClass.kind) ht.kind (fun _ _ => rfl) q

variable (pf arg tsc) in
/-- **`AddChild`** moves the class, if it is not refused. -/
theorem addChild_spec (h : Sound s.tc s.num s.wakeupQueue) (hc : c < s.num) (hp : p < s.num)
    (hcp : ¬ Above s.tc.parents c p) :
    ∃ s' b, s.addChild pf p c arg tsc = some (s', b) ∧
      Moved s s' c (if b then some p else s.tc.parents c) := by
  have hne : p ≠ c := fun hpc => hcp (hpc ▸ .refl)
  rw [addChild]
  cases hnone : (s.tc c).parent with
  | some r => exact ⟨s, false, rfl, .refl h c⟩
  | none =>
      rw [if_neg (by simp)]
      cases hadd : (s.tc p).addChild pf (s.tc c).blocked c arg with
      | none => exact ⟨s, false, rfl, .refl h c⟩
      | some r =>
          obtain ⟨t, notify⟩ := r
          obtain ⟨ht, hch, hready⟩ := (h.ok p).addChild hadd
          have hl := Linked.attach h.linked hc hp hnone hcp ht hch
          obtain ⟨hflags, hwake, hok⟩ := setParent_ok c (some p) h ht
          have hself : setParent s.tc c p (some p) t p = t := Function.update_self _ _ _
          cases notify with
          | true =>
              obtain ⟨tc', hrun, hok', hstep, -⟩ := hl.unblockTowardsRoot (c := p) pf tsc
                (Nat.lt_succ_self s.num) (by rw [hself, hflags]; exact hready)
                (by rw [hflags]; exact hok)
              refine ⟨{ s with tc := tc' }, true, ?_, .of_walk h hne ht hl hok'
                (hstep.alike Unblocked.alike) (hstep.keep Unblocked.wakeupTime)⟩
              exact congrArg (Option.map _) hrun
          | false =>
              refine ⟨_, true, rfl, .of_walk h hne ht hl (fun q => ?_) (fun q => .refl _)
                fun q => rfl⟩
              by_cases hqp : q = p
              · rw [hqp]
                exact (congrArg₂ (fun t fl => TrafficClass.Ok fl t) hself hflags).mpr hready
              · exact hflags ▸ hok q hqp

variable (pf) in
/-- **`RemoveChild`** takes every child from its parent. -/
theorem removeChild_spec (h : Sound s.tc s.num s.wakeupQueue) (p c : ℕ) :
    ∃ s' b, s.removeChild pf p c = some (s', b) ∧ b = decide (s.tc.parents c = some p) ∧
      Moved s s' c (if b then none else s.tc.parents c) := by
  rw [removeChild]
  by_cases hpc : (s.tc c).parent = some p
  · rw [if_neg (not_not.mpr hpc)]
    have hne : p ≠ c := fun heq => h.linked.parent_ne (show s.tc.parents c = some c from heq ▸ hpc)
    have hb : true = decide (s.tc.parents c = some p) := (decide_eq_true hpc).symm
    obtain ⟨t, notify, hrem, ht, hch, hready⟩ :=
      (h.ok p).removeChild pf ((h.linked.mem_iff c p).mpr hpc)
    have hl := Linked.detach h.linked hpc ht hch
    obtain ⟨hflags, hwake, hok⟩ := setParent_ok c none h ht
    have hself : setParent s.tc c p none t p = t := Function.update_self _ _ _
    rw [hrem]
    cases notify with
    | true =>
        obtain ⟨tc', hrun, hok', hstep⟩ := hl.blockTowardsRoot (c := p) pf
          (Nat.lt_succ_self s.num) (by rw [hself, hflags]; exact hready)
          (by rw [hflags]; exact hok)
        refine ⟨{ s with tc := tc' }, true, ?_, hb, .of_walk h hne ht hl hok'
          (hstep.alike Blocked.alike) (hstep.keep Blocked.wakeupTime)⟩
        exact congrArg (Option.map _) hrun
    | false =>
        refine ⟨_, true, rfl, hb, .of_walk h hne ht hl (fun q => ?_) (fun q => .refl _)
          fun q => rfl⟩
        by_cases hqp : q = p
        · rw [hqp]
          exact (congrArg₂ (fun t fl => TrafficClass.Ok fl t) hself hflags).mpr hready
        · exact hflags ▸ hok q hqp
  · rw [if_pos hpc]
    exact ⟨s, false, rfl, (decide_eq_false hpc).symm, .refl h c⟩

/-! ### The invariant -/

/-- The root stays on top if it is not the class that was moved, or moved to nowhere. -/
lemma Moved.inv (h : Inv s) (hm : Moved s s' c parent) (hc : s.root = some c → parent = none) :
    Inv s' := by
  refine ⟨hm.sound, fun r hr => ?_, fun rr hrr => ?_⟩
  · rw [hm.root] at hr
    refine ⟨hm.num.symm ▸ (h.root r hr).1, ?_⟩
    rw [hm.parents]
    by_cases hrc : r = c
    · rw [hrc, Function.update_self]
      exact hc (hrc ▸ hr)
    · rw [Function.update_of_ne hrc]
      exact (h.root r hr).2
  · rw [hm.defaultRr] at hrr
    rw [hm.root, hm.kind]
    exact h.default rr hrr

lemma create_inv (h : Inv s) (new : NewClass) : Inv (s.create pf new) := by
  have hpar : parents (Function.update s.tc s.num (new.create pf)) = s.tc.parents :=
    parents_update (Linked.parents_unborn h.sound.linked le_rfl).symm
  refine ⟨h.sound.create new, fun r hr => ⟨Nat.lt_succ_of_lt (h.root r hr).1, ?_⟩,
    fun rr hrr => ⟨(h.default rr hrr).1, ?_⟩⟩
  · exact (congrFun hpar r).trans (h.root r hr).2
  · have hlt := (h.root rr (h.default rr hrr).1).1
    change (Function.update s.tc s.num (new.create pf) rr).kind = _
    rw [Function.update_of_ne hlt.ne]
    exact (h.default rr hrr).2

/-- Nothing is above a class without a parent. -/
lemma eq_of_above {parents : ℕ → Option ℕ} {a r : ℕ} (h : Above parents a r)
    (hr : parents r = none) : a = r := by
  cases h with
  | refl => rfl
  | step h _ => exact absurd (h.symm.trans hr) (by simp)

variable (pf tsc) in
/-- **`AttachOrphan`** puts the class below a round robin class, unless there is no root yet. -/
theorem attachOrphan_spec (tsc' : ℕ) (h : Inv s) (hc : c < s.num) (hnone : s.tc.parents c = none)
    (hroot : s.root ≠ some c) :
    ∃ s' b, s.attachOrphan pf c tsc tsc' = some (s', b) ∧ Inv s' := by
  rw [attachOrphan]
  cases hr : s.root with
  | none =>
      refine ⟨_, true, rfl, h.sound, fun r hr' => ?_, fun rr hrr => ?_⟩
      · obtain rfl := Option.some.inj hr'
        exact ⟨hc, hnone⟩
      · have := (h.default rr hrr).1
        rw [hr] at this
        cases this
  | some r =>
      cases hd : s.defaultRr with
      | some rr =>
          obtain ⟨hroot', -⟩ := h.default rr hd
          obtain ⟨hlt, htop⟩ := h.root rr hroot'
          obtain ⟨s', b, hrun, hm⟩ := addChild_spec pf tsc .none h.sound hc
            hlt fun habove => hroot (by rw [eq_of_above habove htop]; exact hroot')
          exact ⟨s', b, hrun, hm.inv h fun heq => absurd heq hroot⟩
      | none =>
          obtain ⟨hlt, htop⟩ := h.root r hr
          -- the new round robin class, which nothing is above
          set s₁ : Scheduler κ := { s.create pf .roundRobin with defaultRr := some s.num } with hs₁
          have hsound : Sound s₁.tc s₁.num s₁.wakeupQueue := h.sound.create .roundRobin
          have hpar₁ : s₁.tc.parents = s.tc.parents :=
            parents_update (Linked.parents_unborn h.sound.linked le_rfl).symm
          have hrr₁ : s₁.tc.parents s.num = none :=
            hpar₁ ▸ Linked.parents_unborn h.sound.linked le_rfl
          obtain ⟨s₂, b, hrun₂, hm₂⟩ := addChild_spec pf (p := s.num) (c := r) tsc
            .none hsound (Nat.lt_succ_of_lt hlt) (Nat.lt_succ_self _)
            fun habove => hlt.ne (eq_of_above habove hrr₁)
          have hrr₂ : s₂.tc.parents s.num = none := by
            rw [hm₂.parents, Function.update_of_ne hlt.ne']
            exact hrr₁
          have hlt₂ : s.num < s₂.num := by
            rw [hm₂.num]
            exact Nat.lt_succ_self _
          obtain ⟨s₃, b', hrun₃, hm₃⟩ := addChild_spec pf (p := s.num) (c := c) tsc'
            .none hm₂.sound (hc.trans hlt₂) hlt₂
            fun habove => hc.ne (eq_of_above habove hrr₂)
          refine ⟨{ s₃ with root := some s.num }, true, ?_, hm₃.sound, fun r' hr' => ?_,
            fun rr hrr => ?_⟩
          · dsimp only
            rw [← hs₁, hrun₂, Option.bind_some, hrun₃, Option.map_some]
          · obtain rfl := Option.some.inj hr'
            refine ⟨hm₃.num.symm ▸ hlt₂, ?_⟩
            change s₃.tc.parents s.num = none
            rw [hm₃.parents, Function.update_of_ne hc.ne']
            exact hrr₂
          · have hrr : s₃.defaultRr = some rr := hrr
            rw [hm₃.defaultRr, hm₂.defaultRr] at hrr
            obtain rfl := Option.some.inj hrr
            refine ⟨rfl, ?_⟩
            change (s₃.tc s.num).kind = _
            rw [hm₃.kind, hm₂.kind]
            change (Function.update s.tc s.num _ s.num).kind = _
            rw [Function.update_self]
            rfl

/-- **`AdjustDefault`** takes the round robin class away again when it has one child or none. -/
theorem adjustDefault_spec (h : Inv s) : ∃ s', s.adjustDefault pf = some s' ∧ Inv s' := by
  rw [adjustDefault]
  cases hr : s.root with
  | none => exact ⟨s, rfl, h⟩
  | some r =>
      cases hd : s.defaultRr with
      | none => exact ⟨s, rfl, h⟩
      | some rr =>
          obtain ⟨hroot, hkind⟩ := h.default rr hd
          obtain rfl : r = rr := Option.some.inj (hr.symm.trans hroot)
          dsimp only
          cases hp : (s.tc r).policy with
          | roundRobin rrobin =>
              have hok := h.sound.ok r
              rw [TrafficClass.Ok, hp] at hok
              have hch : rrobin.allChildren.Perm (s.tc r).children := by
                rw [TrafficClass.children, hp]
                exact hok.1.all
              dsimp only
              rcases hall : rrobin.allChildren with _ | ⟨d, _ | ⟨e, rest⟩⟩
              · refine ⟨_, rfl, h.sound, fun _ hr' => ?_, fun _ hd' => ?_⟩
                · cases hr'
                · cases hd'
              · have hmem : s.tc.parents d = some r := by
                  rw [← h.sound.linked.mem_iff, ← hch.mem_iff, hall]
                  exact List.mem_singleton_self d
                obtain ⟨s', b, hrun, hb, hm⟩ := removeChild_spec pf h.sound r d
                rw [hb, decide_eq_true hmem, if_pos rfl] at hm
                refine ⟨{ s' with root := some d, defaultRr := none }, ?_, hm.sound,
                  fun r' hr' => ?_, fun _ hd' => ?_⟩
                · dsimp only
                  rw [hrun, Option.map_some]
                · obtain rfl := Option.some.inj hr'
                  refine ⟨hm.num.symm ▸ (h.sound.linked.bound d r hmem).1, ?_⟩
                  change s'.tc.parents d = none
                  rw [hm.parents, Function.update_self]
                · cases hd'
              · exact ⟨s, rfl, h⟩
          | priority p => rw [TrafficClass.kind, hp] at hkind; cases hkind
          | weightedFair w => rw [TrafficClass.kind, hp] at hkind; cases hkind
          | rateLimit l => rw [TrafficClass.kind, hp] at hkind; cases hkind
          | leaf l => rw [TrafficClass.kind, hp] at hkind; cases hkind

lemma removeRoot_inv (h : Inv s) (c : ℕ) : Inv (s.removeRoot c).1 := by
  rw [removeRoot]
  split
  · rename_i hif
    refine ⟨h.sound, nofun, fun rr hrr => ?_⟩
    exact absurd (hif.2.symm.trans hrr) (by simp)
  · exact h

/-- **`UpdateTcParams`**; a class that is blocked stays so, whatever its limit is now. -/
theorem updateTcParams_inv (h : Inv s) (c : ℕ) (resource : Resource)
    (limit maxBurst : Option ℕ) : Inv (s.updateTcParams pf c resource limit maxBurst) := by
  have hchange : ∀ {policy : TrafficPolicy κ},
      ({ s.tc c with policy := policy } : TrafficClass κ).children = (s.tc c).children →
      ({ s.tc c with policy := policy } : TrafficClass κ).kind = (s.tc c).kind →
      ({ s.tc c with policy := policy } : TrafficClass κ).Ok s.tc.flags →
      Inv { s with tc := Function.update s.tc c { s.tc c with policy := policy } } := by
    intro policy hch hkind hok
    have hperm := List.Perm.of_eq hch
    have hwake : ∀ q, wakeupTime (Function.update s.tc c { s.tc c with policy := policy }) q
        = s.tc.wakeupTime q := fun q => by
      rw [wakeupTime_update]
      exact congrFun (Function.update_eq_self c s.tc.wakeupTime) q
    have hpar : parents (Function.update s.tc c { s.tc c with policy := policy }) = s.tc.parents :=
      parents_update rfl
    refine ⟨⟨h.sound.linked.update rfl hperm,
      fun q => h.sound.linked.ok_update hperm hok (fun q _ => h.sound.ok q) (.inl rfl),
      h.sound.queue.congr hwake, fun q hq => (hwake q).trans (h.sound.unborn q hq)⟩,
      fun r hr => ⟨(h.root r hr).1, (congrFun hpar r).trans (h.root r hr).2⟩,
      fun rr hrr => ⟨(h.default rr hrr).1, ?_⟩⟩
    by_cases hrc : rr = c
    · dsimp only
      rw [hrc, Function.update_self, hkind, ← hrc]
      exact (h.default rr hrr).2
    · dsimp only
      rw [Function.update_of_ne hrc]
      exact (h.default rr hrr).2
  have hok := h.sound.ok c
  rw [updateTcParams]
  split
  · rename_i l hp
    rw [TrafficClass.Ok, hp] at hok
    refine hchange ?_ ?_ hok
    · rw [TrafficClass.children, TrafficClass.children, hp]
    · rw [TrafficClass.kind, TrafficClass.kind, hp]
  · rename_i w hp
    rw [TrafficClass.Ok, hp] at hok
    refine hchange ?_ ?_ ⟨⟨hok.1.heap, hok.1.runnable, hok.1.blocked⟩, hok.2⟩
    · rw [TrafficClass.children, TrafficClass.children, hp]
    · rw [TrafficClass.kind, TrafficClass.kind, hp]
  · exact h

/-! ### Runs -/

/-- What the callers see to: only a class without a parent, which is not the root, is attached.
And what nothing checks: a class is not attached below itself, the clock of a round has started, and
the wake-up times that it may set fit in 64 bits. -/
def Admits (s : Scheduler κ) : Op → Prop
  | .create _ => True
  | .addChild p c _ _ => p < s.num ∧ c < s.num ∧ s.root ≠ some c ∧ ¬ Above s.tc.parents c p
  | .removeChild _ _ => True
  | .attachOrphan c _ _ => c < s.num ∧ s.tc.parents c = none ∧ s.root ≠ some c
  | .adjustDefault => True
  | .removeRoot _ => True
  | .updateTcParams _ _ _ _ => True
  | .scheduleOnceDefault now ret => s.NoWrap now ret
  | .scheduleOnceExperimental now ret => s.NoWrap now ret

variable (pf) in
/-- **Every operation** returns and keeps the invariant. -/
theorem inv_step (h : Inv s) (op : Op) (hop : s.Admits op) :
    ∃ s', s.step pf op = some s' ∧ Inv s' := by
  cases op with
  | create new => exact ⟨_, rfl, create_inv h new⟩
  | addChild p c arg tsc =>
      obtain ⟨hp, hc, hroot, hcp⟩ := hop
      obtain ⟨s', b, hrun, hm⟩ :=
        addChild_spec pf tsc arg h.sound hc hp hcp
      refine ⟨s', ?_, hm.inv h fun heq => absurd heq hroot⟩
      rw [step, hrun, Option.map_some]
  | removeChild p c =>
      obtain ⟨s', b, hrun, -, hm⟩ := removeChild_spec pf h.sound p c
      refine ⟨s', ?_, hm.inv h fun heq => ?_⟩
      · rw [step, hrun, Option.map_some]
      · cases b with
        | true => rfl
        | false => exact (h.root c heq).2
  | attachOrphan c tsc tsc' =>
      obtain ⟨hc, hnone, hroot⟩ := hop
      obtain ⟨s', b, hrun, hinv⟩ :=
        attachOrphan_spec pf tsc tsc' h hc hnone hroot
      refine ⟨s', ?_, hinv⟩
      rw [step, hrun, Option.map_some]
  | adjustDefault => exact adjustDefault_spec h
  | removeRoot c => exact ⟨_, rfl, removeRoot_inv h c⟩
  | updateTcParams c resource limit maxBurst =>
      exact ⟨_, rfl, updateTcParams_inv h c resource limit maxBurst⟩
  | scheduleOnceDefault now ret =>
      obtain ⟨s₁, next, s', -, hrun, hround⟩ := scheduleOnceDefault_spec pf h hop
      exact ⟨s', hrun, hround.inv⟩
  | scheduleOnceExperimental now ret =>
      obtain ⟨s₁, next, s', -, hrun, hround⟩ := scheduleOnceExperimental_spec pf h hop
      exact ⟨s', hrun, hround.inv⟩

/-- A scheduler without classes; what an address holds before a class is created is not read. -/
def init (pf : Platform κ) (checkpoint : ℕ) : Scheduler κ :=
  { tc := fun _ => NewClass.leaf.create pf
    num := 0
    root := none
    defaultRr := none
    wakeupQueue := []
    checkpoint := checkpoint }

/-- The schedulers that operations reach. -/
def Reach (pf : Platform κ) : Scheduler κ → Prop :=
  Machine.Reach (step pf) (fun s => ∃ checkpoint, s = init pf checkpoint) Admits

lemma init_inv (pf : Platform κ) (checkpoint : ℕ) : Inv (init pf checkpoint) := by
  refine ⟨⟨⟨nofun, fun c p => ⟨nofun, nofun⟩, fun p => List.nodup_nil, fun c => ⟨0, .root rfl⟩⟩,
    fun c => rfl, ⟨isHeap_nil, List.nodup_nil, fun c => ⟨nofun, fun hne => absurd rfl hne⟩⟩,
    fun c _ => rfl⟩, nofun, nofun⟩

/-- **Every reachable scheduler** satisfies the invariant. -/
theorem reach_inv (h : Reach pf s) : Inv s := by
  refine h.invariant (fun s hs => ?_) fun s s' op _ ih hop hstep => ?_
  · obtain ⟨checkpoint, rfl⟩ := hs
    exact init_inv pf checkpoint
  · obtain ⟨s₁, hrun, hinv⟩ := inv_step pf ih op hop
    rw [hrun, Option.some.injEq] at hstep
    exact hstep ▸ hinv

lemma Reach.next {s' : Scheduler κ} (h : Reach pf s) (op : Op) (hstep : s.step pf op = some s')
    (hop : s.Admits op) : Reach pf s' := Machine.Reach.step h hop hstep

/-! ### A small tree -/

/-- Exact arithmetic, and heaps that are kept in order. -/
def rational : Platform ℚ where
  zero := 0
  stride share := 2 ^ 20 / share
  passDelta stride consumed := stride * consumed / 2 ^ 10
  add := (· + ·)
  fairHeap := .sorted _ _
  wakeupHeap := .sorted _ _
  tscHz := 2 ^ 31

end Scheduler

end Bess
