import FlowBundler.Core.ModuleGraph
import FlowBundler.Lib.Machine

/-!
The tasks above each module (`UpdateTaskGraph`), and which operations return.

* **The search.** `Feeds g t m`: packets go from the task `t` to the task `m` without passing
  another task.  `UpdateParentsAs` is a depth-first search that stops at tasks; it is an instance
  of the search of the library, whose effect at each module it finds is `parentAs`.  As a search
  visits a module once, `effects_parentAs` adds the parent once, and `updateSingleTaskGraph_spec`
  reads off what one task is made a parent of.
* **The update.** `updateTaskGraph_spec`: it returns, and each task has as its parents, once each,
  the tasks that feed it.  The loop over the tasks goes by `ParentsOf g done`, the parents among
  the tasks already searched.  That the search for the priorities of the gates comes to an end as
  well is `raiseIGates_total`: a way has no gate twice, so that its length bounds the recursion.
* **The other operations.** They leave the gates and parents (`SameGates`), or the tasks
  (`SameTasks`), or add a module that nothing leads to.  `Wf`, the gates lead to modules that exist,
  is kept by all of them.  The parents of a module may be destroyed while the workers are paused;
  `Inv` therefore says only that they are tasks that once existed, and that they are the right ones
  while the graph has not changed since its last update.
* **What returns.** `processBatch_spec` and `runTask_spec` give the two operations of the data path
  in every state: they fail exactly when they signal and a task above was destroyed (`WritesFreed`,
  `Inv.step_eq_none_iff`).  `ResumeAll` updates the graph first, `ResumeWorker` does not: in runs
  that call the latter on an updated graph only (`HookedReach`) every parent exists while the
  workers run, so no operation fails.  `exists_writesFreed` is a run that does.
* `reach_parents` puts this together for every reachable pipeline.
-/

namespace Bess

namespace ModuleGraph

open Explore

variable {g g' : ModuleGraph} {t m k : ℕ}

/-- Packets go from the task `t` to the task `m` without passing another task. -/
def Feeds (g : ModuleGraph) (t m : ℕ) : Prop :=
  t ∈ g.all ∧ g.isTask t = true ∧ t ≠ m ∧ ∃ d ∈ g.next t, Reaches g.next g.isTask d m

/-- The gates lead to modules that exist, and the tasks are known. -/
structure Wf (g : ModuleGraph) : Prop where
  lt : ∀ m ∈ g.all, m < g.num
  nodup : g.all.Nodup
  tasks_nodup : g.tasks.Nodup
  tasks_iff : ∀ t, t ∈ g.tasks ↔ t ∈ g.all ∧ g.isTask t = true
  next_mem : ∀ m, ∀ k ∈ g.next m, k ∈ g.all
  parents_nil : ∀ m ∈ g.all, g.isTask m = false → (g.mods m).parentTasks = []

/-- The same modules, gates and tasks, whatever the parents of the modules are. -/
structure SameShape (g g' : ModuleGraph) : Prop where
  num : g'.num = g.num
  all : g'.all = g.all
  tasks : g'.tasks = g.tasks
  mods : ∀ m, ∃ parents, g'.mods m = { g.mods m with parentTasks := parents }

lemma SameShape.refl (g : ModuleGraph) : SameShape g g := ⟨rfl, rfl, rfl, fun _ => ⟨_, rfl⟩⟩

lemma SameShape.trans {g'' : ModuleGraph} (h : SameShape g g') (h' : SameShape g' g'') :
    SameShape g g'' := by
  refine ⟨h'.num.trans h.num, h'.all.trans h.all, h'.tasks.trans h.tasks, fun m => ?_⟩
  obtain ⟨parents, hp⟩ := h.mods m
  obtain ⟨parents', hp'⟩ := h'.mods m
  exact ⟨parents', by rw [hp', hp]⟩

lemma SameShape.next (h : SameShape g g') : g'.next = g.next := by
  funext m
  obtain ⟨parents, hp⟩ := h.mods m
  rw [ModuleGraph.next, ModuleGraph.next, hp]

lemma SameShape.isTask (h : SameShape g g') : g'.isTask = g.isTask := by
  funext m
  obtain ⟨parents, hp⟩ := h.mods m
  rw [ModuleGraph.isTask, ModuleGraph.isTask, hp]

lemma SameShape.feeds (h : SameShape g g') : g'.Feeds t m ↔ g.Feeds t m := by
  rw [Feeds, Feeds, h.all, h.isTask, h.next]

/-! ### The search below one task -/

lemma parentAs_self (mods : ℕ → Module) (htask : g.isTask m = true) :
    g.parentAs t mods m m = { mods m with parentTasks := (mods m).parentTasks ++ [t] } := by
  rw [parentAs, if_pos htask, addParentTask, Function.update_self]

lemma parentAs_of_not (mods : ℕ → Module) (htask : ¬ g.isTask m = true) :
    g.parentAs t mods m = mods := if_neg htask

lemma parentAs_of_ne (mods : ℕ → Module) (h : k ≠ m) : g.parentAs t mods m k = mods k := by
  rw [parentAs]
  split
  · rw [addParentTask, Function.update_of_ne h]
  · rfl

/-- What a search does to the modules it finds. -/
lemma effects_parentAs (mods : ℕ → Module) {new : List ℕ} (hnd : new.Nodup) (m : ℕ) :
    effects (g.parentAs t) mods new m
      = if m ∈ new ∧ g.isTask m = true
        then { mods m with parentTasks := (mods m).parentTasks ++ [t] } else mods m := by
  induction new with
  | nil => rw [if_neg fun h => List.not_mem_nil h.1]; rfl
  | cons c new ih =>
      obtain ⟨hc, hnd⟩ := List.nodup_cons.mp hnd
      have hcons : effects (g.parentAs t) mods (c :: new)
          = g.parentAs t (effects (g.parentAs t) mods new) c := rfl
      rw [hcons]
      by_cases hmc : m = c
      · rw [← hmc] at hc ⊢
        have hm := ih hnd
        rw [if_neg fun h => hc h.1] at hm
        by_cases htask : g.isTask m = true
        · rw [parentAs_self _ htask, if_pos ⟨List.mem_cons_self, htask⟩, hm]
        · rw [parentAs_of_not _ htask, if_neg fun h => htask h.2, hm]
      · rw [parentAs_of_ne _ hmc, ih hnd]
        simp only [List.mem_cons, hmc, false_or]

lemma Wf.card_le (hwf : g.Wf) : g.all.toFinset.card ≤ g.num := by
  have hsub : g.all.toFinset ⊆ Finset.range g.num := fun m hm =>
    Finset.mem_range.mpr (hwf.lt m (List.mem_toFinset.mp hm))
  exact (Finset.card_le_card hsub).trans (Finset.card_range _).le

/-- **The search below one task** makes it a parent of the tasks that it feeds. -/
lemma updateSingleTaskGraph_spec (hwf : g.Wf) (ht : t ∈ g.all) (htask : g.isTask t = true) :
    ∃ g', g.updateSingleTaskGraph t = some g' ∧ SameShape g g' ∧
      ∀ m, (g.isTask m = true → g.Feeds t m →
          (g'.mods m).parentTasks = (g.mods m).parentTasks ++ [t]) ∧
        (¬ (g.isTask m = true ∧ g.Feeds t m) →
          (g'.mods m).parentTasks = (g.mods m).parentTasks) := by
  obtain ⟨new, hrun, hnd, hmem⟩ :
      ∃ new, explore g.next g.isTask (g.parentAs t) g.num g.mods t
          = some (new ++ [t], effects (g.parentAs t) g.mods new) ∧ new.Nodup ∧
        ∀ x, x ∈ new ↔ x ≠ t ∧ ∃ d ∈ g.next t, Reaches g.next g.isTask d x :=
    explore_spec (U := g.all.toFinset)
      (fun c _ d hd => List.mem_toFinset.mpr (hwf.next_mem c d hd)) (List.mem_toFinset.mpr ht)
      htask hwf.card_le g.mods
  have hfeeds : ∀ m, m ∈ new ↔ g.Feeds t m := fun m => by
    rw [hmem m, Feeds]
    exact ⟨fun h => ⟨ht, htask, h.1.symm, h.2⟩, fun h => ⟨h.2.2.1.symm, h.2.2.2⟩⟩
  have heq := effects_parentAs (g := g) (t := t) g.mods hnd
  refine ⟨{ g with mods := effects (g.parentAs t) g.mods new }, ?_, ⟨rfl, rfl, rfl, fun m => ?_⟩,
    fun m => ⟨fun hm hf => ?_, fun h => ?_⟩⟩
  · exact congrArg (Option.map fun s => { g with mods := s.2 }) hrun
  · dsimp only
    rw [heq m]
    split
    · exact ⟨_, rfl⟩
    · exact ⟨_, rfl⟩
  · dsimp only
    rw [heq m, if_pos ⟨(hfeeds m).mpr hf, hm⟩]
  · dsimp only
    rw [heq m, if_neg fun h' => h ⟨h'.2, (hfeeds m).mp h'.1⟩]

/-! ### The priorities of the input gates -/

lemma mem_igates {igate : ℕ × ℕ} (hm : m < g.num) (h : some igate ∈ (g.mods m).ogates) :
    igate ∈ g.igates :=
  List.mem_flatMap.mpr ⟨m, List.mem_range.mpr hm, List.mem_filterMap.mpr ⟨_, h, rfl⟩⟩

lemma mem_next {igate : ℕ × ℕ} (h : some igate ∈ (g.mods m).ogates) : igate.1 ∈ g.next m :=
  List.mem_filterMap.mpr ⟨some igate, h, rfl⟩

/-- A loop each step of which returns. -/
lemma foldlM_total {α β : Type} {f : β → α → Option β} {l : List α}
    (h : ∀ a ∈ l, ∀ b, ∃ b', f b a = some b') : ∀ b, ∃ b', l.foldlM f b = some b' := by
  induction l with
  | nil => exact fun b => ⟨b, rfl⟩
  | cons a l ih =>
      intro b
      obtain ⟨b', hb'⟩ := h a List.mem_cons_self b
      obtain ⟨b'', hb''⟩ := ih (fun c hc => h c (List.mem_cons_of_mem a hc)) b'
      refine ⟨b'', ?_⟩
      rw [List.foldlM_cons, hb']
      exact hb''

/-- The search for the priorities comes to an end: a way has no gate twice. -/
lemma raiseIGates_total (hwf : g.Wf) (fuel : ℕ) :
    ∀ (visited : List (ℕ × ℕ)) (m : ℕ) (prio : ℕ × ℕ → ℕ) (priority : ℕ), m ∈ g.all →
      unseen g.igates.toFinset visited < fuel →
      ∃ prio', g.raiseIGates fuel visited m prio priority = some prio' := by
  induction fuel with
  | zero => exact fun _ _ _ _ _ h => absurd h (Nat.not_lt_zero _)
  | succ fuel ih =>
      intro visited m prio priority hm hfuel
      rw [raiseIGates]
      refine foldlM_total (fun gate hgate prio => ?_) prio
      cases gate with
      | none => exact ⟨prio, rfl⟩
      | some igate =>
          dsimp only
          split
          · exact ⟨prio, rfl⟩
          next hfresh =>
            split
            · exact ⟨_, rfl⟩
            · have hlt := unseen_cons_lt
                (List.mem_toFinset.mpr (mem_igates (hwf.lt m hm) hgate))
                (not_or.mp hfresh).1
              exact ih _ _ _ _ (hwf.next_mem m _ (mem_next hgate)) (by omega)

lemma setIGatePriority_total (hwf : g.Wf) (ht : t ∈ g.all) :
    ∃ prio, g.setIGatePriority t = some { g with priority := prio } := by
  have hcard : unseen g.igates.toFinset [] ≤ g.igates.length :=
    (Finset.card_filter_le _ _).trans (List.toFinset_card_le _)
  obtain ⟨prio, hprio⟩ := raiseIGates_total hwf (g.igates.length + 1) [] t g.priority 1 ht
    (Nat.lt_succ_of_le hcard)
  refine ⟨prio, ?_⟩
  rw [setIGatePriority, hprio]
  rfl

/-! ### The update -/

/-- Each task of `all` has as its parents, once each, the tasks that feed it. -/
def Parents (g : ModuleGraph) : Prop :=
  ∀ m ∈ g.all, g.isTask m = true →
    (g.mods m).parentTasks.Nodup ∧ ∀ t, t ∈ (g.mods m).parentTasks ↔ g.Feeds t m

lemma SameShape.wf (h : SameShape g g') (hwf : g.Wf)
    (hnil : ∀ m ∈ g.all, g.isTask m = false → (g'.mods m).parentTasks = []) : g'.Wf where
  lt := by rw [h.all, h.num]; exact hwf.lt
  nodup := by rw [h.all]; exact hwf.nodup
  tasks_nodup := by rw [h.tasks]; exact hwf.tasks_nodup
  tasks_iff := by rw [h.tasks, h.all, h.isTask]; exact hwf.tasks_iff
  next_mem := by rw [h.next, h.all]; exact hwf.next_mem
  parents_nil := by rw [h.all, h.isTask]; exact hnil

/-- One task of the update. -/
lemma update_step (hwf : g.Wf) (ht : t ∈ g.tasks) :
    ∃ g', (if t ∈ g.all then (g.updateSingleTaskGraph t).bind fun g => g.setIGatePriority t
        else some g) = some g' ∧ SameShape g g' ∧ g'.Wf ∧
      ∀ m, (g.isTask m = true → g.Feeds t m →
          (g'.mods m).parentTasks = (g.mods m).parentTasks ++ [t]) ∧
        (¬ (g.isTask m = true ∧ g.Feeds t m) →
          (g'.mods m).parentTasks = (g.mods m).parentTasks) := by
  obtain ⟨hall, htask⟩ := (hwf.tasks_iff t).mp ht
  obtain ⟨g₁, hrun, hshape, hparents⟩ := updateSingleTaskGraph_spec hwf hall htask
  have hwf₁ : g₁.Wf := hshape.wf hwf fun m hm hnt => by
    rw [(hparents m).2 fun h => by rw [hnt] at h; exact nomatch h.1]
    exact hwf.parents_nil m hm hnt
  obtain ⟨prio, hprio⟩ := setIGatePriority_total hwf₁ (hshape.all ▸ hall)
  refine ⟨{ g₁ with priority := prio }, ?_, ⟨hshape.num, hshape.all, hshape.tasks, hshape.mods⟩,
    ⟨hwf₁.lt, hwf₁.nodup, hwf₁.tasks_nodup, hwf₁.tasks_iff, hwf₁.next_mem, hwf₁.parents_nil⟩,
    hparents⟩
  rw [if_pos hall, hrun]
  exact hprio

/-- The parents that the tasks of `done` are, among those that feed a task. -/
def ParentsOf (g : ModuleGraph) (done : List ℕ) : Prop :=
  ∀ m ∈ g.all, g.isTask m = true →
    (g.mods m).parentTasks.Nodup ∧ ∀ t, t ∈ (g.mods m).parentTasks ↔ t ∈ done ∧ g.Feeds t m

lemma ParentsOf.step {done : List ℕ} (h : g.ParentsOf done) (hfresh : t ∉ done)
    (hshape : SameShape g g')
    (hparents : ∀ m, (g.isTask m = true → g.Feeds t m →
          (g'.mods m).parentTasks = (g.mods m).parentTasks ++ [t]) ∧
        (¬ (g.isTask m = true ∧ g.Feeds t m) →
          (g'.mods m).parentTasks = (g.mods m).parentTasks)) : g'.ParentsOf (done ++ [t]) := by
  intro m hm htask
  rw [hshape.all] at hm
  rw [hshape.isTask] at htask
  obtain ⟨hnd, hiff⟩ := h m hm htask
  by_cases hf : g.Feeds t m
  · rw [(hparents m).1 htask hf]
    refine ⟨List.nodup_append.mpr ⟨hnd, List.nodup_singleton t, ?_⟩, fun u => ?_⟩
    · rintro x hx y hy rfl
      exact hfresh (List.mem_singleton.mp hy ▸ ((hiff x).mp hx).1)
    · rw [List.mem_append, List.mem_append, List.mem_singleton, hiff u, hshape.feeds]
      refine ⟨?_, ?_⟩
      · rintro (h | rfl)
        · exact ⟨.inl h.1, h.2⟩
        · exact ⟨.inr rfl, hf⟩
      · rintro ⟨hu | rfl, hfu⟩
        · exact .inl ⟨hu, hfu⟩
        · exact .inr rfl
  · rw [(hparents m).2 fun h' => hf h'.2]
    refine ⟨hnd, fun u => ?_⟩
    rw [hiff u, List.mem_append, List.mem_singleton, hshape.feeds]
    refine ⟨fun h => ⟨.inl h.1, h.2⟩, ?_⟩
    rintro ⟨hu | rfl, hfu⟩
    · exact ⟨hu, hfu⟩
    · exact absurd hfu hf

/-- The loop over the tasks, by induction on those that remain. -/
lemma update_loop (ts : List ℕ) :
    ∀ {g : ModuleGraph} {done : List ℕ}, g.Wf → (∀ t ∈ ts, t ∈ g.tasks) → (done ++ ts).Nodup →
      g.ParentsOf done →
      ∃ g', ts.foldlM (fun g t => if t ∈ g.all then (g.updateSingleTaskGraph t).bind fun g =>
          g.setIGatePriority t else some g) g = some g' ∧ SameShape g g' ∧ g'.Wf ∧
        g'.ParentsOf (done ++ ts) := by
  induction ts with
  | nil =>
      intro g done hwf _ _ hdone
      exact ⟨g, rfl, .refl g, hwf, (List.append_nil done).symm ▸ hdone⟩
  | cons t ts ih =>
      intro g done hwf hts hnd hdone
      obtain ⟨g₁, hrun, hshape, hwf₁, hparents⟩ := update_step hwf (hts t List.mem_cons_self)
      rw [List.append_cons] at hnd ⊢
      have hfresh : t ∉ done := fun h =>
        (List.nodup_append.mp (List.nodup_append.mp hnd).1).2.2 t h t (List.mem_singleton_self t)
          rfl
      obtain ⟨g₂, hrun₂, hshape₂, hwf₂, hdone₂⟩ := ih hwf₁
        (fun u hu => hshape.tasks ▸ hts u (List.mem_cons_of_mem t hu)) hnd
        (hdone.step hfresh hshape hparents)
      refine ⟨g₂, ?_, hshape.trans hshape₂, hwf₂, hdone₂⟩
      rw [List.foldlM_cons, hrun]
      exact hrun₂

lemma SameShape.clean (g : ModuleGraph) : SameShape g g.cleanTaskGraph := by
  refine ⟨rfl, rfl, rfl, fun m => ?_⟩
  rw [cleanTaskGraph]
  dsimp only
  split
  · exact ⟨_, rfl⟩
  · exact ⟨_, rfl⟩

lemma Wf.clean (hwf : g.Wf) : g.cleanTaskGraph.Wf := by
  refine (SameShape.clean g).wf hwf fun m hm hnt => ?_
  rw [cleanTaskGraph]
  dsimp only
  split
  · rfl
  · exact hwf.parents_nil m hm hnt

lemma clean_parentsOf (hwf : g.Wf) : g.cleanTaskGraph.ParentsOf [] := by
  intro m hm htask
  have hm : m ∈ g.all := hm
  rw [(SameShape.clean g).isTask] at htask
  have hnil : (g.cleanTaskGraph.mods m).parentTasks = [] := by
    rw [cleanTaskGraph]
    dsimp only
    rw [if_pos ⟨(hwf.tasks_iff m).mpr ⟨hm, htask⟩, hm⟩]
  rw [hnil]
  exact ⟨List.nodup_nil, fun t => ⟨fun h => absurd h List.not_mem_nil,
    fun h => absurd h.1 List.not_mem_nil⟩⟩

/-- **The update** returns; then each task has as its parents, once each, the tasks that feed it. -/
lemma updateTaskGraph_spec (hwf : g.Wf) (h : g.changesMade = false → g.Parents) :
    ∃ g', g.updateTaskGraph = some g' ∧ SameShape g g' ∧ g'.Wf ∧ g'.Parents ∧
      g'.changesMade = false := by
  rw [updateTaskGraph]
  cases hc : g.changesMade with
  | false => exact ⟨g, rfl, .refl g, hwf, h hc, hc⟩
  | true =>
      have hnd : ([] ++ g.tasks).Nodup := hwf.tasks_nodup
      obtain ⟨g₁, hrun, hshape, hwf₁, hparents⟩ := update_loop g.tasks hwf.clean
        (fun _ ht => ht) hnd (clean_parentsOf hwf)
      refine ⟨{ g₁ with changesMade := false }, ?_, ?_, ?_, fun m hm htask => ?_, rfl⟩
      · rw [hrun]
        rfl
      · have := (SameShape.clean g).trans hshape
        exact ⟨this.num, this.all, this.tasks, this.mods⟩
      · exact ⟨hwf₁.lt, hwf₁.nodup, hwf₁.tasks_nodup, hwf₁.tasks_iff, hwf₁.next_mem,
          hwf₁.parents_nil⟩
      · obtain ⟨hnd, hiff⟩ := hparents m hm htask
        refine ⟨hnd, fun t => (hiff t).trans ⟨fun h => h.2, fun hf => ⟨?_, hf⟩⟩⟩
        have htasks := hwf₁.tasks_iff t
        rw [hshape.tasks] at htasks
        exact htasks.mpr ⟨hf.1, hf.2.1⟩

/-! ### The other operations -/

/-- The same modules, gates and tasks, with the same parents. -/
structure SameGates (g g' : ModuleGraph) : Prop where
  num : g'.num = g.num
  all : g'.all = g.all
  tasks : g'.tasks = g.tasks
  changesMade : g'.changesMade = g.changesMade
  isTask : ∀ m, (g'.mods m).isTask = (g.mods m).isTask
  ogates : ∀ m, (g'.mods m).ogates = (g.mods m).ogates
  parents : ∀ m, (g'.mods m).parentTasks = (g.mods m).parentTasks

lemma SameGates.refl (g : ModuleGraph) : SameGates g g :=
  ⟨rfl, rfl, rfl, rfl, fun _ => rfl, fun _ => rfl, fun _ => rfl⟩

lemma SameGates.trans {g'' : ModuleGraph} (h : SameGates g g') (h' : SameGates g' g'') :
    SameGates g g'' where
  num := h'.num.trans h.num
  all := h'.all.trans h.all
  tasks := h'.tasks.trans h.tasks
  changesMade := h'.changesMade.trans h.changesMade
  isTask m := (h'.isTask m).trans (h.isTask m)
  ogates m := (h'.ogates m).trans (h.ogates m)
  parents m := (h'.parents m).trans (h.parents m)

lemma SameGates.isTask_eq (h : SameGates g g') : g'.isTask = g.isTask := funext h.isTask

lemma SameGates.next_eq (h : SameGates g g') : g'.next = g.next := by
  funext m
  rw [ModuleGraph.next, ModuleGraph.next, h.ogates]

lemma SameGates.feeds (h : SameGates g g') : g'.Feeds t m ↔ g.Feeds t m := by
  rw [Feeds, Feeds, h.all, h.isTask_eq, h.next_eq]

lemma SameGates.wf (h : SameGates g g') (hwf : g.Wf) : g'.Wf where
  lt := by rw [h.all, h.num]; exact hwf.lt
  nodup := by rw [h.all]; exact hwf.nodup
  tasks_nodup := by rw [h.tasks]; exact hwf.tasks_nodup
  tasks_iff := by rw [h.tasks, h.all, h.isTask_eq]; exact hwf.tasks_iff
  next_mem := by rw [h.next_eq, h.all]; exact hwf.next_mem
  parents_nil := fun m hm hnt => by
    rw [h.all] at hm
    rw [h.isTask_eq] at hnt
    rw [h.parents]
    exact hwf.parents_nil m hm hnt

lemma SameGates.parents_iff (h : SameGates g g') (hp : g.Parents) : g'.Parents := by
  intro m hm htask
  rw [h.all] at hm
  rw [h.isTask_eq] at htask
  rw [h.parents]
  exact ⟨(hp m hm htask).1, fun t => ((hp m hm htask).2 t).trans h.feeds.symm⟩

/-- A module changes apart from its gates. -/
lemma SameGates.set {module : Module} (h₁ : module.isTask = (g.mods m).isTask)
    (h₂ : module.ogates = (g.mods m).ogates)
    (h₃ : module.parentTasks = (g.mods m).parentTasks) : SameGates g (g.set m module) := by
  refine ⟨rfl, rfl, rfl, rfl, fun k => ?_, fun k => ?_, fun k => ?_⟩
  all_goals
    rw [ModuleGraph.set]
    dsimp only
    by_cases hk : k = m
    · rw [hk, Function.update_self]
      assumption
    · rw [Function.update_of_ne hk]

/-! #### Signals -/

lemma foldl_signal (d : ℤ) (ps : List ℕ) : ∀ (mods : ℕ → Module) (k : ℕ),
    ps.foldl (signal d) mods k
      = { mods k with childrenOverload := (mods k).childrenOverload + d * ps.count k } := by
  induction ps with
  | nil =>
      intro mods k
      rw [List.foldl_nil, List.count_nil, Nat.cast_zero, mul_zero, add_zero]
  | cons p ps ih =>
      intro mods k
      rw [List.foldl_cons, ih, signal]
      by_cases hk : k = p
      · rw [hk, Function.update_self, List.count_cons_self, Nat.cast_add, Nat.cast_one]
        dsimp only
        congr 1
        ring
      · rw [Function.update_of_ne hk, List.count_cons_of_ne (Ne.symm hk)]

/-- What a signal does to a module. -/
lemma signalParents_mods (d : ℤ) (b : Bool) (m k : ℕ) :
    (g.signalParents d b m).mods k = { g.mods k with
      childrenOverload := (g.mods k).childrenOverload + d * (g.mods m).parentTasks.count k
      overload := if k = m then b else (g.mods k).overload } := by
  rw [signalParents]
  dsimp only
  by_cases hk : k = m
  · rw [hk, Function.update_self, foldl_signal, if_pos rfl]
  · rw [Function.update_of_ne hk, foldl_signal, if_neg hk]

lemma SameGates.signalParents (d : ℤ) (b : Bool) (m : ℕ) :
    SameGates g (g.signalParents d b m) := by
  refine ⟨rfl, rfl, rfl, rfl, fun k => ?_, fun k => ?_, fun k => ?_⟩
  all_goals rw [signalParents_mods]

/-- No task above the module was destroyed. -/
def ParentsExist (g : ModuleGraph) (m : ℕ) : Prop := ∀ p ∈ (g.mods m).parentTasks, p ∈ g.all

instance (g : ModuleGraph) (m : ℕ) : Decidable (g.ParentsExist m) :=
  inferInstanceAs (Decidable (∀ p ∈ (g.mods m).parentTasks, p ∈ g.all))

/-- No task above any module was destroyed. -/
def Alive (g : ModuleGraph) : Prop := ∀ m ∈ g.all, g.ParentsExist m

lemma SameGates.alive (h : SameGates g g') (ha : g.Alive) : g'.Alive := by
  intro m hm p hp
  rw [h.all] at hm ⊢
  rw [h.parents] at hp
  exact ha m hm p hp

/-- The tasks above the modules existed once. -/
def Below (g : ModuleGraph) : Prop := ∀ m ∈ g.all, ∀ p ∈ (g.mods m).parentTasks, p < g.num

lemma SameGates.below (h : SameGates g g') (hb : g.Below) : g'.Below := by
  intro m hm p hp
  rw [h.all] at hm
  rw [h.parents] at hp
  rw [h.num]
  exact hb m hm p hp

lemma Alive.below (hwf : g.Wf) (ha : g.Alive) : g.Below :=
  fun m hm p hp => hwf.lt p (ha m hm p hp)

lemma parentsExist_iff : ((g.mods m).parentTasks.all (· ∈ g.all)) = true ↔ g.ParentsExist m := by
  rw [List.all_eq_true, ParentsExist]
  exact forall₂_congr fun p _ => decide_eq_true_iff

lemma signalOverload_spec (hover : (g.mods m).overload = false) :
    g.signalOverload m = if g.ParentsExist m then some (g.signalParents 1 true m) else none := by
  rw [signalOverload, if_neg (by simp [hover])]
  exact if_congr parentsExist_iff rfl rfl

lemma signalUnderload_spec (hover : (g.mods m).overload = true) :
    g.signalUnderload m
      = if g.ParentsExist m then some (g.signalParents (-1) false m) else none := by
  rw [signalUnderload, if_neg (by simp [hover])]
  exact if_congr parentsExist_iff rfl rfl

/-! #### The data path -/

/-- The queue of a module changes. -/
def setQueue (g : ModuleGraph) (m : ℕ) (q : Queue) : ModuleGraph :=
  g.set m { g.mods m with queue := some q }

lemma setQueue_mods (q : Queue) (k : ℕ) :
    (g.setQueue m q).mods k
      = { g.mods k with queue := if k = m then some q else (g.mods k).queue } := by
  rw [setQueue, ModuleGraph.set]
  dsimp only
  by_cases hk : k = m
  · rw [hk, Function.update_self, if_pos rfl]
  · rw [Function.update_of_ne hk, if_neg hk]

lemma SameGates.setQueue (m : ℕ) (q : Queue) : SameGates g (g.setQueue m q) :=
  .set rfl rfl rfl

lemma setQueue_parentsExist (q : Queue) (k : ℕ) :
    (g.setQueue m q).ParentsExist k ↔ g.ParentsExist k := by
  rw [ParentsExist, ParentsExist, setQueue_mods]
  rfl

/-- The batch takes the queue above its high mark, and the tasks above it are not told yet. -/
def Overloads (g : ModuleGraph) (m : ℕ) (q : Queue) (batch : List Packet) : Prop :=
  (q.backpressure = true ∧ q.highWater < (q.enqueue batch).ring.length) ∧
    (g.mods m).overload = false

instance (g : ModuleGraph) (m : ℕ) (q : Queue) (batch : List Packet) :
    Decidable (g.Overloads m q batch) :=
  inferInstanceAs (Decidable ((_ ∧ _) ∧ _))

/-- A burst takes the queue below its low mark, and the tasks above it are not told yet. -/
def Underloads (g : ModuleGraph) (m : ℕ) (q : Queue) : Prop :=
  (q.backpressure = true ∧ q.dequeue.ring.length < q.lowWater) ∧ (g.mods m).overload = true

instance (g : ModuleGraph) (m : ℕ) (q : Queue) : Decidable (g.Underloads m q) :=
  inferInstanceAs (Decidable ((_ ∧ _) ∧ _))

/-- The task of a queue is blocked: a task below is overloaded, or there are no packets. -/
def Blocked (g : ModuleGraph) (m : ℕ) (q : Queue) : Prop :=
  0 < (g.mods m).childrenOverload ∨ q.front = []

instance (g : ModuleGraph) (m : ℕ) (q : Queue) : Decidable (g.Blocked m q) :=
  inferInstanceAs (Decidable (_ ∨ _))

/-- **What `ProcessBatch` does**: the batch is queued, and the tasks above are told if the queue
goes above its high mark. -/
lemma processBatch_spec (q : Queue) (batch : List Packet) :
    g.processBatch m q batch
      = if g.Overloads m q batch then
          if g.ParentsExist m then some ((g.setQueue m (q.enqueue batch)).signalParents 1 true m)
          else none
        else some (g.setQueue m (q.enqueue batch)) := by
  have hover : ((g.setQueue m (q.enqueue batch)).mods m).overload = (g.mods m).overload := by
    rw [setQueue_mods]
  have hrun : g.processBatch m q batch
      = if q.backpressure = true ∧ q.highWater < (q.enqueue batch).ring.length
        then (g.setQueue m (q.enqueue batch)).signalOverload m
        else some (g.setQueue m (q.enqueue batch)) := rfl
  rw [hrun]
  by_cases hmark : q.backpressure = true ∧ q.highWater < (q.enqueue batch).ring.length
  · rw [if_pos hmark]
    cases hb : (g.mods m).overload with
    | true =>
        rw [if_neg fun h => Bool.false_ne_true (h.2.symm.trans hb), signalOverload,
          if_pos (hover.trans hb)]
    | false =>
        rw [if_pos ⟨hmark, hb⟩, signalOverload_spec (hover.trans hb)]
        exact if_congr (setQueue_parentsExist _ m) rfl rfl
  · rw [if_neg hmark, if_neg fun h => hmark h.1]

/-- **What `RunTask` does**: it blocks if a task below is overloaded or the queue is empty; else a
burst leaves the queue, and the tasks above are told if the queue goes below its low mark. -/
lemma runTask_spec (q : Queue) :
    g.runTask m q
      = if g.Blocked m q then some (g, [])
        else if g.Underloads m q then
          if g.ParentsExist m then
            some ((g.setQueue m q.dequeue).signalParents (-1) false m, q.front)
          else none
        else some (g.setQueue m q.dequeue, q.front) := by
  have hover : ((g.setQueue m q.dequeue).mods m).overload = (g.mods m).overload := by
    rw [setQueue_mods]
  have hrun : g.runTask m q
      = if 0 < (g.mods m).childrenOverload then some (g, [])
        else if q.front = [] then some (g, [])
        else (if q.backpressure = true ∧ q.dequeue.ring.length < q.lowWater
          then (g.setQueue m q.dequeue).signalUnderload m
          else some (g.setQueue m q.dequeue)).map fun g' => (g', q.front) := rfl
  rw [hrun]
  by_cases hblock : 0 < (g.mods m).childrenOverload
  · rw [if_pos hblock, if_pos (.inl hblock)]
  rw [if_neg hblock]
  by_cases hempty : q.front = []
  · rw [if_pos hempty, if_pos (.inr hempty)]
  have hfree : ¬ g.Blocked m q := not_or.mpr ⟨hblock, hempty⟩
  rw [if_neg hempty, if_neg hfree]
  by_cases hmark : q.backpressure = true ∧ q.dequeue.ring.length < q.lowWater
  · rw [if_pos hmark]
    cases hb : (g.mods m).overload with
    | true =>
        rw [if_pos ⟨hmark, hb⟩, signalUnderload_spec (hover.trans hb),
          if_congr (setQueue_parentsExist _ m) rfl rfl]
        split
        · rfl
        · rfl
    | false =>
        rw [if_neg fun h => Bool.false_ne_true (hb.symm.trans h.2), signalUnderload,
          if_pos (by rw [hover, hb]; rfl)]
        rfl
  · rw [if_neg hmark, if_neg fun h => hmark h.1]
    rfl

/-- What a batch that returns leaves. -/
lemma processBatch_eq {q : Queue} {batch : List Packet} (h : g.processBatch m q batch = some g') :
    g' = if g.Overloads m q batch then (g.setQueue m (q.enqueue batch)).signalParents 1 true m
      else g.setQueue m (q.enqueue batch) := by
  rw [processBatch_spec] at h
  split at h
  next hover =>
    rw [if_pos hover]
    split at h
    · exact (Option.some.inj h).symm
    · cases h
  next hover => rw [if_neg hover, Option.some.inj h]

/-- What a task that returns leaves. -/
lemma runTask_eq {q : Queue} {s : ModuleGraph × List Packet} (h : g.runTask m q = some s) :
    s = if g.Blocked m q then (g, [])
      else (if g.Underloads m q then (g.setQueue m q.dequeue).signalParents (-1) false m
        else g.setQueue m q.dequeue, q.front) := by
  rw [runTask_spec] at h
  split at h
  next hblock => rw [if_pos hblock, Option.some.inj h]
  next hblock =>
    rw [if_neg hblock]
    split at h
    next hunder =>
      rw [if_pos hunder]
      split at h
      · exact (Option.some.inj h).symm
      · cases h
    next hunder => rw [if_neg hunder, Option.some.inj h]

lemma processBatch_eq_none_iff {q : Queue} {batch : List Packet} :
    g.processBatch m q batch = none ↔ g.Overloads m q batch ∧ ¬ g.ParentsExist m := by
  rw [processBatch_spec]
  by_cases hover : g.Overloads m q batch
  · by_cases hparents : g.ParentsExist m
    · simp only [hover, hparents, if_true, reduceCtorEq, not_true, and_false]
    · simp only [hover, hparents, if_true, if_false, not_false_iff, and_self]
  · simp only [hover, if_false, reduceCtorEq, false_and]

lemma runTask_eq_none_iff {q : Queue} :
    g.runTask m q = none ↔ ¬ g.Blocked m q ∧ g.Underloads m q ∧ ¬ g.ParentsExist m := by
  rw [runTask_spec]
  by_cases hblock : g.Blocked m q
  · simp only [hblock, if_true, reduceCtorEq, not_true, false_and]
  by_cases hunder : g.Underloads m q
  · by_cases hparents : g.ParentsExist m
    · simp only [hblock, hunder, hparents, if_true, if_false, reduceCtorEq, not_true, and_false]
    · simp only [hblock, hunder, hparents, if_true, if_false, not_false_iff, and_self]
  · simp only [hblock, hunder, if_false, reduceCtorEq, false_and, and_false]

lemma SameGates.processBatch {q : Queue} {batch : List Packet}
    (h : g.processBatch m q batch = some g') : SameGates g g' := by
  rw [processBatch_eq h]
  split
  · exact (SameGates.setQueue m _).trans (.signalParents _ _ _)
  · exact .setQueue m _

lemma SameGates.runTask {q : Queue} {s : ModuleGraph × List Packet}
    (h : g.runTask m q = some s) : SameGates g s.1 := by
  rw [runTask_eq h]
  split
  · exact .refl g
  · dsimp only
    split
    · exact (SameGates.setQueue m _).trans (.signalParents _ _ _)
    · exact .setQueue m _

/-! #### Changes of the graph -/

lemma Wf.mem_next (hwf : g.Wf) {igate : ℕ × ℕ} (h : some igate ∈ (g.mods m).ogates) :
    igate.1 ∈ g.all :=
  hwf.next_mem m _ (ModuleGraph.mem_next h)

lemma mem_next_iff : k ∈ g.next m ↔ ∃ i, some (k, i) ∈ (g.mods m).ogates := by
  rw [ModuleGraph.next, List.mem_filterMap]
  constructor
  · rintro ⟨gate, hgate, h⟩
    obtain ⟨igate, rfl, rfl⟩ := Option.map_eq_some_iff.mp h
    exact ⟨igate.2, hgate⟩
  · rintro ⟨i, hi⟩
    exact ⟨some (k, i), hi, rfl⟩

lemma create_mods (isTask : Bool) (numIGates numOGates : ℕ) (queue : Option Queue)
    (hk : k ≠ g.num) :
    (g.create isTask numIGates numOGates queue).mods k = g.mods k :=
  Function.update_of_ne hk _ _

lemma create_mods_self (isTask : Bool) (numIGates numOGates : ℕ) (queue : Option Queue) :
    (g.create isTask numIGates numOGates queue).mods g.num
      = { isTask := isTask, numIGates := numIGates, numOGates := numOGates, ogates := []
          parentTasks := [], childrenOverload := 0, overload := false, queue := queue } :=
  Function.update_self _ _ _

section Create

variable {isTask : Bool} {numIGates numOGates : ℕ} {queue : Option Queue}

lemma create_next_of_ne (hk : k ≠ g.num) :
    (g.create isTask numIGates numOGates queue).next k = g.next k := by
  rw [ModuleGraph.next, create_mods _ _ _ _ hk, ModuleGraph.next]

lemma create_isTask_of_ne (hk : k ≠ g.num) :
    (g.create isTask numIGates numOGates queue).isTask k = g.isTask k := by
  rw [ModuleGraph.isTask, create_mods _ _ _ _ hk, ModuleGraph.isTask]

lemma create_next_self : (g.create isTask numIGates numOGates queue).next g.num = [] := by
  rw [ModuleGraph.next, create_mods_self]
  rfl

lemma create_isTask_self :
    (g.create isTask numIGates numOGates queue).isTask g.num = isTask := by
  rw [ModuleGraph.isTask, create_mods_self]

lemma Wf.ne_num (hwf : g.Wf) (hm : m ∈ g.all) : m ≠ g.num := (hwf.lt m hm).ne

lemma Wf.create (hwf : g.Wf) : (g.create isTask numIGates numOGates queue).Wf where
  lt m hm := by
    rcases List.mem_cons.mp hm with rfl | hm
    · exact Nat.lt_succ_self _
    · exact (hwf.lt m hm).trans (Nat.lt_succ_self _)
  nodup := List.nodup_cons.mpr ⟨fun h => hwf.ne_num h rfl, hwf.nodup⟩
  tasks_nodup := by
    rw [ModuleGraph.create]
    dsimp only
    split
    · exact List.nodup_cons.mpr ⟨fun h => hwf.ne_num ((hwf.tasks_iff _).mp h).1 rfl,
        hwf.tasks_nodup⟩
    · exact hwf.tasks_nodup
  tasks_iff t := by
    have htasks : t ∈ (g.create isTask numIGates numOGates queue).tasks
        ↔ (isTask = true ∧ t = g.num) ∨ t ∈ g.tasks := by
      rw [ModuleGraph.create]
      dsimp only
      cases isTask <;> simp
    have hall : t ∈ (g.create isTask numIGates numOGates queue).all ↔ t = g.num ∨ t ∈ g.all :=
      List.mem_cons
    rw [htasks, hall]
    by_cases ht : t = g.num
    · rw [ht, create_isTask_self]
      have : g.num ∉ g.tasks := fun h => hwf.ne_num ((hwf.tasks_iff _).mp h).1 rfl
      simp [this]
    · rw [create_isTask_of_ne ht, hwf.tasks_iff t]
      simp [ht]
  next_mem m k hk := by
    by_cases hm : m = g.num
    · rw [hm, create_next_self] at hk
      exact absurd hk List.not_mem_nil
    · rw [create_next_of_ne hm] at hk
      exact List.mem_cons_of_mem _ (hwf.next_mem m k hk)
  parents_nil m hm hnt := by
    rcases List.mem_cons.mp hm with rfl | hm
    · rw [create_mods_self]
    · rw [create_isTask_of_ne (hwf.ne_num hm)] at hnt
      rw [create_mods _ _ _ _ (hwf.ne_num hm)]
      exact hwf.parents_nil m hm hnt

/-- A module that is created has no gates yet: it feeds no task, and no task feeds it. -/
lemma create_feeds (hwf : g.Wf) :
    (g.create isTask numIGates numOGates queue).Feeds t m ↔ g.Feeds t m := by
  have hclosed : ∀ c, c ∈ g.all → ∀ d ∈ g.next c, d ∈ g.all := fun c _ => hwf.next_mem c
  by_cases ht : t = g.num
  · rw [Feeds, Feeds, ht, create_next_self]
    refine ⟨fun ⟨_, _, _, d, hd, _⟩ => absurd hd List.not_mem_nil, fun h => ?_⟩
    exact absurd rfl (hwf.ne_num h.1)
  · rw [Feeds, Feeds, create_isTask_of_ne ht, create_next_of_ne ht]
    have hall : t ∈ (g.create isTask numIGates numOGates queue).all ↔ t ∈ g.all :=
      List.mem_cons.trans (or_iff_right ht)
    rw [hall]
    refine and_congr_right fun _ => and_congr_right fun _ => and_congr_right fun _ =>
      exists_congr fun d => and_congr_right fun hd => ⟨fun h => ?_, fun h => ?_⟩
    · refine (Reaches.congr (U := fun c => c ∈ g.all) ?_ ?_ ?_ (hwf.next_mem t d hd) h).2
      · intro c hc e he
        rw [create_next_of_ne (hwf.ne_num hc)] at he
        exact hwf.next_mem c e he
      · exact fun c hc => (create_next_of_ne (hwf.ne_num hc)).symm
      · exact fun c hc => (create_isTask_of_ne (hwf.ne_num hc)).symm
    · exact (Reaches.congr (U := fun c => c ∈ g.all) hclosed
        (fun c hc => create_next_of_ne (hwf.ne_num hc))
        (fun c hc => create_isTask_of_ne (hwf.ne_num hc)) (hwf.next_mem t d hd) h).2

lemma Parents.create (hwf : g.Wf) (hp : g.Parents) :
    (g.create isTask numIGates numOGates queue).Parents := by
  intro m hm htask
  rcases List.mem_cons.mp hm with rfl | hm
  · rw [create_mods_self]
    refine ⟨List.nodup_nil, fun t => ⟨fun h => absurd h List.not_mem_nil, fun h => ?_⟩⟩
    -- a task that feeds it would have a gate to it
    rw [create_feeds hwf] at h
    obtain ⟨_, _, _, d, hd, hreach⟩ := h
    have := (Reaches.congr (U := fun c => c ∈ g.all) (fun c _ => hwf.next_mem c) (fun _ _ => rfl)
      (fun _ _ => rfl) (hwf.next_mem t d hd) hreach).1
    exact absurd rfl (hwf.ne_num this)
  · rw [create_isTask_of_ne (hwf.ne_num hm)] at htask
    rw [create_mods _ _ _ _ (hwf.ne_num hm)]
    exact ⟨(hp m hm htask).1, fun t => ((hp m hm htask).2 t).trans (create_feeds hwf).symm⟩

lemma Alive.create (hwf : g.Wf) (ha : g.Alive) :
    (g.create isTask numIGates numOGates queue).Alive := by
  intro m hm p hp
  rcases List.mem_cons.mp hm with rfl | hm
  · rw [create_mods_self] at hp
    exact absurd hp List.not_mem_nil
  · rw [create_mods _ _ _ _ (hwf.ne_num hm)] at hp
    exact List.mem_cons_of_mem _ (ha m hm p hp)

lemma Below.create (hwf : g.Wf) (hb : g.Below) :
    (g.create isTask numIGates numOGates queue).Below := by
  intro m hm p hp
  rcases List.mem_cons.mp hm with rfl | hm
  · rw [create_mods_self] at hp
    exact absurd hp List.not_mem_nil
  · rw [create_mods _ _ _ _ (hwf.ne_num hm)] at hp
    exact (hb m hm p hp).trans (Nat.lt_succ_self _)

end Create

/-- The same modules and parents, whatever the gates are. -/
structure SameTasks (g g' : ModuleGraph) : Prop where
  num : g'.num = g.num
  all : g'.all = g.all
  mods : ∀ m, ∃ ogates, g'.mods m = { g.mods m with ogates := ogates }

lemma SameTasks.alive (h : SameTasks g g') (ha : g.Alive) : g'.Alive := by
  intro m hm p hp
  obtain ⟨ogates, hmod⟩ := h.mods m
  rw [h.all] at hm ⊢
  rw [hmod] at hp
  exact ha m hm p hp

lemma SameTasks.below (h : SameTasks g g') (hb : g.Below) : g'.Below := by
  intro m hm p hp
  obtain ⟨ogates, hmod⟩ := h.mods m
  rw [h.all] at hm
  rw [hmod] at hp
  rw [h.num]
  exact hb m hm p hp

/-- The gates of one module change. -/
lemma SameTasks.setGates (ogates : List (Option (ℕ × ℕ))) (priority : ℕ × ℕ → ℕ) (b : Bool) :
    SameTasks g { g.set m { g.mods m with ogates := ogates } with
      priority := priority, changesMade := b } := by
  refine ⟨rfl, rfl, fun k => ?_⟩
  rw [ModuleGraph.set]
  dsimp only
  by_cases hk : k = m
  · rw [hk, Function.update_self]
    exact ⟨ogates, rfl⟩
  · rw [Function.update_of_ne hk]
    exact ⟨_, rfl⟩

lemma Wf.setGates (hwf : g.Wf) {ogates : List (Option (ℕ × ℕ))}
    (h : ∀ igate, some igate ∈ ogates → igate.1 ∈ g.all) (priority : ℕ × ℕ → ℕ) (b : Bool) :
    Wf { g.set m { g.mods m with ogates := ogates } with
      priority := priority, changesMade := b } := by
  have hmods : ∀ k, (g.set m { g.mods m with ogates := ogates }).mods k
      = { g.mods k with ogates := if k = m then ogates else (g.mods k).ogates } := fun k => by
    rw [ModuleGraph.set]
    dsimp only
    by_cases hk : k = m
    · rw [hk, Function.update_self, if_pos rfl]
    · rw [Function.update_of_ne hk, if_neg hk]
  refine ⟨hwf.lt, hwf.nodup, hwf.tasks_nodup, fun t => ?_, fun k d hd => ?_, fun k hk hnt => ?_⟩
  · rw [ModuleGraph.isTask]
    dsimp only
    rw [hmods]
    exact hwf.tasks_iff t
  · obtain ⟨i, hi⟩ := mem_next_iff.mp hd
    dsimp only at hi
    rw [hmods] at hi
    dsimp only at hi
    split at hi
    · exact h _ hi
    · exact hwf.mem_next hi
  · rw [ModuleGraph.isTask] at hnt
    dsimp only at hnt ⊢
    rw [hmods] at hnt ⊢
    exact hwf.parents_nil k hk hnt

lemma Wf.setChanges (hwf : g.Wf) (b : Bool) : Wf { g with changesMade := b } :=
  ⟨hwf.lt, hwf.nodup, hwf.tasks_nodup, hwf.tasks_iff, hwf.next_mem, hwf.parents_nil⟩

lemma SameTasks.setChanges (b : Bool) : SameTasks g { g with changesMade := b } :=
  ⟨rfl, rfl, fun _ => ⟨_, rfl⟩⟩

lemma mem_setGate {ogates : List (Option (ℕ × ℕ))} {o : ℕ} {gate : Option (ℕ × ℕ)}
    {igate : ℕ × ℕ} (h : some igate ∈ setGate ogates o gate) :
    some igate ∈ ogates ∨ gate = some igate := by
  rcases List.mem_or_eq_of_mem_set h with h | h
  · rcases List.mem_append.mp h with h | h
    · exact .inl h
    · exact absurd (List.eq_of_mem_replicate h) nofun
  · exact .inr h.symm

lemma Wf.connect (hwf : g.Wf) {m' o i : ℕ} (hm' : m' ∈ g.all) : (g.connect m o m' i).1.Wf := by
  rw [ModuleGraph.connect]
  split
  · exact hwf
  · split
    · exact hwf.setChanges true
    · refine hwf.setGates (fun igate h => ?_) _ _
      rcases mem_setGate h with h | h
      · exact hwf.mem_next h
      · rw [Option.some.injEq] at h
        exact h ▸ hm'

lemma connect_changes (g : ModuleGraph) (m o m' i : ℕ) :
    (g.connect m o m' i).1 = g ∨
      (g.connect m o m' i).1.changesMade = true ∧ SameTasks g (g.connect m o m' i).1 := by
  rw [ModuleGraph.connect]
  split
  · exact .inl rfl
  · split
    · exact .inr ⟨rfl, .setChanges true⟩
    · exact .inr ⟨rfl, .setGates _ _ _⟩

lemma disconnect_changes (g : ModuleGraph) (m o : ℕ) :
    (g.disconnect m o).1 = g ∨
      (g.disconnect m o).1.changesMade = true ∧ SameTasks g (g.disconnect m o).1 := by
  rw [ModuleGraph.disconnect]
  split
  · exact .inl rfl
  · exact .inr ⟨rfl, .setGates _ g.priority _⟩

lemma Wf.disconnect (hwf : g.Wf) {o : ℕ} : (g.disconnect m o).1.Wf := by
  rw [ModuleGraph.disconnect]
  split
  · exact hwf
  · refine hwf.setGates (fun igate h => ?_) g.priority true
    rcases List.mem_or_eq_of_mem_set h with h | h
    · exact hwf.mem_next h
    · cases h

lemma destroy_next (hd : k ∈ (g.destroy m).next t) : k ∈ g.next t ∧ k ≠ m := by
  obtain ⟨i, hi⟩ := mem_next_iff.mp hd
  rw [destroy] at hi
  dsimp only at hi
  split at hi
  · exact absurd hi List.not_mem_nil
  · obtain ⟨gate, hgate, h⟩ := List.mem_map.mp hi
    obtain ⟨rfl, hne⟩ := Option.filter_eq_some_iff.mp h
    exact ⟨mem_next_iff.mpr ⟨i, hgate⟩, of_decide_eq_true hne⟩

lemma destroy_isTask : (g.destroy m).isTask = g.isTask := rfl

lemma Wf.destroy (hwf : g.Wf) : (g.destroy m).Wf where
  lt k hk := hwf.lt k (List.mem_of_mem_erase hk)
  nodup := hwf.nodup.erase m
  tasks_nodup := hwf.tasks_nodup.erase m
  tasks_iff t := by
    rw [destroy_isTask]
    change t ∈ g.tasks.erase m ↔ t ∈ g.all.erase m ∧ _
    rw [hwf.tasks_nodup.mem_erase_iff, hwf.nodup.mem_erase_iff, hwf.tasks_iff t, and_assoc]
  next_mem t k hk := hwf.nodup.mem_erase_iff.mpr
    ⟨(destroy_next hk).2, hwf.next_mem t k (destroy_next hk).1⟩
  parents_nil k hk hnt := hwf.parents_nil k (List.mem_of_mem_erase hk) hnt

end ModuleGraph

/-! ### Runs -/

namespace Pipeline

open ModuleGraph

variable {w w' : Pipeline} {t m : ℕ}

/-- The pipelines that any commands reach, from no modules. -/
def Reach : Pipeline → Prop := Machine.Reach step (fun w => w = init) Admits

/-- What every operation keeps. -/
structure Inv (w : Pipeline) : Prop where
  wf : w.graph.Wf
  parents : w.graph.changesMade = false → w.graph.Parents
  below : w.graph.Below

lemma inv_init : Inv init where
  wf := ⟨nofun, List.nodup_nil, List.nodup_nil, fun _ => ⟨nofun, fun h => nomatch h.1⟩, nofun,
    nofun⟩
  parents _ := nofun
  below := nofun

/-- An operation that leaves the gates and the parents. -/
lemma Inv.sameGates (h : Inv w) {g' : ModuleGraph} (hg : SameGates w.graph g') :
    Inv { w with graph := g' } where
  wf := hg.wf h.wf
  parents hc := hg.parents_iff (h.parents (hg.changesMade ▸ hc))
  below := hg.below h.below

lemma Inv.create (h : Inv w) (isTask : Bool) (numIGates numOGates : ℕ) (queue : Option Queue) :
    Inv { w with graph := w.graph.create isTask numIGates numOGates queue } where
  wf := h.wf.create
  parents hc := (h.parents hc).create h.wf
  below := h.below.create h.wf

lemma command_sameGates (m : ℕ) (f : Queue → Option Queue) :
    SameGates w.graph (w.command m f).graph ∧ (w.command m f).running = w.running := by
  rw [Pipeline.command]
  split
  · exact ⟨.setQueue m _, rfl⟩
  · exact ⟨.refl _, rfl⟩

lemma Inv.command (h : Inv w) (m : ℕ) (f : Queue → Option Queue) : Inv (w.command m f) :=
  have h' := h.sameGates (command_sameGates m f).1
  ⟨h'.wf, h'.parents, h'.below⟩

/-- An operation that changes the gates. -/
lemma Inv.sameTasks (h : Inv w) {g' : ModuleGraph} (hwf : g'.Wf)
    (hg : g' = w.graph ∨ g'.changesMade = true ∧ SameTasks w.graph g') :
    Inv { w with graph := g' } := by
  rcases hg with rfl | ⟨hc, hg⟩
  · exact h
  · exact ⟨hwf, fun hc' => (Bool.false_ne_true (hc'.symm.trans hc)).elim, hg.below h.below⟩

lemma Inv.connect (h : Inv w) {m' o i : ℕ} (hm' : m' ∈ w.graph.all) :
    Inv { w with graph := (w.graph.connect m o m' i).1 } :=
  h.sameTasks (h.wf.connect hm') (connect_changes w.graph m o m' i)

lemma Inv.disconnect (h : Inv w) {o : ℕ} :
    Inv { w with graph := (w.graph.disconnect m o).1 } :=
  h.sameTasks h.wf.disconnect (disconnect_changes w.graph m o)

lemma Inv.destroy (h : Inv w) : Inv { w with graph := w.graph.destroy m } where
  wf := h.wf.destroy
  parents hc := nomatch hc
  below k hk p hp := h.below k (List.mem_of_mem_erase hk) p hp

/-- Since the last update a task above a module is known. -/
lemma alive_of_parents {g : ModuleGraph} (hwf : g.Wf) (hp : g.Parents) : g.Alive := by
  intro m hm p hmem
  cases htask : g.isTask m with
  | true => exact (((hp m hm htask).2 p).mp hmem).1
  | false =>
      rw [hwf.parents_nil m hm htask] at hmem
      exact absurd hmem List.not_mem_nil

/-! #### What one operation does -/

/-- The operation signals, and a task above the queue was destroyed. -/
def WritesFreed (w : Pipeline) : Op → Prop
  | .processBatch m batch => ∃ q, (w.graph.mods m).queue = some q ∧ w.graph.Overloads m q batch ∧
      ¬ w.graph.ParentsExist m
  | .runTask m => ∃ q, (w.graph.mods m).queue = some q ∧ ¬ w.graph.Blocked m q ∧
      w.graph.Underloads m q ∧ ¬ w.graph.ParentsExist m
  | _ => False

/-- **An operation does not return** exactly when it would write to a task that was destroyed. -/
lemma Inv.step_eq_none_iff (h : Inv w) {op : Op} (hop : w.Admits op) :
    w.step op = none ↔ w.WritesFreed op := by
  cases op with
  | createQueue size backpressure =>
      rw [Pipeline.step]
      split
      · exact ⟨nofun, False.elim⟩
      · exact ⟨nofun, False.elim⟩
  | resume =>
      obtain ⟨g', hrun, _⟩ := updateTaskGraph_spec h.wf h.parents
      rw [Pipeline.step, hrun]
      exact ⟨nofun, False.elim⟩
  | processBatch m batch =>
      obtain ⟨q, hq⟩ := Option.isSome_iff_exists.mp hop.2.2
      have hfreed : w.WritesFreed (.processBatch m batch) ↔
          w.graph.Overloads m q batch ∧ ¬ w.graph.ParentsExist m := by
        rw [WritesFreed, hq]
        exact ⟨fun ⟨_, rfl, h⟩ => h, fun h => ⟨q, rfl, h⟩⟩
      rw [hfreed, ← processBatch_eq_none_iff, Pipeline.step, hq, Option.bind_some,
        Option.map_eq_none_iff]
  | runTask m =>
      obtain ⟨q, hq⟩ := Option.isSome_iff_exists.mp hop.2.2
      have hfreed : w.WritesFreed (.runTask m) ↔
          ¬ w.graph.Blocked m q ∧ w.graph.Underloads m q ∧ ¬ w.graph.ParentsExist m := by
        rw [WritesFreed, hq]
        exact ⟨fun ⟨_, rfl, h⟩ => h, fun h => ⟨q, rfl, h⟩⟩
      rw [hfreed, ← runTask_eq_none_iff, Pipeline.step, hq, Option.bind_some,
        Option.map_eq_none_iff]
  | _ => exact ⟨nofun, False.elim⟩

/-- What a batch or a task that returns leaves: the same gates and parents. -/
lemma processBatch_step {batch : List Packet} (hstep : w.step (.processBatch m batch) = some w') :
    ∃ q g', (w.graph.mods m).queue = some q ∧ w.graph.processBatch m q batch = some g' ∧
      w' = { w with graph := g' } := by
  obtain ⟨q, hq, hstep⟩ := Option.bind_eq_some_iff.mp hstep
  obtain ⟨g', hg', rfl⟩ := Option.map_eq_some_iff.mp hstep
  exact ⟨q, g', hq, hg', rfl⟩

lemma runTask_step (hstep : w.step (.runTask m) = some w') :
    ∃ q s, (w.graph.mods m).queue = some q ∧ w.graph.runTask m q = some s ∧
      w' = { w with graph := s.1 } := by
  obtain ⟨q, hq, hstep⟩ := Option.bind_eq_some_iff.mp hstep
  obtain ⟨s, hs, rfl⟩ := Option.map_eq_some_iff.mp hstep
  exact ⟨q, s, hq, hs, rfl⟩

/-- **One operation** keeps the invariant. -/
lemma Inv.next (h : Inv w) {op : Op} (hop : w.Admits op) (hstep : w.step op = some w') :
    Inv w' := by
  cases op with
  | create isTask numIGates numOGates =>
      rw [Pipeline.step, Option.some.injEq] at hstep
      exact hstep ▸ h.create isTask numIGates numOGates none
  | createQueue size backpressure =>
      rw [Pipeline.step] at hstep
      split at hstep
      · exact Option.some.inj hstep ▸ h.create true 1 1 _
      · exact Option.some.inj hstep ▸ h
  | connect m o m' i => exact Option.some.inj hstep ▸ h.connect hop.2
  | disconnect m o => exact Option.some.inj hstep ▸ h.disconnect
  | destroy m => exact Option.some.inj hstep ▸ h.destroy
  | pause => exact Option.some.inj hstep ▸ ⟨h.wf, h.parents, h.below⟩
  | resume =>
      obtain ⟨g', hrun, _, hwf, hp, _⟩ := updateTaskGraph_spec h.wf h.parents
      rw [Pipeline.step, hrun, Option.map_some, Option.some.injEq] at hstep
      exact hstep ▸ ⟨hwf, fun _ => hp, (alive_of_parents hwf hp).below hwf⟩
  | resumeWorker => exact Option.some.inj hstep ▸ ⟨h.wf, h.parents, h.below⟩
  | setBurst m burst => exact Option.some.inj hstep ▸ h.command m _
  | setSize m size => exact Option.some.inj hstep ▸ h.command m _
  | setRuntimeConfig m size backpressure => exact Option.some.inj hstep ▸ h.command m _
  | processBatch m batch =>
      obtain ⟨q, g', _, hg', rfl⟩ := processBatch_step hstep
      exact h.sameGates (.processBatch hg')
  | runTask m =>
      obtain ⟨q, s, _, hs, rfl⟩ := runTask_step hstep
      exact h.sameGates (.runTask hs)

/-- Every reachable pipeline keeps the invariant. -/
theorem reach_inv (h : Reach w) : Inv w :=
  h.invariant (fun _ h => h ▸ inv_init) fun _ _ _ _ hinv hop hstep => hinv.next hop hstep

/-! #### Runs whose workers resume on an updated graph -/

/-- `ResumeWorker` is called, while no worker runs, only if the graph has not changed since its last
update. -/
def Hooked (w : Pipeline) : Op → Prop
  | .resumeWorker => w.running = false → w.graph.changesMade = false
  | _ => True

/-- The pipelines that such operations reach. -/
def HookedReach : Pipeline → Prop :=
  Machine.Reach step (fun w => w = init) fun w op => w.Admits op ∧ w.Hooked op

lemma HookedReach.reach (h : HookedReach w) : Reach w := h.mono fun _ _ hop => hop.1

/-- A command for a queue destroys no task. -/
lemma command_alive (ha : w.running = true → w.graph.Alive) (m : ℕ) (f : Queue → Option Queue)
    (hrun : (w.command m f).running = true) : (w.command m f).graph.Alive := by
  obtain ⟨hsame, heq⟩ := command_sameGates (w := w) m f
  exact hsame.alive (ha (heq.symm.trans hrun))

/-- While the workers run no task above a module is destroyed. -/
lemma Inv.step_alive (h : Inv w) (ha : w.running = true → w.graph.Alive) {op : Op}
    (hop : w.Admits op) (hhook : w.Hooked op) (hstep : w.step op = some w')
    (hrun' : w'.running = true) : w'.graph.Alive := by
  cases op with
  | create isTask numIGates numOGates =>
      rw [Pipeline.step, Option.some.injEq] at hstep
      subst hstep
      exact (ha hrun').create h.wf
  | createQueue size backpressure =>
      rw [Pipeline.step] at hstep
      split at hstep
      · rw [Option.some.injEq] at hstep
        subst hstep
        exact (ha hrun').create h.wf
      · exact Option.some.inj hstep ▸ ha (Option.some.inj hstep ▸ hrun')
  | connect m o m' i =>
      rw [Pipeline.step, Option.some.injEq] at hstep
      subst hstep
      rcases connect_changes w.graph m o m' i with hsame | ⟨_, hsame⟩
      · exact hsame.symm ▸ ha hrun'
      · exact hsame.alive (ha hrun')
  | disconnect m o =>
      rw [Pipeline.step, Option.some.injEq] at hstep
      subst hstep
      exact (Bool.false_ne_true (hop.2.symm.trans hrun')).elim
  | destroy m =>
      rw [Pipeline.step, Option.some.injEq] at hstep
      subst hstep
      exact (Bool.false_ne_true (hop.2.symm.trans hrun')).elim
  | pause =>
      rw [Pipeline.step, Option.some.injEq] at hstep
      subst hstep
      exact (Bool.false_ne_true hrun').elim
  | resume =>
      obtain ⟨g', hrun, _, hwf, hp, _⟩ := updateTaskGraph_spec h.wf h.parents
      rw [Pipeline.step, hrun, Option.map_some, Option.some.injEq] at hstep
      exact hstep ▸ alive_of_parents hwf hp
  | resumeWorker =>
      rw [Pipeline.step, Option.some.injEq] at hstep
      subst hstep
      cases hrun : w.running with
      | true => exact ha hrun
      | false => exact alive_of_parents h.wf (h.parents (hhook hrun))
  | setBurst m burst =>
      rw [Pipeline.step, Option.some.injEq] at hstep
      subst hstep
      exact command_alive ha m _ hrun'
  | setSize m size =>
      rw [Pipeline.step, Option.some.injEq] at hstep
      subst hstep
      exact command_alive ha m _ hrun'
  | setRuntimeConfig m size backpressure =>
      rw [Pipeline.step, Option.some.injEq] at hstep
      subst hstep
      exact command_alive ha m _ hrun'
  | processBatch m batch =>
      obtain ⟨q, g', _, hg', rfl⟩ := processBatch_step hstep
      exact (SameGates.processBatch hg').alive (ha hrun')
  | runTask m =>
      obtain ⟨q, s, _, hs, rfl⟩ := runTask_step hstep
      exact (SameGates.runTask hs).alive (ha hrun')

lemma HookedReach.alive (h : HookedReach w) (hrun : w.running = true) : w.graph.Alive := by
  have hboth : Inv w ∧ (w.running = true → w.graph.Alive) := by
    refine h.invariant (I := fun w => Inv w ∧ (w.running = true → w.graph.Alive)) ?_ ?_
    · rintro w rfl
      exact ⟨inv_init, nofun⟩
    · exact fun w w' op _ ih hop hstep =>
        ⟨ih.1.next hop.1 hstep, ih.1.step_alive ih.2 hop.1 hop.2 hstep⟩
  exact hboth.2 hrun

/-- Where no task above a module was destroyed, none is written to. -/
lemma not_writesFreed {op : Op} (hop : w.Admits op) (ha : w.running = true → w.graph.Alive) :
    ¬ w.WritesFreed op := by
  cases op with
  | processBatch m batch => exact fun ⟨_, _, _, hfreed⟩ => hfreed (ha hop.2.1 m hop.1)
  | runTask m => exact fun ⟨_, _, _, _, hfreed⟩ => hfreed (ha hop.2.1 m hop.1)
  | _ => exact False.elim

/-- **The tasks above each module**: in every reachable pipeline an operation that its callers allow
fails to return exactly when a queue signals while a task above it was destroyed; that happens in no
run whose workers resume on an updated graph only; and since the last update of a changed graph each
task that exists has as its parents, once each, the other tasks whose packets reach it without
passing a task. -/
theorem reach_parents (h : Reach w) :
    (∀ op, w.Admits op → (w.step op = none ↔ w.WritesFreed op)) ∧
    (HookedReach w → ∀ op, w.Admits op → ∃ w', w.step op = some w') ∧
    (w.graph.changesMade = false → ∀ m ∈ w.graph.all, w.graph.isTask m = true →
      (w.graph.mods m).parentTasks.Nodup ∧
      ∀ t, t ∈ (w.graph.mods m).parentTasks ↔ w.graph.Feeds t m) := by
  have hinv := reach_inv h
  refine ⟨fun op hop => hinv.step_eq_none_iff hop, fun hhook op hop => ?_, hinv.parents⟩
  refine Option.ne_none_iff_exists'.mp fun hnone => ?_
  exact not_writesFreed hop hhook.alive ((hinv.step_eq_none_iff hop).mp hnone)

lemma Reach.next (h : Reach w) (op : Op) (hstep : w.step op = some w') (hop : w.Admits op) :
    Reach w' := Machine.Reach.step h hop hstep

lemma HookedReach.next (h : HookedReach w) (op : Op) (hstep : w.step op = some w')
    (hop : w.Admits op) (hhook : w.Hooked op) : HookedReach w' :=
  Machine.Reach.step h ⟨hop, hhook⟩ hstep

/-- A task and a queue, with a module between them that is no task. -/
lemma exists_chain : ∃ w, HookedReach w ∧ w.running = true ∧ w.graph.changesMade = false ∧
    w.graph.all = [2, 1, 0] ∧ w.graph.isTask 2 = true ∧ (w.graph.mods 2).parentTasks = [0] ∧
    (w.graph.mods 2).queue.isSome := by
  have h₀ : HookedReach init := .start rfl
  have h₁ := h₀.next (.create true 0 1) rfl trivial trivial
  have h₂ := h₁.next (.create false 1 1) rfl trivial trivial
  have h₃ := h₂.next (.createQueue 16 true) rfl trivial trivial
  have h₄ := h₃.next (.connect 0 0 1 0) rfl ⟨by decide, by decide⟩ trivial
  have h₅ := h₄.next (.connect 1 0 2 0) rfl ⟨by decide, by decide⟩ trivial
  have h₆ := h₅.next .resume rfl trivial trivial
  exact ⟨_, h₆, rfl, rfl, rfl, rfl, rfl, rfl⟩

/-- In that pipeline the task feeds the queue, and batches of any size are queued. -/
theorem reach_parents_chain : ∃ w, Reach w ∧ w.graph.Feeds 0 2 ∧
    ∀ batch, ∃ w', w.step (.processBatch 2 batch) = some w' := by
  obtain ⟨w, hhook, hrun, hc, hall, htask, hparents, hqueue⟩ := exists_chain
  have hmem : 2 ∈ w.graph.all := hall ▸ List.mem_cons_self
  obtain ⟨_, hreturns, hiff⟩ := reach_parents hhook.reach
  refine ⟨w, hhook.reach,
    ((hiff hc 2 hmem htask).2 0).mp (hparents ▸ List.mem_singleton_self 0), ?_⟩
  exact fun batch => hreturns hhook (.processBatch 2 batch) ⟨hmem, hrun, hqueue⟩

/-- **A task that was destroyed is written to**: the workers are paused, the task above a queue is
destroyed, and a worker is resumed by itself; the next fifteen packets overload the queue. -/
lemma exists_writesFreed : ∃ w op, Reach w ∧ w.Admits op ∧ w.step op = none := by
  have h₀ : Reach init := .start rfl
  have h₁ := h₀.next (.create true 0 1) rfl trivial
  have h₂ := h₁.next (.createQueue 16 true) rfl trivial
  have h₃ := h₂.next (.connect 0 0 1 0) rfl ⟨by decide, by decide⟩
  have h₄ := h₃.next .resume rfl trivial
  have h₅ := h₄.next .pause rfl trivial
  have h₆ := h₅.next (.destroy 0) rfl ⟨by decide, rfl⟩
  have h₇ := h₆.next .resumeWorker rfl trivial
  exact ⟨_, .processBatch 1 (List.replicate 15 ⟨0, 64, 1, 2⟩), h₇, ⟨by decide, rfl, rfl⟩, rfl⟩

end Pipeline

end Bess
