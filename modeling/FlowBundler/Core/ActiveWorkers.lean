import FlowBundler.Core.TaskGraph

/-!
The workers that run each module, and the constraints on them (`CheckSchedulingConstraints`).

* `downstream`: the modules that `AddActiveWorker` goes on to from a module; a `WorkerSplit` goes
  on to the gate of the worker only, and reads behind the end of its gates if there are too few.
* `Runs w i leaf m`: packets of the leaf's task come to the module `m` when worker `i` runs it.
* **One task.** `addActiveWorker` recurs over the gates and stops at modules that have visited the
  task.  `visit_simulates` shows it to be the depth-first search of the library, with the modules
  that have visited the task as those already seen; the induction is on the fuel, and inside it on
  the gates.  `addTask_spec` then says that the task has come to the modules that it runs, each
  marked once, or has come to one where it reads behind the gates.
* **All tasks.** Every task is added by one worker (`Wf.calls_pairwise`), so no module has visited
  it before; `sweep` goes over the tasks with `Swept`, which records the workers and tasks of the
  modules so far.  `propagateActiveWorker_spec`: a worker is active on a module exactly when one of
  its tasks runs the module, unless a `WorkerSplit` on the way has too few gates.
* **The constraints.** `checkModuleConstraints_iff` and `checkQueueConstraints_iff` read the two
  checks off the workers and tasks recorded: the check of a queue compares two counts of tasks, and
  their difference wraps around.
-/

namespace Bess

/-- `CheckConstraintResult`. -/
inductive CheckConstraintResult
  | ok
  | nonfatalError
  | fatalError
  deriving DecidableEq

/-- What a module says about its workers: `gates` are those of a `WorkerSplit`. -/
structure WorkerRules where
  propagateWorkers : Bool
  tasks : List ℕ
  gates : Option (ℕ → ℤ)
  maxAllowedWorkers : ℤ
  nodeConstraints : ℕ

/-- A leaf with the root above it, its task, and the module of the task. -/
structure TaskLeaf where
  root : ℕ
  task : ℕ
  module : Option ℕ
  deriving DecidableEq

/-- The modules, and the workers with the roots of their schedulers.  A worker that is not there has
no root. -/
structure WorkerGraph where
  graph : ModuleGraph
  rules : ℕ → WorkerRules
  root : ℕ → Option ℕ
  socket : ℕ → ℕ
  leaves : List TaskLeaf

/-- What `PropagateActiveWorker` leaves in the modules. -/
structure ActiveWorkers where
  activeWorkers : ℕ → ℕ → Bool
  visitedTasks : ℕ → List ℕ

/-- `Worker::kMaxWorkers`. -/
def kMaxWorkers : ℕ := 64

namespace ActiveWorkers

/-- `ResetActiveWorkerSet`, of every module. -/
def reset : ActiveWorkers where
  activeWorkers _ _ := false
  visitedTasks _ := []

/-- What `AddActiveWorker` writes to a module. -/
def mark (wid t : ℕ) (s : ActiveWorkers) (m : ℕ) : ActiveWorkers where
  activeWorkers := Function.update s.activeWorkers m (Function.update (s.activeWorkers m) wid true)
  visitedTasks := Function.update s.visitedTasks m (s.visitedTasks m ++ [t])

/-- `num_active_workers`. -/
def numActiveWorkers (s : ActiveWorkers) (m : ℕ) : ℕ :=
  ((List.range kMaxWorkers).filter (s.activeWorkers m)).length

/-- `num_active_tasks`. -/
def numActiveTasks (s : ActiveWorkers) (m : ℕ) : ℕ := (s.visitedTasks m).length

end ActiveWorkers

namespace WorkerGraph

open ActiveWorkers Explore

variable (w : WorkerGraph)

/-- The modules that `AddActiveWorker` goes on to; `none` when a `WorkerSplit` reads behind the end
of its gates. -/
def downstream (wid t m : ℕ) : Option (List ℕ) :=
  match (w.rules m).gates with
  | some gates =>
      if gates wid < 0 then some []
      else (w.graph.mods m).ogates[(gates wid).toNat]?.map fun gate => (gate.map Prod.fst).toList
  | none =>
      if (w.rules m).propagateWorkers = true ∨ t ∈ (w.rules m).tasks then some (w.graph.next m)
      else some []

/-- `AddActiveWorker` of a module. -/
def addActiveWorker (wid t : ℕ) : ℕ → ActiveWorkers → ℕ → Option ActiveWorkers
  | 0, _, _ => none
  | fuel + 1, s, m =>
      -- `HaveVisitedWorker`
      if t ∈ s.visitedTasks m then some s
      else (w.downstream wid t m).bind fun ds =>
        ds.foldlM (addActiveWorker wid t fuel) (s.mark wid t m)

/-- `AddActiveWorker` of a task. -/
def addTask (wid : ℕ) (s : ActiveWorkers) (leaf : TaskLeaf) : Option ActiveWorkers :=
  match leaf.module with
  | none => some s
  | some m => w.addActiveWorker wid leaf.task (w.graph.num + 1) s m

/-- The leaves below the root of a worker. -/
def leavesOf (wid : ℕ) : List TaskLeaf := w.leaves.filter fun leaf => w.root wid = some leaf.root

/-- The tasks of all workers, in the order of `PropagateActiveWorker`. -/
def calls : List (ℕ × TaskLeaf) :=
  (List.range kMaxWorkers).flatMap fun wid => (w.leavesOf wid).map (Prod.mk wid)

/-- `PropagateActiveWorker`. -/
def propagateActiveWorker : Option ActiveWorkers :=
  w.calls.foldlM (fun s call => w.addTask call.1 s call.2) reset

/-- The bit of a worker's socket. -/
def onSocket (wid m : ℕ) : Bool := (w.rules m).nodeConstraints.testBit (w.socket wid)

/-- `CheckModuleConstraints`; too few workers are only logged. -/
def checkModuleConstraints (s : ActiveWorkers) (m : ℕ) : CheckConstraintResult :=
  if (w.rules m).maxAllowedWorkers < s.numActiveWorkers m then .fatalError
  else if (List.range kMaxWorkers).any fun wid => s.activeWorkers m wid && !w.onSocket wid m then
    .nonfatalError
  else .ok

/-- `Queue::CheckModuleConstraints`; the difference wraps around. -/
def checkQueueConstraints (s : ActiveWorkers) (m : ℕ) : CheckConstraintResult :=
  -- at most one consumer, and some producer
  if 1 < (w.rules m).tasks.length then .fatalError
  else if (s.numActiveTasks m + 2 ^ 64 - (w.rules m).tasks.length) % 2 ^ 64 < 1 then .nonfatalError
  else .ok

/-! ### What a task runs -/

/-- Where `AddActiveWorker` goes on to, nowhere if it fails. -/
def goesOn (wid t m : ℕ) : List ℕ := (w.downstream wid t m).getD []

/-- Packets of the leaf's task come to the module `m` when the worker runs it. -/
def Runs (wid : ℕ) (leaf : TaskLeaf) (m : ℕ) : Prop :=
  ∃ c, leaf.module = some c ∧ Reaches (w.goesOn wid leaf.task) (fun _ => false) c m

/-- The worker runs the module in one of its tasks. -/
def Works (wid m : ℕ) : Prop :=
  wid < kMaxWorkers ∧ ∃ leaf ∈ w.leavesOf wid, w.Runs wid leaf m

/-- The tasks of the workers that run the module. -/
def tasksAt (m : ℕ) : Set ℕ :=
  {t | ∃ i < kMaxWorkers, ∃ leaf ∈ w.leavesOf i, leaf.task = t ∧ w.Runs i leaf m}

/-- Every task has one leaf, every root one worker, and the modules of the tasks exist. -/
structure Wf : Prop where
  tasks : (w.leaves.map TaskLeaf.task).Nodup
  roots : ∀ i j r, w.root i = some r → w.root j = some r → i = j
  modules : ∀ leaf ∈ w.leaves, ∀ c, leaf.module = some c → c ∈ w.graph.all

variable {w : WorkerGraph} {wid t fuel m c : ℕ} {s : ActiveWorkers} {leaf : TaskLeaf}

/-- What a search does at a module. -/
def enter (w : WorkerGraph) (wid t : ℕ) (s : Option ActiveWorkers) (m : ℕ) :
    Option ActiveWorkers :=
  (w.downstream wid t m).bind fun _ => s.map fun s => s.mark wid t m

/-- The modules that have visited the task are those that the search has. -/
def Seen (t : ℕ) (seen : List ℕ) (s : Option ActiveWorkers) : Prop :=
  ∀ s', s = some s' → ∀ m, t ∈ s'.visitedTasks m ↔ m ∈ seen

lemma visitedTasks_mark_self (wid t c : ℕ) (s : ActiveWorkers) :
    (s.mark wid t c).visitedTasks c = s.visitedTasks c ++ [t] := Function.update_self ..

lemma visitedTasks_mark_of_ne (hm : m ≠ c) :
    (s.mark wid t c).visitedTasks m = s.visitedTasks m := Function.update_of_ne hm ..

lemma mem_visitedTasks_mark : t ∈ (s.mark wid t c).visitedTasks m ↔
    m = c ∨ t ∈ s.visitedTasks m := by
  by_cases hm : m = c
  · rw [hm, visitedTasks_mark_self]
    simp
  · rw [visitedTasks_mark_of_ne hm]
    simp [hm]

lemma activeWorkers_mark {i : ℕ} : (s.mark wid t c).activeWorkers m i = true ↔
    s.activeWorkers m i = true ∨ i = wid ∧ m = c := by
  have hmark : (s.mark wid t c).activeWorkers m i
      = Function.update s.activeWorkers c (Function.update (s.activeWorkers c) wid true) m i := rfl
  rw [hmark]
  by_cases hm : m = c
  · rw [hm, Function.update_self]
    by_cases hi : i = wid
    · simp [hi]
    · rw [Function.update_of_ne hi]
      simp [hi]
  · rw [Function.update_of_ne hm]
    simp [hm]

lemma Seen.enter {seen : List ℕ} {s : Option ActiveWorkers} (h : Seen t seen s) (c : ℕ) :
    Seen t (c :: seen) (w.enter wid t s c) := by
  intro s' hs' m
  obtain ⟨_, _, hs'⟩ := Option.bind_eq_some_iff.mp hs'
  obtain ⟨s₀, hs, rfl⟩ := Option.map_eq_some_iff.mp hs'
  rw [mem_visitedTasks_mark, h s₀ hs m, List.mem_cons]

lemma bind_addActiveWorker_of_mem {seen : List ℕ} {s : Option ActiveWorkers} (h : Seen t seen s)
    (hc : c ∈ seen) (fuel : ℕ) : (s.bind fun s => w.addActiveWorker wid t (fuel + 1) s c) = s := by
  cases s with
  | none => rfl
  | some s => exact if_pos ((h s rfl c).mpr hc)

/-- The recursion of the source is the search, by induction on the fuel. -/
lemma visit_simulates (fuel : ℕ) : ∀ {seen : List ℕ} {s : Option ActiveWorkers} {c : ℕ}
    {st : List ℕ × Option ActiveWorkers}, Seen t seen s →
    (if c ∈ seen then some (seen, s)
      else visit (w.goesOn wid t) (fun _ => false) (w.enter wid t) fuel (seen, s) c) = some st →
    (s.bind fun s => w.addActiveWorker wid t (fuel + 1) s c) = st.2 ∧ Seen t st.1 st.2 := by
  induction fuel with
  | zero =>
      intro seen s c st hseen hrun
      by_cases hc : c ∈ seen
      · rw [if_pos hc] at hrun
        cases hrun
        exact ⟨bind_addActiveWorker_of_mem hseen hc 0, hseen⟩
      · rw [if_neg hc] at hrun
        cases hrun
  | succ fuel ih =>
      intro seen s c st hseen hrun
      by_cases hc : c ∈ seen
      · rw [if_pos hc] at hrun
        cases hrun
        exact ⟨bind_addActiveWorker_of_mem hseen hc (fuel + 1), hseen⟩
      · rw [if_neg hc, visit, if_neg (by decide)] at hrun
        -- the loop over the gates, by induction on them
        have hloop : ∀ (ds : List ℕ) {seen : List ℕ} {s : Option ActiveWorkers}, Seen t seen s →
            ds.foldlM (fun st d => if d ∈ st.1 then some st
              else visit (w.goesOn wid t) (fun _ => false) (w.enter wid t) fuel st d) (seen, s)
              = some st →
            (s.bind fun s => ds.foldlM (w.addActiveWorker wid t (fuel + 1)) s) = st.2 ∧
              Seen t st.1 st.2 := by
          intro ds
          induction ds with
          | nil =>
              intro seen s hseen hrun
              cases hrun
              exact ⟨Option.bind_fun_some s, hseen⟩
          | cons d ds ihd =>
              intro seen s hseen hrun
              rw [List.foldlM_cons] at hrun
              obtain ⟨st', hd, hrest⟩ := Option.bind_eq_some_iff.mp hrun
              obtain ⟨heq, hseen'⟩ := ih hseen hd
              obtain ⟨heq', hseen''⟩ := ihd hseen' hrest
              refine ⟨?_, hseen''⟩
              rw [← heq', ← heq, Option.bind_assoc]
              rfl
        obtain ⟨heq, hseen'⟩ := hloop _ (hseen.enter c) hrun
        refine ⟨heq ▸ ?_, hseen'⟩
        cases s with
        | none =>
            rw [enter]
            cases w.downstream wid t c with
            | none => rfl
            | some ds => rfl
        | some s =>
            rw [Option.bind_some, addActiveWorker, if_neg fun h => hc ((hseen s rfl c).mp h),
              goesOn, enter]
            cases w.downstream wid t c with
            | none => rfl
            | some ds => rfl

/-! ### One task -/

lemma goesOn_mem {d : ℕ} (h : d ∈ w.goesOn wid t m) : d ∈ w.graph.next m := by
  rw [goesOn, downstream] at h
  split at h
  · split_ifs at h
    · cases h
    · cases hget : (w.graph.mods m).ogates[(_ : ℤ).toNat]? with
      | none => rw [hget] at h; cases h
      | some gate =>
          rw [hget] at h
          cases gate with
          | none => cases h
          | some igate =>
              exact List.mem_filterMap.mpr ⟨some igate, List.mem_of_getElem? hget,
                congrArg some (List.mem_singleton.mp h).symm⟩
  · split_ifs at h
    · exact h
    · cases h

/-- A `WorkerSplit` has as many gates as its entry for the worker needs. -/
lemma downstream_isSome_iff : (w.downstream wid t m).isSome = true ↔
    ∀ gates, (w.rules m).gates = some gates →
      gates wid < (w.graph.mods m).ogates.length := by
  rw [downstream]
  split
  next gates hgates =>
    have hall : (∀ g, some gates = some g → g wid < ((w.graph.mods m).ogates.length : ℤ)) ↔
        gates wid < (w.graph.mods m).ogates.length :=
      ⟨fun h => h gates rfl, fun h g hg => Option.some.inj hg ▸ h⟩
    rw [hgates, hall]
    split_ifs with hneg
    · exact iff_of_true rfl (by omega)
    · rw [Option.isSome_map, isSome_getElem?]
      omega
  next hgates =>
    rw [hgates]
    split_ifs
    · exact iff_of_true rfl nofun
    · exact iff_of_true rfl nofun

/-- A task has come to the modules `R` and no others. -/
structure Added (wid t : ℕ) (R : ℕ → Prop) (s s' : ActiveWorkers) : Prop where
  active : ∀ m i, s'.activeWorkers m i = true ↔ s.activeWorkers m i = true ∨ i = wid ∧ R m
  visited : ∀ m, R m → s'.visitedTasks m = s.visitedTasks m ++ [t]
  kept : ∀ m, ¬ R m → s'.visitedTasks m = s.visitedTasks m

lemma effects_enter (s : ActiveWorkers) {new : List ℕ} (hnd : new.Nodup) :
    (effects (w.enter wid t) (some s) new = none ∧ ∃ m ∈ new, w.downstream wid t m = none) ∨
    ∃ s', effects (w.enter wid t) (some s) new = some s' ∧
      (∀ m ∈ new, (w.downstream wid t m).isSome = true) ∧ Added wid t (fun m => m ∈ new) s s' := by
  induction new with
  | nil => exact .inr ⟨s, rfl, nofun, ⟨fun m i => by simp, nofun, fun _ _ => rfl⟩⟩
  | cons c new ih =>
      obtain ⟨hc, hnd⟩ := List.nodup_cons.mp hnd
      have hcons : effects (w.enter wid t) (some s) (c :: new)
          = w.enter wid t (effects (w.enter wid t) (some s) new) c := rfl
      rw [hcons, enter]
      cases hdown : w.downstream wid t c with
      | none => exact .inl ⟨rfl, c, List.mem_cons_self, hdown⟩
      | some ds =>
          rw [Option.bind_some]
          rcases ih hnd with ⟨hnone, m, hm, hdown'⟩ | ⟨s', hs', hsome, hadd⟩
          · exact .inl ⟨by rw [hnone]; rfl, m, List.mem_cons_of_mem c hm, hdown'⟩
          · refine .inr ⟨s'.mark wid t c, by rw [hs']; rfl, fun m hm => ?_,
              ⟨fun m i => ?_, fun m hm => ?_, fun m hm => ?_⟩⟩
            · rcases List.mem_cons.mp hm with rfl | hm
              · rw [hdown]; rfl
              · exact hsome m hm
            · rw [activeWorkers_mark, hadd.active, List.mem_cons, @or_comm (m = c), and_or_left,
                or_assoc]
            · rcases List.mem_cons.mp hm with rfl | hm
              · rw [visitedTasks_mark_self, hadd.kept m hc]
              · rw [visitedTasks_mark_of_ne (ne_of_mem_of_not_mem hm hc), hadd.visited m hm]
            · rw [List.mem_cons, not_or] at hm
              rw [visitedTasks_mark_of_ne hm.1, hadd.kept m hm.2]

/-- **A task** comes to the modules that it runs, or to one that reads behind its gates. -/
lemma addTask_spec (hwf : w.graph.Wf) (hmod : ∀ c, leaf.module = some c → c ∈ w.graph.all)
    (hnew : ∀ m, leaf.task ∉ s.visitedTasks m) (wid : ℕ) :
    (w.addTask wid s leaf = none ∧
      ∃ m, w.Runs wid leaf m ∧ w.downstream wid leaf.task m = none) ∨
    ∃ s', w.addTask wid s leaf = some s' ∧
      (∀ m, w.Runs wid leaf m → (w.downstream wid leaf.task m).isSome = true) ∧
      Added wid leaf.task (w.Runs wid leaf) s s' := by
  rw [addTask]
  cases hc : leaf.module with
  | none =>
      have hruns : ∀ m, ¬ w.Runs wid leaf m := by
        rintro m ⟨c, hc', _⟩
        rw [hc] at hc'
        cases hc'
      exact .inr ⟨s, rfl, fun m h => absurd h (hruns m), ⟨fun m i => by simp [hruns m],
        fun m h => absurd h (hruns m), fun _ _ => rfl⟩⟩
  | some c =>
      have hseen : Seen leaf.task [] (some s) := fun s' hs' m => by
        cases hs'
        exact iff_of_false (hnew m) List.not_mem_nil
      obtain ⟨new, hrun, hnd, hreached⟩ : ∃ new,
          visit (w.goesOn wid leaf.task) (fun _ => false) (w.enter wid leaf.task) w.graph.num
            ([], some s) c = some (new, effects (w.enter wid leaf.task) (some s) new) ∧
          new.Nodup ∧ ∀ m, m ∈ new ↔ Reaches (w.goesOn wid leaf.task) (fun _ => false) c m :=
        visit_reaches (U := w.graph.all.toFinset)
          (fun c _ d hd => List.mem_toFinset.mpr (hwf.next_mem c d (goesOn_mem hd)))
          (List.mem_toFinset.mpr (hmod c hc)) hwf.card_le (some s)
      have hmem : ∀ m, m ∈ new ↔ w.Runs wid leaf m := fun m => by
        rw [hreached m]
        constructor
        · exact fun hreach => ⟨c, hc, hreach⟩
        · rintro ⟨c', hc', hreach⟩
          rw [hc] at hc'
          cases hc'
          exact hreach
      have heq := (visit_simulates (w := w) (c := c) w.graph.num hseen
        ((if_neg List.not_mem_nil).trans hrun)).1
      rw [Option.bind_some] at heq
      dsimp only
      rw [heq]
      rcases effects_enter s hnd with ⟨hnone, m, hm, hdown⟩ | ⟨s', hs', hsome, hadd⟩
      · exact .inl ⟨hnone, m, (hmem m).mp hm, hdown⟩
      · exact .inr ⟨s', hs', fun m hm => hsome m ((hmem m).mpr hm),
          (funext fun m => propext (hmem m) : (fun m => m ∈ new) = w.Runs wid leaf) ▸ hadd⟩

/-! ### All tasks -/

/-- What the modules hold after some of the tasks. -/
structure Swept (w : WorkerGraph) (cs : List (ℕ × TaskLeaf)) (s : ActiveWorkers) : Prop where
  defined : ∀ call ∈ cs, ∀ m, w.Runs call.1 call.2 m →
    (w.downstream call.1 call.2.task m).isSome = true
  active : ∀ m i, s.activeWorkers m i = true ↔ ∃ leaf, (i, leaf) ∈ cs ∧ w.Runs i leaf m
  nodup : ∀ m, (s.visitedTasks m).Nodup
  visited : ∀ m t, t ∈ s.visitedTasks m ↔ ∃ call ∈ cs, call.2.task = t ∧ w.Runs call.1 call.2 m

lemma Swept.nil (w : WorkerGraph) : Swept w [] reset where
  defined := nofun
  active _ _ := iff_of_false Bool.false_ne_true fun ⟨_, h, _⟩ => List.not_mem_nil h
  nodup _ := List.nodup_nil
  visited _ _ := iff_of_false List.not_mem_nil fun ⟨_, h, _⟩ => List.not_mem_nil h

/-- One more task, which no module has visited. -/
lemma Swept.snoc {cs : List (ℕ × TaskLeaf)} {s' : ActiveWorkers} (h : Swept w cs s)
    (hnew : ∀ call ∈ cs, call.2.task ≠ leaf.task)
    (hdef : ∀ m, w.Runs wid leaf m → (w.downstream wid leaf.task m).isSome = true)
    (hadd : Added wid leaf.task (w.Runs wid leaf) s s') : Swept w (cs ++ [(wid, leaf)]) s' where
  defined call hcall m hm := by
    rcases List.mem_append.mp hcall with hcall | hcall
    · exact h.defined call hcall m hm
    · rw [List.mem_singleton] at hcall
      subst hcall
      exact hdef m hm
  active m i := by
    rw [hadd.active, h.active]
    constructor
    · rintro (⟨l, hl, hm⟩ | ⟨rfl, hm⟩)
      · exact ⟨l, List.mem_append_left _ hl, hm⟩
      · exact ⟨leaf, List.mem_append_right _ (List.mem_singleton_self _), hm⟩
    · rintro ⟨l, hl, hm⟩
      rcases List.mem_append.mp hl with hl | hl
      · exact .inl ⟨l, hl, hm⟩
      · cases List.mem_singleton.mp hl
        exact .inr ⟨rfl, hm⟩
  nodup m := by
    by_cases hm : w.Runs wid leaf m
    · rw [hadd.visited m hm]
      refine List.nodup_append.mpr ⟨h.nodup m, List.nodup_singleton _, fun t ht u hu => ?_⟩
      obtain ⟨call, hcall, rfl, _⟩ := (h.visited m t).mp ht
      exact List.mem_singleton.mp hu ▸ hnew call hcall
    · rw [hadd.kept m hm]
      exact h.nodup m
  visited m t := by
    have hold : (∃ call ∈ cs ++ [(wid, leaf)], call.2.task = t ∧ w.Runs call.1 call.2 m) ↔
        t ∈ s.visitedTasks m ∨ leaf.task = t ∧ w.Runs wid leaf m := by
      rw [h.visited]
      constructor
      · rintro ⟨call, hcall, ht, hm⟩
        rcases List.mem_append.mp hcall with hcall | hcall
        · exact .inl ⟨call, hcall, ht, hm⟩
        · rw [List.mem_singleton] at hcall
          subst hcall
          exact .inr ⟨ht, hm⟩
      · rintro (⟨call, hcall, h⟩ | h)
        · exact ⟨call, List.mem_append_left _ hcall, h⟩
        · exact ⟨(wid, leaf), List.mem_append_right _ (List.mem_singleton_self _), h⟩
    rw [hold]
    by_cases hm : w.Runs wid leaf m
    · rw [hadd.visited m hm, List.mem_append, List.mem_singleton, eq_comm (a := t)]
      exact or_congr_right (and_iff_left hm).symm
    · rw [hadd.kept m hm]
      exact ⟨.inl, fun h => h.resolve_right fun h => hm h.2⟩

/-- The loop over the tasks, by induction on those that are left. -/
lemma sweep (hwf : w.graph.Wf) (cs : List (ℕ × TaskLeaf)) : ∀ {done : List (ℕ × TaskLeaf)}
    {s : ActiveWorkers}, Swept w done s →
    (done ++ cs).Pairwise (fun a b => a.2.task ≠ b.2.task) →
    (∀ call ∈ cs, ∀ c, call.2.module = some c → c ∈ w.graph.all) →
    (cs.foldlM (fun s call => w.addTask call.1 s call.2) s = none ∧
      ∃ call ∈ cs, ∃ m, w.Runs call.1 call.2 m ∧ w.downstream call.1 call.2.task m = none) ∨
    ∃ s', cs.foldlM (fun s call => w.addTask call.1 s call.2) s = some s' ∧
      Swept w (done ++ cs) s' := by
  induction cs with
  | nil => exact fun {done s} h _ _ => .inr ⟨s, rfl, (List.append_nil done).symm ▸ h⟩
  | cons call cs ih =>
      intro done s h hpair hmod
      have hnew : ∀ call' ∈ done, call'.2.task ≠ call.2.task := fun call' hcall' =>
        (List.pairwise_append.mp hpair).2.2 call' hcall' call List.mem_cons_self
      have hfresh : ∀ m, call.2.task ∉ s.visitedTasks m := fun m hm => by
        obtain ⟨call', hcall', heq, _⟩ := (h.visited m _).mp hm
        exact hnew call' hcall' heq
      rw [List.foldlM_cons]
      rcases addTask_spec hwf (hmod call List.mem_cons_self) hfresh call.1 with
        ⟨hnone, m, hm, hdown⟩ | ⟨s', hs', hdef, hadd⟩
      · exact .inl ⟨by rw [hnone]; rfl, call, List.mem_cons_self, m, hm, hdown⟩
      · rw [hs', Option.bind_eq_bind, Option.bind_some]
        rw [List.append_cons] at hpair ⊢
        rcases ih (h.snoc hnew hdef hadd) hpair
          (fun call' hcall' => hmod call' (List.mem_cons_of_mem call hcall')) with
          ⟨hnone, call', hcall', hbad⟩ | hgood
        · exact .inl ⟨hnone, call', List.mem_cons_of_mem call hcall', hbad⟩
        · exact .inr hgood

lemma mem_leavesOf : leaf ∈ w.leavesOf wid ↔ leaf ∈ w.leaves ∧ w.root wid = some leaf.root := by
  rw [leavesOf, List.mem_filter, decide_eq_true_eq]

lemma mem_calls {call : ℕ × TaskLeaf} :
    call ∈ w.calls ↔ call.1 < kMaxWorkers ∧ call.2 ∈ w.leavesOf call.1 := by
  rw [calls, List.mem_flatMap]
  constructor
  · rintro ⟨i, hi, hcall⟩
    obtain ⟨leaf, hleaf, rfl⟩ := List.mem_map.mp hcall
    exact ⟨List.mem_range.mp hi, hleaf⟩
  · rintro ⟨hi, hleaf⟩
    exact ⟨call.1, List.mem_range.mpr hi, List.mem_map.mpr ⟨call.2, hleaf, rfl⟩⟩

/-- Every task is added once, by one worker. -/
lemma Wf.calls_pairwise (h : w.Wf) : w.calls.Pairwise fun a b => a.2.task ≠ b.2.task := by
  refine List.pairwise_flatMap.mpr ⟨fun i _ => ?_, ?_⟩
  · exact List.pairwise_map.mpr ((List.pairwise_map.mp h.tasks).filter _)
  · refine List.nodup_range.imp fun {i j} hij a ha b hb htask => hij ?_
    obtain ⟨leaf, hleaf, rfl⟩ := List.mem_map.mp ha
    obtain ⟨leaf', hleaf', rfl⟩ := List.mem_map.mp hb
    obtain ⟨hmem, hroot⟩ := mem_leavesOf.mp hleaf
    obtain ⟨hmem', hroot'⟩ := mem_leavesOf.mp hleaf'
    have heq : leaf = leaf' := List.inj_on_of_nodup_map h.tasks hmem hmem' htask
    exact h.roots i j leaf.root hroot (heq ▸ hroot')

/-- **The sweep**: it is defined as long as no task comes to a `WorkerSplit` with too few gates, and
leaves with each module the workers and, once each, the tasks that run it. -/
lemma propagateActiveWorker_spec (hwf : w.graph.Wf) (h : w.Wf) :
    (w.propagateActiveWorker.isSome = true ↔
      ∀ i m, w.Works i m → ∀ gates, (w.rules m).gates = some gates →
        gates i < (w.graph.mods m).ogates.length) ∧
    ∀ s, w.propagateActiveWorker = some s → ∀ m,
      (∀ i, s.activeWorkers m i = true ↔ w.Works i m) ∧ (s.visitedTasks m).Nodup ∧
      ∀ t, t ∈ s.visitedTasks m ↔ t ∈ w.tasksAt m := by
  rcases sweep hwf w.calls (.nil w) h.calls_pairwise (fun call hcall c hc =>
    h.modules _ (mem_leavesOf.mp (mem_calls.mp hcall).2).1 c hc) with
    ⟨hnone, call, hcall, m, hm, hdown⟩ | ⟨s', hs', hswept⟩
  · have hrun : w.propagateActiveWorker = none := hnone
    rw [hrun]
    refine ⟨iff_of_false nofun fun hall => ?_, nofun⟩
    obtain ⟨hi, hleaf⟩ := mem_calls.mp hcall
    have hsome : (w.downstream call.1 call.2.task m).isSome = true :=
      downstream_isSome_iff.mpr (hall call.1 m ⟨hi, call.2, hleaf, hm⟩)
    rw [hdown] at hsome
    cases hsome
  · have hrun : w.propagateActiveWorker = some s' := hs'
    rw [hrun]
    refine ⟨iff_of_true rfl fun i m ⟨hi, leaf, hleaf, hm⟩ => downstream_isSome_iff.mp
      (hswept.defined (i, leaf) (mem_calls.mpr ⟨hi, hleaf⟩) m hm), fun s hs m => ?_⟩
    cases hs
    refine ⟨fun i => ?_, hswept.nodup m, fun t => ?_⟩
    · rw [hswept.active m i]
      constructor
      · rintro ⟨leaf, hcall, hm⟩
        exact ⟨(mem_calls.mp hcall).1, leaf, (mem_calls.mp hcall).2, hm⟩
      · rintro ⟨hi, leaf, hleaf, hm⟩
        exact ⟨leaf, mem_calls.mpr ⟨hi, hleaf⟩, hm⟩
    · rw [hswept.visited m t]
      constructor
      · rintro ⟨call, hcall, ht, hm⟩
        exact ⟨call.1, (mem_calls.mp hcall).1, call.2, (mem_calls.mp hcall).2, ht, hm⟩
      · rintro ⟨i, hi, leaf, hleaf, ht, hm⟩
        exact ⟨(i, leaf), mem_calls.mpr ⟨hi, hleaf⟩, ht, hm⟩

/-! ### The constraints -/

lemma numActiveWorkers_eq (hactive : ∀ i, s.activeWorkers m i = true ↔ w.Works i m) :
    s.numActiveWorkers m = {i | w.Works i m}.ncard := by
  have hnd : ((List.range kMaxWorkers).filter (s.activeWorkers m)).Nodup :=
    List.nodup_range.filter _
  have hset : {i | w.Works i m}
      = (((List.range kMaxWorkers).filter (s.activeWorkers m)).toFinset : Set ℕ) := by
    ext i
    rw [List.coe_toFinset, Set.mem_ofPred_eq, Set.mem_ofPred_eq, List.mem_filter, List.mem_range,
      hactive]
    exact ⟨fun h => ⟨h.1, h⟩, fun h => h.2⟩
  rw [hset, Set.ncard_coe_finset, List.toFinset_card_of_nodup hnd, numActiveWorkers]

lemma checkModuleConstraints_iff (hactive : ∀ i, s.activeWorkers m i = true ↔ w.Works i m) :
    (w.checkModuleConstraints s m = .fatalError ↔
      (w.rules m).maxAllowedWorkers < {i | w.Works i m}.ncard) ∧
    (w.checkModuleConstraints s m = .ok ↔
      {i | w.Works i m}.ncard ≤ (w.rules m).maxAllowedWorkers ∧
      ∀ i, w.Works i m → w.onSocket i m = true) := by
  have hany : ((List.range kMaxWorkers).any fun i => s.activeWorkers m i && !w.onSocket i m) = true
      ↔ ¬ ∀ i, w.Works i m → w.onSocket i m = true := by
    rw [List.any_eq_true]
    push Not
    constructor
    · rintro ⟨i, _, h⟩
      rw [Bool.and_eq_true, hactive, Bool.not_eq_true'] at h
      exact ⟨i, h.1, by rw [h.2]; exact Bool.false_ne_true⟩
    · rintro ⟨i, hworks, h⟩
      refine ⟨i, List.mem_range.mpr hworks.1, ?_⟩
      rw [Bool.and_eq_true, hactive, Bool.not_eq_true']
      exact ⟨hworks, Bool.eq_false_of_not_eq_true h⟩
  rw [checkModuleConstraints, numActiveWorkers_eq hactive]
  by_cases hmax : (w.rules m).maxAllowedWorkers < ({i | w.Works i m}.ncard : ℤ)
  · rw [if_pos hmax]
    exact ⟨iff_of_true rfl hmax, iff_of_false (by decide) fun h => absurd h.1 (not_le.mpr hmax)⟩
  · rw [if_neg hmax]
    by_cases hsocket : ∀ i, w.Works i m → w.onSocket i m = true
    · rw [if_neg fun h => hany.mp h hsocket]
      exact ⟨iff_of_false (by decide) hmax, iff_of_true rfl ⟨not_lt.mp hmax, hsocket⟩⟩
    · rw [if_pos (hany.mpr hsocket)]
      exact ⟨iff_of_false (by decide) hmax, iff_of_false (by decide) fun h => hsocket h.2⟩

/-- A queue passes unless the tasks that run it are as many as its own. -/
lemma checkQueueConstraints_iff (hnd : (s.visitedTasks m).Nodup)
    (hvisited : ∀ t, t ∈ s.visitedTasks m ↔ t ∈ w.tasksAt m) :
    w.checkQueueConstraints s m = .ok ↔ (w.rules m).tasks.length ≤ 1 ∧
      (w.tasksAt m).ncard % 2 ^ 64 ≠ (w.rules m).tasks.length := by
  have hcard : s.numActiveTasks m = (w.tasksAt m).ncard := by
    have hset : w.tasksAt m = ((s.visitedTasks m).toFinset : Set ℕ) := by
      ext t
      rw [List.coe_toFinset, Set.mem_ofPred_eq, hvisited]
    rw [hset, Set.ncard_coe_finset, List.toFinset_card_of_nodup hnd, numActiveTasks]
  rw [checkQueueConstraints, hcard]
  by_cases hone : 1 < (w.rules m).tasks.length
  · rw [if_pos hone]
    exact iff_of_false (by decide) fun h => absurd h.1 (not_le.mpr hone)
  · rw [if_neg hone]
    split_ifs with hwrap
    · exact iff_of_false (by decide) fun h => h.2 (by omega)
    · exact iff_of_true rfl ⟨not_lt.mp hone, by omega⟩

/-- **The workers of a module**: in every pipeline that any commands reach, `PropagateActiveWorker`
is defined as long as every `WorkerSplit` that a worker runs has the gate of that worker; each
module then has exactly the workers and the tasks that run it, and the check of its constraints
fails for good exactly when too many workers do.  A queue with one task passes its own check unless
exactly one task runs it, be it its own or not. -/
theorem reach_active {p : Pipeline} (hreach : Pipeline.Reach p) (hgraph : w.graph = p.graph)
    (h : w.Wf) :
    (w.propagateActiveWorker.isSome = true ↔
      ∀ i m, w.Works i m → ∀ gates, (w.rules m).gates = some gates →
        gates i < (w.graph.mods m).ogates.length) ∧
    ∀ s, w.propagateActiveWorker = some s → ∀ m,
      (∀ i, s.activeWorkers m i = true ↔ w.Works i m) ∧
      ((s.visitedTasks m).Nodup ∧ ∀ t, t ∈ s.visitedTasks m ↔ t ∈ w.tasksAt m) ∧
      (w.checkModuleConstraints s m = .fatalError ↔
        (w.rules m).maxAllowedWorkers < {i | w.Works i m}.ncard) ∧
      (w.checkModuleConstraints s m = .ok ↔
        {i | w.Works i m}.ncard ≤ (w.rules m).maxAllowedWorkers ∧
        ∀ i, w.Works i m → w.onSocket i m = true) ∧
      (w.checkQueueConstraints s m = .ok ↔ (w.rules m).tasks.length ≤ 1 ∧
        (w.tasksAt m).ncard % 2 ^ 64 ≠ (w.rules m).tasks.length) := by
  obtain ⟨hdef, hspec⟩ := propagateActiveWorker_spec (hgraph ▸ (Pipeline.reach_inv hreach).wf) h
  refine ⟨hdef, fun s hs m => ?_⟩
  obtain ⟨hactive, hvisited⟩ := hspec s hs m
  obtain ⟨hfatal, hok⟩ := checkModuleConstraints_iff hactive
  exact ⟨hactive, hvisited, hfatal, hok, checkQueueConstraints_iff hvisited.1 hvisited.2⟩

/-- A task, a module behind it, and one behind the first gate of that. -/
lemma exists_split : ∃ p, Pipeline.Reach p ∧ p.graph.all = [2, 1, 0] ∧
    (p.graph.mods 0).ogates = [some (1, 0)] ∧ (p.graph.mods 1).ogates = [some (2, 0)] := by
  have h₀ : Pipeline.Reach Pipeline.init := .start rfl
  have h₁ := h₀.next (.create true 0 1) rfl trivial
  have h₂ := h₁.next (.create false 1 64) rfl trivial
  have h₃ := h₂.next (.create false 1 1) rfl trivial
  have h₄ := h₃.next (.connect 0 0 1 0) rfl ⟨by decide, by decide⟩
  have h₅ := h₄.next (.connect 1 0 2 0) rfl ⟨by decide, by decide⟩
  exact ⟨_, h₅, rfl, rfl, rfl⟩

/-- The module between is a `WorkerSplit` with the default gates, and the task is that of the worker
`wid`. -/
def split (g : ModuleGraph) (wid : ℕ) : WorkerGraph where
  graph := g
  rules m :=
    { propagateWorkers := true
      tasks := if m = 0 then [0] else []
      gates := if m = 1 then some fun i => i else none
      maxAllowedWorkers := if m = 1 then 64 else 1
      nodeConstraints := 1 }
  root i := if i = wid then some 0 else none
  socket _ := 0
  leaves := [{ root := 0, task := 0, module := some 0 }]

lemma eq_of_split_root {g : ModuleGraph} {i r : ℕ} (h : (split g wid).root i = some r) :
    i = wid := by
  by_contra hne
  have hnone : (split g wid).root i = none := if_neg hne
  rw [hnone] at h
  cases h

lemma split_wf {g : ModuleGraph} (hall : g.all = [2, 1, 0]) (wid : ℕ) : (split g wid).Wf where
  tasks := List.nodup_singleton _
  roots i j r hi hj := (eq_of_split_root hi).trans (eq_of_split_root hj).symm
  modules leaf hleaf c hc := by
    rw [List.mem_singleton.mp hleaf] at hc
    cases hc
    exact hall ▸ by decide

/-- The task comes to the `WorkerSplit`. -/
lemma split_works {g : ModuleGraph} (hgates : (g.mods 0).ogates = [some (1, 0)])
    (hwid : wid < kMaxWorkers) : (split g wid).Works wid 0 ∧ (split g wid).Works wid 1 := by
  have hleaf : { root := 0, task := 0, module := some 0 } ∈ (split g wid).leavesOf wid :=
    mem_leavesOf.mpr ⟨List.mem_singleton_self _, if_pos rfl⟩
  have hone : 1 ∈ (split g wid).goesOn wid 0 0 := by
    have hnext : (split g wid).goesOn wid 0 0 = g.next 0 := rfl
    rw [hnext, ModuleGraph.next, hgates]
    exact List.mem_singleton_self 1
  exact ⟨⟨hwid, _, hleaf, 0, rfl, .refl⟩, hwid, _, hleaf, 0, rfl, .step .refl rfl hone⟩

/-- The first worker is active on the `WorkerSplit`; the second would read behind its gates. -/
theorem reach_active_split : ∃ p, Pipeline.Reach p ∧
    (∃ s, (split p.graph 0).propagateActiveWorker = some s ∧ s.activeWorkers 1 0 = true ∧
      0 ∈ s.visitedTasks 1) ∧
    (split p.graph 1).propagateActiveWorker = none := by
  obtain ⟨p, hreach, hall, hzero, hone⟩ := exists_split
  refine ⟨p, hreach, ?_, ?_⟩
  · obtain ⟨hdef, hspec⟩ := reach_active (w := split p.graph 0) hreach rfl (split_wf hall 0)
    have hsome := hdef.mpr fun i m hworks gates hgates => by
      obtain ⟨_, leaf, hleaf, _⟩ := hworks
      have hi : i = 0 := eq_of_split_root (mem_leavesOf.mp hleaf).2
      have hm : m = 1 := by
        by_contra hne
        have hnone : ((split p.graph 0).rules m).gates = none := if_neg hne
        rw [hnone] at hgates
        cases hgates
      subst hi hm
      cases hgates
      have hlength : ((split p.graph 0).graph.mods 1).ogates.length = 1 := by
        rw [split, hone]
        rfl
      rw [hlength]
      decide
    obtain ⟨s, hs⟩ := Option.isSome_iff_exists.mp hsome
    obtain ⟨hactive, ⟨_, hvisited⟩, _⟩ := hspec s hs 1
    have hworks : (split p.graph 0).Works 0 1 := (split_works hzero (by decide)).2
    obtain ⟨_, leaf, hleaf, hruns⟩ := id hworks
    refine ⟨s, hs, (hactive 0).mpr hworks, (hvisited 0).mpr
      ⟨0, by decide, leaf, hleaf, ?_, hruns⟩⟩
    rw [List.mem_singleton.mp (mem_leavesOf.mp hleaf).1]
  · obtain ⟨hdef, _⟩ := reach_active (w := split p.graph 1) hreach rfl (split_wf hall 1)
    refine Option.not_isSome_iff_eq_none.mp fun hsome => ?_
    have hlt := hdef.mp hsome 1 1 (split_works hzero (by decide)).2 (fun i => i) rfl
    have hlength : ((split p.graph 1).graph.mods 1).ogates.length = 1 := by
      rw [split, hone]
      rfl
    rw [hlength] at hlt
    exact absurd hlt (by decide)

end WorkerGraph

end Bess
