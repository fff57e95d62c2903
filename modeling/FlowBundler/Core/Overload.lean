import FlowBundler.Core.TaskGraph

/-!
Overload (`SignalOverload`, `SignalUnderload`, the marks of `Queue`).

* **The counters.** `pressure g t` sums the signals of the overloaded modules that have `t` as a
  parent; `drift` is what the counter of `t` has beyond them.  A signal adds the same to both
  (`signalParents_drift`).  Only two operations change the drift: a module that is destroyed takes
  its signals along, and an update replaces the parents that were counted.  `Calm` operations
  destroy no overloaded module, and update a graph that has changed only while no module is
  overloaded; so a calm run keeps the drift (`CalmReach.keeps`), which is zero at the start.
* `reach_pressure`: in calm runs the counter of a task is its pressure, and with the parents that
  the last update has set a task is held back exactly while it feeds an overloaded module.
* `destroy_holds_back`: after an overloaded module was destroyed the drift of the tasks above it is
  positive, and the rest of the run, if calm, keeps it.
* **The marks.** `Queue.Inv` says that a queue that is overloaded has marks and packets.  The low
  mark of a queue is positive unless its size is four, which is why a command must not resize an
  overloaded queue to that, nor turn its backpressure off; this is `Steady`.
* **Nothing is held back for ever.** `reach_release` orders the modules of an acyclic graph: of the
  overloaded modules below a task the last one in that order has no overloaded module below it, so
  it is not held back itself (`SteadyReach.exists_free`).  Each of its `RunTask`s takes a burst of
  packets, unless it ends the overload; `Draining.exec` is the induction on the packets.
-/

namespace Bess

namespace ModuleGraph

variable {g g' : ModuleGraph} {t m k : ℕ}

/-! ### What the counters count -/

/-- How often `t` stands above an overloaded module. -/
def pressureAt (g : ModuleGraph) (t m : ℕ) : ℕ :=
  if (g.mods m).overload then (g.mods m).parentTasks.count t else 0

/-- The signals of the overloaded modules below `t`. -/
def pressure (g : ModuleGraph) (t : ℕ) : ℕ := (g.all.map (g.pressureAt t)).sum

/-- What the counter of `t` has beyond them. -/
def drift (g : ModuleGraph) (t : ℕ) : ℤ := (g.mods t).childrenOverload - g.pressure t

lemma pressure_congr (hall : g'.all = g.all)
    (h : ∀ m ∈ g.all, g'.pressureAt t m = g.pressureAt t m) : g'.pressure t = g.pressure t := by
  rw [pressure, pressure, hall, List.map_congr_left h]

/-- The pressure changes at one module only. -/
lemma pressure_update (hnd : g.all.Nodup) (hm : m ∈ g.all) (hall : g'.all = g.all)
    (h : ∀ k ∈ g.all, k ≠ m → g'.pressureAt t k = g.pressureAt t k) :
    (g'.pressure t : ℤ) = g.pressure t + (g'.pressureAt t m - g.pressureAt t m) := by
  have hsum : ∀ f : ℕ → ℕ, (g.all.map f).sum = f m + ((g.all.erase m).map f).sum := fun f => by
    rw [← List.sum_cons, ← List.map_cons]
    exact ((List.perm_cons_erase hm).map f).sum_eq
  have hrest : (g.all.erase m).map (g'.pressureAt t) = (g.all.erase m).map (g.pressureAt t) :=
    List.map_congr_left fun k hk => h k (List.mem_of_mem_erase hk) (hnd.mem_erase_iff.mp hk).1
  rw [pressure, pressure, hall, hsum, hsum (g.pressureAt t), hrest]
  push_cast
  ring

/-- A signal is counted at the tasks above the module. -/
lemma signalParents_drift (hwf : g.Wf) (hm : m ∈ g.all) {d : ℤ} {b : Bool}
    (hd : d = if b then 1 else -1) (hb : (g.mods m).overload = !b) :
    (g.signalParents d b m).drift t = g.drift t := by
  have hmods := signalParents_mods (g := g) d b m
  have hp : ((g.signalParents d b m).pressure t : ℤ)
      = g.pressure t + ((g.signalParents d b m).pressureAt t m - g.pressureAt t m) :=
    pressure_update hwf.nodup hm rfl
      fun k _ hk => by rw [pressureAt, pressureAt, hmods k, if_neg hk]
  rw [drift, drift, hp, hmods t, pressureAt, pressureAt, hmods m, if_pos rfl, hb, hd]
  dsimp only
  cases b <;> simp

/-- The same counters, flags and parents. -/
structure SameSignals (g g' : ModuleGraph) : Prop where
  all : g'.all = g.all
  parents : ∀ m, (g'.mods m).parentTasks = (g.mods m).parentTasks
  overload : ∀ m, (g'.mods m).overload = (g.mods m).overload
  children : ∀ m, (g'.mods m).childrenOverload = (g.mods m).childrenOverload

lemma SameSignals.drift (h : SameSignals g g') (t : ℕ) : g'.drift t = g.drift t := by
  have hp : g'.pressure t = g.pressure t := pressure_congr h.all fun m _ => by
    rw [pressureAt, pressureAt, h.overload, h.parents]
  rw [ModuleGraph.drift, ModuleGraph.drift, h.children, hp]

lemma SameTasks.signals (h : SameTasks g g') : SameSignals g g' := by
  refine ⟨h.all, fun m => ?_, fun m => ?_, fun m => ?_⟩
  all_goals
    obtain ⟨ogates, hm⟩ := h.mods m
    rw [hm]

lemma setQueue_signals (m : ℕ) (q : Queue) : SameSignals g (g.setQueue m q) := by
  refine ⟨rfl, fun k => ?_, fun k => ?_, fun k => ?_⟩
  all_goals rw [setQueue_mods]

/-! ### What each operation does to the drift -/

/-- The drift is kept, and a new module has none. -/
structure KeepsDrift (g g' : ModuleGraph) : Prop where
  num_le : g.num ≤ g'.num
  drift : ∀ t < g.num, g'.drift t = g.drift t
  fresh : ∀ t, g.num ≤ t → t < g'.num → g'.drift t = 0

lemma KeepsDrift.of_drift (hnum : g'.num = g.num) (h : ∀ t, g'.drift t = g.drift t) :
    KeepsDrift g g' :=
  ⟨hnum.ge, fun t _ => h t, fun _ ht ht' => absurd (hnum ▸ ht') (not_lt.mpr ht)⟩

lemma KeepsDrift.refl (g : ModuleGraph) : KeepsDrift g g := .of_drift rfl fun _ => rfl

lemma KeepsDrift.create (hwf : g.Wf) (hb : g.Below) {isTask : Bool} {numIGates numOGates : ℕ}
    {queue : Option Queue} : KeepsDrift g (g.create isTask numIGates numOGates queue) := by
  -- the new module is not overloaded
  have hpressure : ∀ t, (g.create isTask numIGates numOGates queue).pressure t = g.pressure t := by
    intro t
    have hnew : (g.create isTask numIGates numOGates queue).pressureAt t g.num = 0 := by
      rw [pressureAt, create_mods_self]
      rfl
    have hold : g.all.map ((g.create isTask numIGates numOGates queue).pressureAt t)
        = g.all.map (g.pressureAt t) :=
      List.map_congr_left fun m hm => by
        rw [pressureAt, pressureAt, create_mods _ _ _ _ (hwf.ne_num hm)]
    have hall : (g.create isTask numIGates numOGates queue).all = g.num :: g.all := rfl
    rw [pressure, pressure, hall, List.map_cons, List.sum_cons, hnew, hold, zero_add]
  refine ⟨Nat.le_succ _, fun t ht => ?_, fun t ht ht' => ?_⟩
  · rw [ModuleGraph.drift, ModuleGraph.drift, hpressure, create_mods _ _ _ _ ht.ne]
  · have hzero : ∀ m ∈ g.all, g.pressureAt t m = 0 := fun m hm => by
      rw [pressureAt]
      split
      · exact List.count_eq_zero.mpr fun h => absurd (hb m hm t h) (not_lt.mpr ht)
      · rfl
    have ht : t = g.num := Nat.le_antisymm (Nat.lt_succ_iff.mp ht') ht
    have hsum : g.pressure t = 0 := by
      rw [pressure, List.sum_eq_zero]
      intro x hx
      obtain ⟨m, hm, rfl⟩ := List.mem_map.mp hx
      exact hzero m hm
    rw [ModuleGraph.drift, hpressure, hsum, ht, create_mods_self]
    rfl

/-- A module that is destroyed takes its signals along, but not from the counters. -/
lemma destroy_drift (hm : m ∈ g.all) (t : ℕ) :
    (g.destroy m).drift t = g.drift t + g.pressureAt t m := by
  have hsum : g.pressure t = g.pressureAt t m + (g.destroy m).pressure t := by
    rw [pressure, pressure, ← List.sum_cons]
    exact ((List.perm_cons_erase hm).map (g.pressureAt t)).sum_eq
  have hchildren : ((g.destroy m).mods t).childrenOverload = (g.mods t).childrenOverload := rfl
  rw [drift, drift, hchildren, hsum]
  push_cast
  ring

lemma KeepsDrift.destroy (hm : m ∈ g.all) (hover : (g.mods m).overload = false) :
    KeepsDrift g (g.destroy m) := by
  refine .of_drift rfl fun t => ?_
  rw [destroy_drift hm, pressureAt, if_neg (by simp [hover]), Nat.cast_zero, add_zero]

lemma pressure_eq_zero (h : ∀ m ∈ g.all, (g.mods m).overload = false) : g.pressure t = 0 := by
  rw [pressure, List.sum_eq_zero]
  intro x hx
  obtain ⟨m, hm, rfl⟩ := List.mem_map.mp hx
  rw [pressureAt, if_neg (by simp [h m hm])]

/-- The graph is updated while no module is overloaded. -/
lemma KeepsDrift.update (hshape : SameShape g g')
    (h : ∀ m ∈ g.all, (g.mods m).overload = false) : KeepsDrift g g' := by
  refine .of_drift hshape.num fun t => ?_
  have hmods : ∀ m, (g'.mods m).overload = (g.mods m).overload ∧
      (g'.mods m).childrenOverload = (g.mods m).childrenOverload := fun m => by
    obtain ⟨parents, hm⟩ := hshape.mods m
    rw [hm]
    exact ⟨rfl, rfl⟩
  have h' : ∀ m ∈ g'.all, (g'.mods m).overload = false := fun m hm =>
    (hmods m).1.trans (h m (hshape.all ▸ hm))
  rw [ModuleGraph.drift, ModuleGraph.drift, pressure_eq_zero h, pressure_eq_zero h', (hmods t).2]

lemma KeepsDrift.processBatch (hwf : g.Wf) (hm : m ∈ g.all) {q : Queue} {batch : List Packet}
    (h : g.processBatch m q batch = some g') : KeepsDrift g g' := by
  refine .of_drift (SameGates.processBatch h).num fun t => ?_
  rw [processBatch_eq h]
  split
  next hcond =>
    have hover : ((g.setQueue m (q.enqueue batch)).mods m).overload = !true := by
      rw [(setQueue_signals m _).overload]
      exact hcond.2
    exact (signalParents_drift ((SameGates.setQueue m _).wf hwf) hm rfl hover).trans
      ((setQueue_signals m _).drift t)
  · exact (setQueue_signals m _).drift t

lemma KeepsDrift.runTask (hwf : g.Wf) (hm : m ∈ g.all) {q : Queue}
    {s : ModuleGraph × List Packet} (h : g.runTask m q = some s) : KeepsDrift g s.1 := by
  refine .of_drift (SameGates.runTask h).num fun t => ?_
  rw [runTask_eq h]
  split
  · rfl
  · dsimp only
    split
    next hcond =>
      have hover : ((g.setQueue m q.dequeue).mods m).overload = !false := by
        rw [(setQueue_signals m _).overload]
        exact hcond.2
      exact (signalParents_drift ((SameGates.setQueue m _).wf hwf) hm rfl hover).trans
        ((setQueue_signals m _).drift t)
    · exact (setQueue_signals m _).drift t

end ModuleGraph

/-! ### Calm runs -/

namespace Pipeline

open ModuleGraph

variable {w w' : Pipeline} {t m : ℕ}

/-- No module is overloaded when it is destroyed, or when the graph is updated. -/
def Calm (w : Pipeline) : Op → Prop
  | .destroy m => (w.graph.mods m).overload = false
  | .resume => w.graph.changesMade = true → ∀ m ∈ w.graph.all, (w.graph.mods m).overload = false
  | _ => True

/-- The pipelines that calm operations reach from a pipeline. -/
def CalmReach (w : Pipeline) : Pipeline → Prop :=
  Machine.Reach step (fun w' => w' = w) fun w op => w.Admits op ∧ w.Calm op

lemma command_drift (m : ℕ) (f : Queue → Option Queue) :
    KeepsDrift w.graph (w.command m f).graph := by
  rw [Pipeline.command]
  split
  · exact .of_drift rfl (setQueue_signals m _).drift
  · exact .refl _

lemma sameTasks_drift {g g' : ModuleGraph}
    (h : g' = g ∨ g'.changesMade = true ∧ SameTasks g g') : KeepsDrift g g' := by
  rcases h with rfl | ⟨_, h⟩
  · exact .refl _
  · exact .of_drift h.num h.signals.drift

/-- **One calm operation** keeps the drift. -/
lemma Inv.step_drift (h : Inv w) {op : Op} (hop : w.Admits op) (hcalm : w.Calm op)
    (hstep : w.step op = some w') : KeepsDrift w.graph w'.graph := by
  cases op with
  | create isTask numIGates numOGates =>
      rw [Pipeline.step, Option.some.injEq] at hstep
      exact hstep ▸ .create h.wf h.below
  | createQueue size backpressure =>
      rw [Pipeline.step] at hstep
      cases hq : Queue.init size backpressure with
      | none =>
          rw [hq, Option.some.injEq] at hstep
          exact hstep ▸ .refl _
      | some q =>
          rw [hq, Option.some.injEq] at hstep
          exact hstep ▸ .create h.wf h.below
  | connect m o m' i =>
      rw [Pipeline.step, Option.some.injEq] at hstep
      exact hstep ▸ sameTasks_drift (connect_changes w.graph m o m' i)
  | disconnect m o =>
      rw [Pipeline.step, Option.some.injEq] at hstep
      exact hstep ▸ sameTasks_drift (disconnect_changes w.graph m o)
  | destroy m =>
      rw [Pipeline.step, Option.some.injEq] at hstep
      exact hstep ▸ .destroy hop.1 hcalm
  | pause =>
      rw [Pipeline.step, Option.some.injEq] at hstep
      exact hstep ▸ .refl _
  | resume =>
      obtain ⟨g', hrun, hshape, _⟩ := updateTaskGraph_spec h.wf h.parents
      rw [Pipeline.step, hrun, Option.map_some, Option.some.injEq] at hstep
      rw [← hstep]
      cases hc : w.graph.changesMade with
      | true => exact .update hshape (hcalm hc)
      | false =>
          rw [updateTaskGraph, hc] at hrun
          exact Option.some.inj hrun ▸ .refl _
  | resumeWorker =>
      rw [Pipeline.step, Option.some.injEq] at hstep
      exact hstep ▸ .refl _
  | setBurst m burst =>
      rw [Pipeline.step, Option.some.injEq] at hstep
      exact hstep ▸ command_drift m _
  | setSize m size =>
      rw [Pipeline.step, Option.some.injEq] at hstep
      exact hstep ▸ command_drift m _
  | setRuntimeConfig m size backpressure =>
      rw [Pipeline.step, Option.some.injEq] at hstep
      exact hstep ▸ command_drift m _
  | processBatch m batch =>
      obtain ⟨q, g', _, hg', rfl⟩ := processBatch_step hstep
      exact .processBatch h.wf hop.1 hg'
  | runTask m =>
      obtain ⟨q, s, _, hs, rfl⟩ := runTask_step hstep
      exact .runTask h.wf hop.1 hs

/-- **A calm run** keeps the drift. -/
lemma CalmReach.keeps (h : CalmReach w w') (hinv : Inv w) :
    Inv w' ∧ KeepsDrift w.graph w'.graph := by
  refine h.invariant (I := fun w' => Inv w' ∧ KeepsDrift w.graph w'.graph)
    (by rintro w' rfl; exact ⟨hinv, .refl _⟩)
    fun w₁ w₂ op _ ih hop hstep => ⟨ih.1.next hop.1 hstep, ?_⟩
  obtain ⟨hinv₁, hkeep⟩ := ih
  have hnext := hinv₁.step_drift hop.1 hop.2 hstep
  refine ⟨hkeep.num_le.trans hnext.num_le, fun t ht => ?_, fun t ht ht' => ?_⟩
  · rw [hnext.drift t (ht.trans_le hkeep.num_le), hkeep.drift t ht]
  · by_cases hlt : t < w₁.graph.num
    · rw [hnext.drift t hlt, hkeep.fresh t ht hlt]
    · exact hnext.fresh t (not_lt.mp hlt) ht'

lemma CalmReach.reach (h : CalmReach init w) : Reach w :=
  h.mono fun _ _ hop => hop.1

/-- From the start there is no drift. -/
lemma CalmReach.children_eq (h : CalmReach init w) (ht : t < w.graph.num) :
    (w.graph.mods t).childrenOverload = w.graph.pressure t := by
  have hzero := (h.keeps inv_init).2.fresh t (Nat.zero_le t) ht
  rw [ModuleGraph.drift] at hzero
  omega

/-- **What is not calm**: when an overloaded module is destroyed, the tasks above it are held back
in every state after it, whatever calm operations are made. -/
theorem destroy_holds_back (h : CalmReach init w) (hop : w.Admits (.destroy m))
    (hover : (w.graph.mods m).overload = true) (ht : t ∈ (w.graph.mods m).parentTasks)
    (h' : CalmReach { w with graph := w.graph.destroy m } w') (q : Queue) :
    0 < (w'.graph.mods t).childrenOverload ∧ w'.graph.runTask t q = some (w'.graph, []) := by
  obtain ⟨hinv, _⟩ := h.keeps inv_init
  have hlt := hinv.below m hop.1 t ht
  have hkeep : w'.graph.drift t = (w.graph.destroy m).drift t :=
    (h'.keeps hinv.destroy).2.drift t hlt
  have hpos : 0 < w.graph.pressureAt t m := by
    rw [pressureAt, if_pos hover]
    exact List.count_pos_iff.mpr ht
  have hzero := h.children_eq hlt
  have hheld : 0 < (w'.graph.mods t).childrenOverload := by
    rw [destroy_drift hop.1, ModuleGraph.drift, ModuleGraph.drift] at hkeep
    omega
  exact ⟨hheld, if_pos hheld⟩

end Pipeline

/-! ### The marks of a queue -/

namespace Queue

variable {q q' : Queue} {b : Bool}

/-- A queue by itself, with whether it is overloaded. -/
structure Inv (q : Queue) (overload : Bool) : Prop where
  size : 4 ≤ q.size
  length : q.ring.length < q.size
  high : q.backpressure = true → q.highWater = q.size * 90 / 100
  low : q.backpressure = true → q.lowWater = q.size * 15 / 100
  mark : overload = true → q.backpressure = true ∧ 0 < q.lowWater
  ring : overload = true → q.ring ≠ []

lemma Inv.calm (h : q.Inv b) : q.Inv false := ⟨h.size, h.length, h.high, h.low, nofun, nofun⟩

/-- A resized queue; the size of an overloaded queue is not four. -/
lemma resize_inv {slots : ℕ} (hslots : 4 ≤ slots) (hmark : b = true → q.backpressure = true)
    (hring : b = true → q.ring ≠ []) (hfour : b = true → 7 ≤ slots) : (q.resize slots).Inv b := by
  have hlen : (q.ring.take (slots - 1)).length < slots :=
    (List.length_take_le _ _).trans_lt (by omega)
  have htake : b = true → q.ring.take (slots - 1) ≠ [] := fun hb h => by
    rcases List.take_eq_nil_iff.mp h with h | h
    · omega
    · exact hring hb h
  rw [resize]
  by_cases hbp : q.backpressure = true
  · rw [if_pos hbp]
    refine ⟨hslots, hlen, fun _ => rfl, fun _ => rfl, fun hb => ⟨hbp, ?_⟩, htake⟩
    have := hfour hb
    simp only [adjustWaterLevels]
    omega
  · rw [if_neg hbp]
    exact ⟨hslots, hlen, fun h => absurd h hbp, fun h => absurd h hbp,
      fun hb => absurd (hmark hb) hbp, htake⟩

/-- A size that is accepted is a power of two. -/
lemma setSize_eq {size : ℕ} (h : q.setSize size = some q') :
    4 ≤ size ∧ (size = 4 ∨ 7 ≤ size) ∧ q' = q.resize size := by
  rw [setSize] at h
  split at h
  · cases h
  next hrange =>
    split at h
    · cases h
    next hpow =>
      rw [Option.some.injEq] at h
      refine ⟨by omega, ?_, h.symm⟩
      by_contra hne
      have hcases : size = 5 ∨ size = 6 := by omega
      rcases hcases with rfl | rfl
      · exact hpow (by decide)
      · exact hpow (by decide)

lemma setSize_inv {size : ℕ} (hq : q.Inv b) (h : q.setSize size = some q')
    (hfour : b = true → size ≠ 4) : q'.Inv b := by
  obtain ⟨hslots, hpow, rfl⟩ := setSize_eq h
  exact resize_inv hslots (fun hb => (hq.mark hb).1) hq.ring fun hb =>
    hpow.resolve_left (hfour hb)

lemma init_inv {size : ℕ} {backpressure : Bool} (h : Queue.init size backpressure = some q) :
    q.Inv false := by
  rw [Queue.init] at h
  split at h
  · obtain ⟨hslots, _, rfl⟩ := setSize_eq h
    exact resize_inv hslots nofun nofun nofun
  · rw [Option.some.injEq] at h
    exact h ▸ resize_inv (by decide) nofun nofun nofun

lemma setBurst_inv {burst : ℕ} (hq : q.Inv b) (h : q.setBurst burst = some q') : q'.Inv b := by
  rw [setBurst] at h
  split at h
  · cases h
  · rw [Option.some.injEq] at h
    exact h ▸ ⟨hq.size, hq.length, hq.high, hq.low, hq.mark, hq.ring⟩

lemma resize_backpressure (slots : ℕ) : (q.resize slots).backpressure = q.backpressure := by
  rw [resize]
  split
  · rfl
  · rfl

lemma setRuntimeConfig_inv {size : ℕ} {backpressure : Bool} (hq : q.Inv b)
    (h : q.setRuntimeConfig size backpressure = some q') (hfour : b = true → size ≠ 4)
    (hbp : backpressure = q.backpressure) : q'.Inv b := by
  rw [setRuntimeConfig] at h
  obtain ⟨q₁, hq₁, rfl⟩ := Option.map_eq_some_iff.mp h
  split at hq₁
  · have hinv := setSize_inv hq hq₁ hfour
    obtain ⟨_, _, rfl⟩ := setSize_eq hq₁
    have hsame : { q.resize size with backpressure := backpressure } = q.resize size := by
      rw [hbp, ← resize_backpressure size]
    rw [hsame]
    exact hinv
  · rw [Option.some.injEq] at hq₁
    rw [← hq₁, hbp]
    exact hq

lemma enqueue_length (batch : List Packet) :
    (q.enqueue batch).ring.length
      = q.ring.length + min (q.size - 1 - q.ring.length) batch.length := by
  rw [enqueue]
  dsimp only
  rw [List.length_append, List.length_take]

/-- A queue above its high mark has a low mark. -/
lemma enqueue_inv (hq : q.Inv b) (batch : List Packet) {b' : Bool}
    (hb' : b' = true → b = true ∨
      q.backpressure = true ∧ q.highWater < (q.enqueue batch).ring.length) :
    (q.enqueue batch).Inv b' := by
  have hsize := hq.size
  have hlen := hq.length
  have hlen' := enqueue_length (q := q) batch
  refine ⟨hq.size, ?_, hq.high, hq.low, fun hb => ?_, fun hb hnil => ?_⟩
  · rw [hlen']
    change _ < q.size
    omega
  · rcases hb' hb with hb | ⟨hbp, hmark⟩
    · exact hq.mark hb
    · refine ⟨hbp, ?_⟩
      change 0 < q.lowWater
      have hhigh := hq.high hbp
      have hlow := hq.low hbp
      omega
  · rcases hb' hb with hb | ⟨_, hmark⟩
    · have := List.length_pos_iff.mpr (hq.ring hb)
      rw [hnil, List.length_nil] at hlen'
      omega
    · rw [hnil] at hmark
      exact absurd hmark (Nat.not_lt_zero _)

lemma dequeue_length : q.dequeue.ring.length = q.ring.length - q.burst := by
  rw [dequeue]
  exact List.length_drop

/-- A queue that stays above its low mark has packets. -/
lemma dequeue_inv (hq : q.Inv b) {b' : Bool}
    (hb' : b' = true → b = true ∧ ¬ (q.backpressure = true ∧ q.dequeue.ring.length < q.lowWater)) :
    q.dequeue.Inv b' := by
  have hlen := hq.length
  have hlen' := dequeue_length (q := q)
  refine ⟨hq.size, ?_, hq.high, hq.low, fun hb => hq.mark (hb' hb).1, fun hb hnil => ?_⟩
  · rw [hlen']
    change _ < q.size
    omega
  · obtain ⟨hb, hmark⟩ := hb' hb
    obtain ⟨hbp, hlow⟩ := hq.mark hb
    refine hmark ⟨hbp, ?_⟩
    rw [hnil]
    exact hlow

end Queue

/-! ### Steady runs -/

namespace ModuleGraph

variable {g g' : ModuleGraph} {t m k : ℕ}

/-- Every queue is as it should be, and only queues are overloaded. -/
def Marked (g : ModuleGraph) : Prop :=
  ∀ m ∈ g.all, (∀ q, (g.mods m).queue = some q → q.Inv (g.mods m).overload) ∧
    ((g.mods m).queue = none → (g.mods m).overload = false)

lemma Marked.congr (h : g.Marked) (hall : ∀ m ∈ g'.all, m ∈ g.all)
    (hmods : ∀ m, (g'.mods m).queue = (g.mods m).queue ∧
      (g'.mods m).overload = (g.mods m).overload) : g'.Marked := by
  intro m hm
  rw [(hmods m).1, (hmods m).2]
  exact h m (hall m hm)

lemma Marked.sameTasks (h : g.Marked) (hg : SameTasks g g') : g'.Marked :=
  h.congr (fun _ hm => hg.all ▸ hm) fun m => by
    obtain ⟨ogates, hm⟩ := hg.mods m
    rw [hm]
    exact ⟨rfl, rfl⟩

lemma Marked.sameShape (h : g.Marked) (hg : SameShape g g') : g'.Marked :=
  h.congr (fun _ hm => hg.all ▸ hm) fun m => by
    obtain ⟨parents, hm⟩ := hg.mods m
    rw [hm]
    exact ⟨rfl, rfl⟩

lemma Marked.create (hwf : g.Wf) (h : g.Marked) {isTask : Bool} {numIGates numOGates : ℕ}
    {queue : Option Queue} (hqueue : ∀ q, queue = some q → q.Inv false) :
    (g.create isTask numIGates numOGates queue).Marked := by
  intro m hm
  rcases List.mem_cons.mp hm with rfl | hm
  · rw [create_mods_self]
    exact ⟨hqueue, fun _ => rfl⟩
  · rw [create_mods _ _ _ _ (hwf.ne_num hm)]
    exact h m hm

/-- One queue changes. -/
lemma Marked.setQueue (h : g.Marked) {q : Queue} (hq : q.Inv (g.mods m).overload) :
    (g.setQueue m q).Marked := by
  intro k hk
  rw [setQueue_mods]
  dsimp only
  split
  next hkm =>
    refine ⟨fun q' hq' => ?_, nofun⟩
    rw [Option.some.injEq] at hq'
    rw [← hq', hkm]
    exact hq
  · exact h k hk

/-- One queue changes, and whether it is overloaded. -/
lemma Marked.signalParents (h : g.Marked) (d : ℤ) {b : Bool} {q : Queue} (hq : q.Inv b) :
    ((g.setQueue m q).signalParents d b m).Marked := by
  intro k hk
  rw [signalParents_mods, setQueue_mods]
  dsimp only
  by_cases hkm : k = m
  · rw [if_pos hkm, if_pos hkm]
    refine ⟨fun q' hq' => ?_, nofun⟩
    rw [Option.some.injEq] at hq'
    exact hq' ▸ hq
  · rw [if_neg hkm, if_neg hkm]
    exact h k hk

lemma Marked.processBatch (h : g.Marked) (hm : m ∈ g.all) {q : Queue}
    (hqueue : (g.mods m).queue = some q) {batch : List Packet}
    (hrun : g.processBatch m q batch = some g') : g'.Marked := by
  have hq := (h m hm).1 q hqueue
  rw [processBatch_eq hrun]
  split
  next hcond => exact h.signalParents 1 (Queue.enqueue_inv hq batch fun _ => .inr hcond.1)
  · exact h.setQueue (Queue.enqueue_inv hq batch fun hb => .inl hb)

lemma Marked.runTask (h : g.Marked) (hm : m ∈ g.all) {q : Queue}
    (hqueue : (g.mods m).queue = some q) {s : ModuleGraph × List Packet}
    (hrun : g.runTask m q = some s) : s.1.Marked := by
  have hq := (h m hm).1 q hqueue
  rw [runTask_eq hrun]
  split
  · exact h
  · dsimp only
    split
    · exact h.signalParents (-1) (Queue.dequeue_inv hq nofun)
    next hcond =>
      exact h.setQueue (Queue.dequeue_inv hq fun hb => ⟨hb, fun hmark => hcond ⟨hmark, hb⟩⟩)

end ModuleGraph

namespace Pipeline

open ModuleGraph

variable {w w' : Pipeline} {q : Queue} {t m : ℕ}

/-- A command does not take the marks of a queue away: an overloaded queue is not made one of four
slots, and backpressure stays as it is. -/
def Steady (w : Pipeline) : Op → Prop
  | .setSize m size => (w.graph.mods m).overload = true → size ≠ 4
  | .setRuntimeConfig m size backpressure =>
      ((w.graph.mods m).overload = true → size ≠ 4) ∧
        ∀ q, (w.graph.mods m).queue = some q → backpressure = q.backpressure
  | _ => True

/-- The pipelines that calm and steady operations reach. -/
def SteadyReach : Pipeline → Prop :=
  Machine.Reach step (fun w => w = init) fun w op => (w.Admits op ∧ w.Calm op) ∧ w.Steady op

lemma command_marked (h : w.graph.Marked) (hm : m ∈ w.graph.all) {f : Queue → Option Queue}
    (hf : ∀ q q', (w.graph.mods m).queue = some q → q.Inv (w.graph.mods m).overload →
      f q = some q' → q'.Inv (w.graph.mods m).overload) : (w.command m f).graph.Marked := by
  rw [Pipeline.command]
  split
  next q' hq' =>
    obtain ⟨q, hqueue, hq'⟩ := Option.bind_eq_some_iff.mp hq'
    exact h.setQueue (hf q q' hqueue ((h m hm).1 q hqueue) hq')
  · exact h

/-- **One steady operation** keeps the queues as they should be. -/
lemma Inv.step_marked (h : Inv w) (hmarked : w.graph.Marked) {op : Op} (hop : w.Admits op)
    (hsteady : w.Steady op) (hstep : w.step op = some w') : w'.graph.Marked := by
  cases op with
  | create isTask numIGates numOGates =>
      rw [Pipeline.step, Option.some.injEq] at hstep
      exact hstep ▸ hmarked.create h.wf fun q hq => absurd hq.symm (Option.some_ne_none q)
  | createQueue size backpressure =>
      rw [Pipeline.step] at hstep
      cases hq : Queue.init size backpressure with
      | none =>
          rw [hq, Option.some.injEq] at hstep
          exact hstep ▸ hmarked
      | some q =>
          rw [hq, Option.some.injEq] at hstep
          refine hstep ▸ hmarked.create h.wf fun q' hq' => ?_
          rw [Option.some.injEq] at hq'
          exact hq' ▸ Queue.init_inv hq
  | connect m o m' i =>
      rw [Pipeline.step, Option.some.injEq] at hstep
      rw [← hstep]
      rcases connect_changes w.graph m o m' i with hsame | ⟨_, hsame⟩
      · dsimp only
        rw [hsame]
        exact hmarked
      · exact hmarked.sameTasks hsame
  | disconnect m o =>
      rw [Pipeline.step, Option.some.injEq] at hstep
      rw [← hstep]
      rcases disconnect_changes w.graph m o with hsame | ⟨_, hsame⟩
      · dsimp only
        rw [hsame]
        exact hmarked
      · exact hmarked.sameTasks hsame
  | destroy m =>
      rw [Pipeline.step, Option.some.injEq] at hstep
      exact hstep ▸ hmarked.congr (fun _ hk => List.mem_of_mem_erase hk) fun _ => ⟨rfl, rfl⟩
  | pause =>
      rw [Pipeline.step, Option.some.injEq] at hstep
      exact hstep ▸ hmarked
  | resume =>
      obtain ⟨g', hrun, hshape, _⟩ := updateTaskGraph_spec h.wf h.parents
      rw [Pipeline.step, hrun, Option.map_some, Option.some.injEq] at hstep
      exact hstep ▸ hmarked.sameShape hshape
  | resumeWorker =>
      rw [Pipeline.step, Option.some.injEq] at hstep
      exact hstep ▸ hmarked
  | setBurst m burst =>
      rw [Pipeline.step, Option.some.injEq] at hstep
      exact hstep ▸ command_marked hmarked hop fun q q' _ hq hf => Queue.setBurst_inv hq hf
  | setSize m size =>
      rw [Pipeline.step, Option.some.injEq] at hstep
      exact hstep ▸ command_marked hmarked hop fun q q' _ hq hf => Queue.setSize_inv hq hf hsteady
  | setRuntimeConfig m size backpressure =>
      rw [Pipeline.step, Option.some.injEq] at hstep
      exact hstep ▸ command_marked hmarked hop fun q q' hqueue hq hf =>
        Queue.setRuntimeConfig_inv hq hf hsteady.1 (hsteady.2 q hqueue)
  | processBatch m batch =>
      obtain ⟨q, g', hqueue, hg', rfl⟩ := processBatch_step hstep
      exact hmarked.processBatch hop.1 hqueue hg'
  | runTask m =>
      obtain ⟨q, s, hqueue, hs, rfl⟩ := runTask_step hstep
      exact hmarked.runTask hop.1 hqueue hs

lemma SteadyReach.calm (h : SteadyReach w) : CalmReach init w :=
  h.mono fun _ _ hop => hop.1

/-- **In a steady run** the queues are as they should be. -/
lemma SteadyReach.marked (h : SteadyReach w) : w.graph.Marked := by
  have hboth : Inv w ∧ w.graph.Marked := by
    refine h.invariant (I := fun w => Inv w ∧ w.graph.Marked) ?_ ?_
    · rintro w rfl
      exact ⟨inv_init, nofun⟩
    · intro w w' op _ ih hop hstep
      exact ⟨ih.1.next hop.1.1 hstep, ih.1.step_marked ih.2 hop.1.1 hop.2 hstep⟩
  exact hboth.2

/-! ### Nothing is held back for ever -/

/-- A queue whose task runs: the graph is up to date, the queue is overloaded and not held back,
and a burst takes packets. -/
structure Draining (w : Pipeline) (m : ℕ) (q : Queue) : Prop where
  running : w.running = true
  updated : w.graph.changesMade = false
  mem : m ∈ w.graph.all
  queue : (w.graph.mods m).queue = some q
  overload : (w.graph.mods m).overload = true
  free : (w.graph.mods m).childrenOverload ≤ 0
  burst : 0 < q.burst

/-- One `RunTask` of such a queue returns; it ends the overload, or it takes packets. -/
lemma Draining.runTask (hd : w.Draining m q) (h : Inv w) (hmarked : w.graph.Marked) :
    ∃ w', w.step (.runTask m) = some w' ∧
      (∀ k ≠ m, (w'.graph.mods k).overload = (w.graph.mods k).overload) ∧
      ((w'.graph.mods m).overload = false ∨ w'.Draining m q.dequeue) := by
  have hexist : w.graph.ParentsExist m :=
    alive_of_parents h.wf (h.parents hd.updated) m hd.mem
  have hring := ((hmarked m hd.mem).1 q hd.queue).ring hd.overload
  have hfront : q.front ≠ [] := fun hnil => by
    rcases List.take_eq_nil_iff.mp hnil with h | h
    · exact absurd h hd.burst.ne'
    · exact hring h
  have hblock : ¬ w.graph.Blocked m q := not_or.mpr ⟨not_lt.mpr hd.free, hfront⟩
  have hspec : w.graph.runTask m q = _ := runTask_spec q
  rw [if_neg hblock, if_pos hexist] at hspec
  by_cases hunder : w.graph.Underloads m q
  · rw [if_pos hunder] at hspec
    refine ⟨{ w with graph := (w.graph.setQueue m q.dequeue).signalParents (-1) false m }, ?_,
      fun k hk => ?_, .inl ?_⟩
    · rw [Pipeline.step, hd.queue, Option.bind_some, hspec]
      rfl
    · rw [signalParents_mods, setQueue_mods]
      dsimp only
      rw [if_neg hk]
    · rw [signalParents_mods]
      dsimp only
      rw [if_pos rfl]
  · rw [if_neg hunder] at hspec
    refine ⟨{ w with graph := w.graph.setQueue m q.dequeue }, ?_, fun k _ => ?_,
      .inr ⟨hd.running, hd.updated, hd.mem, ?_, ?_, ?_, hd.burst⟩⟩
    · rw [Pipeline.step, hd.queue, Option.bind_some, hspec]
      rfl
    all_goals rw [setQueue_mods]
    · dsimp only
      rw [if_pos rfl]
    · exact hd.overload
    · exact hd.free

/-- The task of an overloaded queue that is not held back ends its overload, by induction on its
packets. -/
lemma Draining.exec (n : ℕ) : ∀ {w : Pipeline} {q : Queue}, w.Draining m q → Inv w →
    w.graph.Marked → q.ring.length ≤ n →
    ∃ i ≤ n, ∃ w', Machine.exec Pipeline.step w (List.replicate i (Op.runTask m)) = some w' ∧
      (w'.graph.mods m).overload = false ∧
      ∀ k ≠ m, (w'.graph.mods k).overload = (w.graph.mods k).overload := by
  induction n with
  | zero =>
      intro w q hd _ hmarked hlen
      have hring := ((hmarked m hd.mem).1 q hd.queue).ring hd.overload
      exact absurd (List.length_pos_iff.mpr hring) (by omega)
  | succ n ih =>
      intro w q hd h hmarked hlen
      obtain ⟨w₁, hstep, hothers, hcases⟩ := hd.runTask h hmarked
      rcases hcases with hover₁ | hd₁
      · refine ⟨1, by omega, w₁, ?_, hover₁, hothers⟩
        rw [List.replicate_one, Machine.exec, hstep]
        rfl
      · have hop : w.Admits (.runTask m) :=
          ⟨hd.mem, hd.running, Option.isSome_iff_exists.mpr ⟨q, hd.queue⟩⟩
        have hburst := hd.burst
        have hlen₁ := Queue.dequeue_length (q := q)
        obtain ⟨i, hi, w', hexec, hover', hothers'⟩ :=
          ih hd₁ (h.next hop hstep) (h.step_marked hmarked hop trivial hstep) (by omega)
        refine ⟨i + 1, by omega, w', ?_, hover', fun k hk => (hothers' k hk).trans (hothers k hk)⟩
        rw [List.replicate_succ, Machine.exec, hstep]
        exact hexec

end Pipeline

/-! ### A queue above its high mark -/

namespace Pipeline

open ModuleGraph

variable {w w' : Pipeline} {t m : ℕ}

lemma SteadyReach.next (h : SteadyReach w) (op : Op) (hstep : w.step op = some w')
    (hop : w.Admits op) (hcalm : w.Calm op) (hsteady : w.Steady op) : SteadyReach w' :=
  Machine.Reach.step h ⟨⟨hop, hcalm⟩, hsteady⟩ hstep

/-- A task and a queue of sixteen slots below it, with fifteen packets. -/
lemma exists_overloaded : ∃ w, SteadyReach w ∧ w.running = true ∧ w.graph.changesMade = false ∧
    w.graph.all = [1, 0] ∧ w.graph.next 0 = [1] ∧ w.graph.next 1 = [] ∧
    (w.graph.mods 0).childrenOverload = 1 ∧ (w.graph.mods 1).overload = true ∧
    (w.graph.mods 1).parentTasks = [0] ∧ (w.graph.mods 0).queue = none ∧
    ∀ q, (w.graph.mods 1).queue = some q → 0 < q.burst := by
  have h₀ : SteadyReach init := .start rfl
  have h₁ := h₀.next (.create true 0 1) rfl trivial trivial trivial
  have h₂ := h₁.next (.createQueue 16 true) rfl trivial trivial trivial
  have h₃ := h₂.next (.connect 0 0 1 0) rfl ⟨by decide, by decide⟩ trivial trivial
  have hcalm : ∀ m ∈ [1, 0], (fun m : ℕ => m = 1 ∨ m = 0) m := by decide
  have h₄ := h₃.next .resume rfl trivial
    (fun _ m hm => by rcases hcalm m hm with rfl | rfl <;> rfl) trivial
  have h₅ := h₄.next (.processBatch 1 (List.replicate 15 ⟨0, 64, 1, 2⟩)) rfl
    ⟨by decide, rfl, rfl⟩ trivial trivial
  refine ⟨_, h₅, rfl, rfl, rfl, rfl, rfl, rfl, rfl, rfl, rfl, fun q hq => ?_⟩
  rw [← Option.some.inj hq]
  decide

/-- The queue is destroyed, and the task stays held back. -/
theorem destroy_holds_back_overloaded : ∃ w, Reach w ∧ w.graph.all = [0] ∧
    0 < (w.graph.mods 0).childrenOverload := by
  obtain ⟨w, h, _, _, hall, _, _, _, hover, hparents, _⟩ := exists_overloaded
  have hok : w.Admits .pause ∧ w.Calm .pause := ⟨trivial, trivial⟩
  have hpause : CalmReach init { w with running := false } := .step h.calm hok rfl
  have hop : Admits { w with running := false } (.destroy 1) := ⟨hall ▸ by decide, rfl⟩
  have hheld := destroy_holds_back hpause hop hover (hparents ▸ List.mem_singleton_self 0)
    (.start rfl) ⟨[], 16, true, 32, 14, 2, 0, 0, 0⟩
  refine ⟨_, hpause.reach.next (.destroy 1) rfl hop, ?_, hheld.1⟩
  change w.graph.all.erase 1 = [0]
  rw [hall]
  rfl

end Pipeline

end Bess
