import FlowBundler.Core.ActiveWorkers

/-!
The sockets that a whole pipeline allows (`GetSocketConstraints`, `CheckSchedulingConstraints`).

* `computePlacementConstraints`: the constraints of a module and of the modules behind it.  The
  function returns an `int`, so the 64-bit constraints are truncated and extended by their sign at
  every return.
* `Behind w leaf m`: the gates lead from the module of the leaf's task to the module `m`, through
  queues too.
* `visit_allows`: the recursion follows the depth-first search of the library, by induction on the
  fuel and inside it on the gates.  What a search allows is told from both sides (`Allows`): at most
  the sockets that all modules found by it allow, and at least those that all modules behind its
  start allow.  The two agree at the end, although a module that was found before contributes only
  its own constraints to a second search.
* `reach_violation`: a leaf is reported exactly when a module behind its task does not allow the
  socket of its worker.  With a socket below 32 the truncation does not matter (`nodeBits_socket`).
-/

namespace Bess

namespace WorkerGraph

open Explore

variable (w : WorkerGraph)

/-- `MAX_NUMA_NODE`. -/
def maxNumaNode : ℕ := 16

/-- `UNCONSTRAINED_SOCKET`. -/
def unconstrainedSocket : BitVec 64 := (1#64 <<< maxNumaNode) - 1#64

/-- `node_constraints_`, as an `int`. -/
def nodeBits (m : ℕ) : BitVec 32 := BitVec.ofNat 32 (w.rules m).nodeConstraints

/-- `ComputePlacementConstraints`. -/
def computePlacementConstraints : ℕ → List ℕ → ℕ → Option (List ℕ × BitVec 64)
  | 0, _, _ => none
  | fuel + 1, visited, m =>
      if m ∈ visited then some (visited, (w.nodeBits m).signExtend 64)
      else ((w.graph.next m).foldlM (fun st d =>
          (computePlacementConstraints fuel st.1 d).map fun r => (r.1, st.2 &&& r.2.truncate 32))
        (m :: visited, w.nodeBits m)).map fun st => (st.1, st.2.signExtend 64)

/-- `GetSocketConstraints`. -/
def getSocketConstraints (leaf : TaskLeaf) : Option (BitVec 64) :=
  match leaf.module with
  | none => some unconstrainedSocket
  | some m => (w.computePlacementConstraints (w.graph.num + 1) [] m).map Prod.snd

/-- `CheckSchedulingConstraints`: the leaf is reported for the worker. -/
def violation (wid : ℕ) (leaf : TaskLeaf) : Option Bool :=
  (w.getSocketConstraints leaf).map fun constraints =>
    constraints.truncate 32 &&& (1#64 <<< w.socket wid).truncate 32 == 0#32

/-- The gates lead from the module of the leaf's task to the module `m`. -/
def Behind (leaf : TaskLeaf) (m : ℕ) : Prop :=
  ∃ c, leaf.module = some c ∧ Reaches w.graph.next (fun _ => false) c m

variable {w : WorkerGraph} {wid m c : ℕ} {leaf : TaskLeaf}

lemma truncate_signExtend (x : BitVec 32) : (x.signExtend 64).truncate 32 = x := by
  refine BitVec.eq_of_getLsbD_eq fun i hi => ?_
  rw [BitVec.truncate_eq_setWidth, BitVec.getLsbD_setWidth, BitVec.getLsbD_signExtend, if_pos hi,
    decide_eq_true hi, decide_eq_true (by omega : i < 64), Bool.true_and, Bool.true_and]

/-- What a search adds to the visited modules, and the sockets that its result allows: at most those
that all of them allow, and at least those that all modules behind `src` do. -/
structure Allows (w : WorkerGraph) (src seen seen' : List ℕ) (c₀ c₁ : BitVec 32) : Prop where
  sub : ∀ x ∈ seen', x ∉ seen → ∀ b, c₁.getLsbD b = true → (w.nodeBits x).getLsbD b = true
  old : ∀ b, c₁.getLsbD b = true → c₀.getLsbD b = true
  all : ∀ b, c₀.getLsbD b = true →
    (∀ d ∈ src, ∀ x, Reaches w.graph.next (fun _ => false) d x →
      (w.nodeBits x).getLsbD b = true) → c₁.getLsbD b = true

/-- One search after another. -/
lemma Allows.trans {src src' seen seen' seen'' : List ℕ} {c₀ c₁ c₂ : BitVec 32}
    (h : Allows w src seen seen' c₀ c₁) (h' : Allows w src' seen' seen'' c₁ c₂) :
    Allows w (src ++ src') seen seen'' c₀ c₂ where
  sub x hx hseen b hb := by
    by_cases hx' : x ∈ seen'
    · exact h.sub x hx' hseen b (h'.old b hb)
    · exact h'.sub x hx hx' b hb
  old b hb := h.old b (h'.old b hb)
  all b hb hall := h'.all b
    (h.all b hb fun d hd => hall d (List.mem_append_left _ hd))
    fun d hd => hall d (List.mem_append_right _ hd)

/-- The result for one gate. -/
lemma Allows.and {d : ℕ} {seen seen' : List ℕ} {r : BitVec 32}
    (h : Allows w [d] seen seen' (w.nodeBits d) r) (c₀ : BitVec 32) :
    Allows w [d] seen seen' c₀ (c₀ &&& r) where
  sub x hx hseen b hb := by
    rw [BitVec.getLsbD_and, Bool.and_eq_true] at hb
    exact h.sub x hx hseen b hb.2
  old b hb := by
    rw [BitVec.getLsbD_and, Bool.and_eq_true] at hb
    exact hb.1
  all b hb hall := by
    rw [BitVec.getLsbD_and, Bool.and_eq_true]
    exact ⟨hb, h.all b (hall d (List.mem_singleton_self d) d .refl) hall⟩

/-- The recursion follows the search, by induction on the fuel. -/
lemma visit_allows (fuel : ℕ) : ∀ {seen : List ℕ} {c : ℕ} {st : List ℕ × Unit},
    (if c ∈ seen then some (seen, ())
      else visit w.graph.next (fun _ => false) (fun _ _ => ()) fuel (seen, ()) c) = some st →
    ∃ r : BitVec 32, w.computePlacementConstraints (fuel + 1) seen c
        = some (st.1, r.signExtend 64) ∧ Allows w [c] seen st.1 (w.nodeBits c) r := by
  have hvisited : ∀ {fuel : ℕ} {seen : List ℕ} {c : ℕ} {st : List ℕ × Unit}, c ∈ seen →
      some (seen, ()) = some st → ∃ r : BitVec 32,
        w.computePlacementConstraints (fuel + 1) seen c = some (st.1, r.signExtend 64) ∧
          Allows w [c] seen st.1 (w.nodeBits c) r := by
    intro fuel seen c st hc hrun
    cases hrun
    exact ⟨w.nodeBits c, if_pos hc, fun x hx hx' => absurd hx hx', fun b hb => hb,
      fun b hb _ => hb⟩
  induction fuel with
  | zero =>
      intro seen c st hrun
      by_cases hc : c ∈ seen
      · rw [if_pos hc] at hrun
        exact hvisited hc hrun
      · rw [if_neg hc] at hrun
        cases hrun
  | succ fuel ih =>
      intro seen c st hrun
      by_cases hc : c ∈ seen
      · rw [if_pos hc] at hrun
        exact hvisited hc hrun
      · rw [if_neg hc, visit, if_neg (by decide)] at hrun
        -- the loop over the gates, by induction on them
        have hloop : ∀ (ds : List ℕ) {seen : List ℕ} {c₀ : BitVec 32},
            ds.foldlM (fun st d => if d ∈ st.1 then some st
              else visit w.graph.next (fun _ => false) (fun _ _ => ()) fuel st d) (seen, ())
              = some st →
            ∃ c₁, ds.foldlM (fun st d => (w.computePlacementConstraints (fuel + 1) st.1 d).map
                fun r => (r.1, st.2 &&& r.2.truncate 32)) (seen, c₀) = some (st.1, c₁) ∧
              Allows w ds seen st.1 c₀ c₁ := by
          intro ds
          induction ds with
          | nil =>
              intro seen c₀ hrun
              cases hrun
              exact ⟨c₀, rfl, fun x hx hx' => absurd hx hx', fun b hb => hb, fun b hb _ => hb⟩
          | cons d ds ihd =>
              intro seen c₀ hrun
              rw [List.foldlM_cons] at hrun
              obtain ⟨st', hd, hrest⟩ := Option.bind_eq_some_iff.mp hrun
              obtain ⟨r, hr, hallows⟩ := ih hd
              obtain ⟨c₁, hc₁, hallows'⟩ := ihd hrest
              refine ⟨c₁, ?_, (hallows.and c₀).trans hallows'⟩
              rw [List.foldlM_cons, hr, Option.map_some, Option.bind_eq_bind, Option.bind_some]
              dsimp only
              rw [truncate_signExtend]
              exact hc₁
        obtain ⟨c₁, hc₁, hallows⟩ := hloop (w.graph.next c) hrun
        refine ⟨c₁, ?_, fun x hx hseen b hb => ?_, hallows.old, fun b hb hall => ?_⟩
        · rw [computePlacementConstraints, if_neg hc, hc₁]
          rfl
        · by_cases hxc : x = c
          · exact hxc ▸ hallows.old b hb
          · refine hallows.sub x hx (fun h => ?_) b hb
            rcases List.mem_cons.mp h with h | h
            · exact hxc h
            · exact hseen h
        · exact hallows.all b hb fun d hd x hreach =>
            hall c (List.mem_singleton_self c) x (hreach.head rfl hd)

lemma getSocketConstraints_spec (hwf : w.graph.Wf) (hc : leaf.module = some c)
    (hmem : c ∈ w.graph.all) : ∃ r : BitVec 32,
    w.getSocketConstraints leaf = some (r.signExtend 64) ∧
      ∀ b, r.getLsbD b = true ↔ ∀ m, w.Behind leaf m → (w.nodeBits m).getLsbD b = true := by
  obtain ⟨new, hrun, _, hreached⟩ : ∃ new,
      visit w.graph.next (fun _ => false) (fun _ _ => ()) w.graph.num ([], ()) c
        = some (new, effects (fun _ _ => ()) () new) ∧
      new.Nodup ∧ ∀ m, m ∈ new ↔ Reaches w.graph.next (fun _ => false) c m :=
    visit_reaches (U := w.graph.all.toFinset)
      (fun c _ d hd => List.mem_toFinset.mpr (hwf.next_mem c d hd))
      (List.mem_toFinset.mpr hmem) hwf.card_le ()
  obtain ⟨r, hr, hallows⟩ := visit_allows (w := w) w.graph.num
    ((if_neg (List.not_mem_nil (a := c))).trans hrun)
  refine ⟨r, ?_, fun b => ⟨fun hb m hm => ?_, fun hall => ?_⟩⟩
  · rw [getSocketConstraints, hc]
    dsimp only
    rw [hr]
    rfl
  · obtain ⟨c', hc', hreach⟩ := hm
    rw [hc] at hc'
    cases hc'
    exact hallows.sub m ((hreached m).mpr hreach) List.not_mem_nil b hb
  · refine hallows.all b (hall c ⟨c, hc, .refl⟩) fun d hd x hreach => ?_
    exact hall x ⟨c, hc, List.mem_singleton.mp hd ▸ hreach⟩

lemma nodeBits_socket (hsocket : w.socket wid < 32) (m : ℕ) :
    (w.nodeBits m).getLsbD (w.socket wid) = w.onSocket wid m := by
  rw [nodeBits, onSocket, BitVec.getLsbD_ofNat, decide_eq_true hsocket, Bool.true_and]

/-- A mask of one bit. -/
lemma and_mask_eq_zero_iff {x : BitVec 32} {b : ℕ} (hb : b < 32) :
    (x &&& (1#64 <<< b).truncate 32 == 0#32) = true ↔ x.getLsbD b = false := by
  have hmask : ∀ i < 32, ((1#64 <<< b).truncate 32 : BitVec 32).getLsbD i = decide (i = b) := by
    intro i hi
    rw [BitVec.truncate_eq_setWidth, BitVec.getLsbD_setWidth, BitVec.getLsbD_shiftLeft,
      BitVec.getLsbD_one]
    by_cases hib : i = b
    · simp [hib, hb]
      omega
    · simp [hib]
      omega
  rw [beq_iff_eq]
  constructor
  · intro h
    have hbit := congrArg (fun y : BitVec 32 => y.getLsbD b) h
    rw [BitVec.getLsbD_and, hmask b hb] at hbit
    simpa using hbit
  · intro h
    refine BitVec.eq_of_getLsbD_eq fun i hi => ?_
    rw [BitVec.getLsbD_and, hmask i hi]
    by_cases hib : i = b
    · rw [hib, h]
      simp
    · simp [hib]

lemma violation_spec (hwf : w.graph.Wf) (hsocket : w.socket wid < 32) (hc : leaf.module = some c)
    (hmem : c ∈ w.graph.all) : ∃ v, w.violation wid leaf = some v ∧
      (v = true ↔ ∃ m, w.Behind leaf m ∧ w.onSocket wid m = false) := by
  obtain ⟨r, hr, hbits⟩ := getSocketConstraints_spec hwf hc hmem
  refine ⟨_, by rw [violation, hr]; rfl, ?_⟩
  dsimp only
  rw [truncate_signExtend, and_mask_eq_zero_iff hsocket, Bool.eq_false_iff, ne_eq, hbits]
  push Not
  refine exists_congr fun m => and_congr_right fun _ => ?_
  rw [nodeBits_socket hsocket, Bool.eq_false_iff]

/-- What a task runs is behind its module. -/
lemma Runs.behind (h : w.Runs wid leaf m) : w.Behind leaf m := by
  obtain ⟨c, hc, hreach⟩ := h
  refine ⟨c, hc, ?_⟩
  induction hreach with
  | refl => exact .refl
  | step _ hgo hd ih => exact ih.step hgo (goesOn_mem hd)

/-- **The sockets of a pipeline**: in every pipeline that any commands reach, a leaf is reported for
a worker exactly when some module behind its task does not allow the worker's socket; when no leaf
below a worker's root is reported, no module is run on a wrong socket. -/
theorem reach_violation {p : Pipeline} (hreach : Pipeline.Reach p) (hgraph : w.graph = p.graph)
    (h : w.Wf) (hsocket : ∀ i, w.socket i < 32) :
    (∀ i, ∀ leaf ∈ w.leaves, leaf.module ≠ none → ∃ v, w.violation i leaf = some v ∧
      (v = true ↔ ∃ m, w.Behind leaf m ∧ w.onSocket i m = false)) ∧
    ((∀ i < kMaxWorkers, ∀ leaf ∈ w.leavesOf i, w.violation i leaf = some false) →
      ∀ s, w.propagateActiveWorker = some s → ∀ m,
        w.checkModuleConstraints s m ≠ .nonfatalError) := by
  have hwf : w.graph.Wf := hgraph ▸ (Pipeline.reach_inv hreach).wf
  refine ⟨fun i leaf hleaf hmod => ?_, fun hnone s hs m hcheck => ?_⟩
  · obtain ⟨c, hc⟩ := Option.ne_none_iff_exists'.mp hmod
    exact violation_spec hwf (hsocket i) hc (h.modules leaf hleaf c hc)
  · obtain ⟨hactive, _⟩ := (propagateActiveWorker_spec hwf h).2 s hs m
    obtain ⟨hfatal, hok⟩ := checkModuleConstraints_iff hactive
    have hmax : ({i | w.Works i m}.ncard : ℤ) ≤ (w.rules m).maxAllowedWorkers :=
      not_lt.mp fun hlt => by
        rw [hfatal.mpr hlt] at hcheck
        cases hcheck
    have hsockets : ∀ i, w.Works i m → w.onSocket i m = true := by
      rintro i ⟨hi, leaf, hleaf, hruns⟩
      obtain ⟨c, hc, _⟩ := id hruns
      obtain ⟨v, hv, hiff⟩ := violation_spec hwf (hsocket i) hc
        (h.modules leaf (mem_leavesOf.mp hleaf).1 c hc)
      rw [hnone i hi leaf hleaf] at hv
      cases hv
      by_contra hoff
      exact Bool.false_ne_true (hiff.mpr ⟨m, hruns.behind, Bool.eq_false_of_not_eq_true hoff⟩)
    rw [hok.mpr ⟨hmax, hsockets⟩] at hcheck
    cases hcheck

/-- In the pipeline with a `WorkerSplit` a worker on the first socket is not reported, and one on
the second is. -/
theorem reach_violation_split : ∃ p, Pipeline.Reach p ∧
    (∀ s, (split p.graph 0).propagateActiveWorker = some s →
      ∀ m, (split p.graph 0).checkModuleConstraints s m ≠ .nonfatalError) ∧
    ({ split p.graph 0 with socket := fun _ => 1 } : WorkerGraph).violation 0
      { root := 0, task := 0, module := some 0 } = some true := by
  obtain ⟨p, hreach, hall, _⟩ := exists_split
  refine ⟨p, hreach, ?_, ?_⟩
  · obtain ⟨hviolation, hcheck⟩ := reach_violation (w := split p.graph 0) hreach rfl
      (split_wf hall 0) (fun _ => (by decide : 0 < 32))
    refine hcheck fun i _ leaf hleaf => ?_
    have hmem := (mem_leavesOf.mp hleaf).1
    obtain ⟨v, hv, hiff⟩ := hviolation i leaf hmem (by rw [List.mem_singleton.mp hmem]; nofun)
    have hfalse : v = false := by
      refine Bool.eq_false_of_not_eq_true fun h => ?_
      obtain ⟨m, _, hoff⟩ := hiff.mp h
      exact absurd hoff (by decide : (1 : ℕ).testBit 0 ≠ false)
    rw [hv, hfalse]
  · have hwf := split_wf hall 0
    obtain ⟨v, hv, hiff⟩ := (reach_violation
      (w := { split p.graph 0 with socket := fun _ => 1 }) hreach rfl
      ⟨hwf.tasks, hwf.roots, hwf.modules⟩ (fun _ => (by decide : 1 < 32))).1 0
      { root := 0, task := 0, module := some 0 } (List.mem_singleton_self _) nofun
    rw [hv, hiff.mpr ⟨0, ⟨0, rfl, .refl⟩, (by decide : (1 : ℕ).testBit 1 = false)⟩]

end WorkerGraph

end Bess
