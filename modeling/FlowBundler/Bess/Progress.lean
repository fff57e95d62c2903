import FlowBundler.Bess.Task
import FlowBundler.Bess.Service

/-!
Progress of `FlowBundler::RunTask` while packets are due.

* `generated_eq_none_iff`: a task returns before its `Dequeue` when there are tokens and the
  packet pool cannot supply a batch.
* `runTask_progress_iff`: with a due packet, a task takes a packet out exactly when it does
  not return there.
* `runTask_stuck`: a task that does return there, although a packet is due.

The held packets are due for the reading of the clock that `Dequeue` makes in this task, and not for
an earlier one: packets that come due between two tasks count.  A task that gets to its `Dequeue`
has added packets to the calendar before, so that a packet that was held is held still, and a call
on a calendar with a due packet takes one (`dequeue_leaves_no_due` of `Bess.Service`).
-/

namespace Bess

open Ledger FlowBundler Machine

namespace Session

variable {cfg : TaskConfig} {s s' : Session} {env : TaskEnv}

/-- `AllocPackets` is not called, or gets its packets. -/
lemma generated_eq_none_iff :
    s.generated env = none ↔ s.world.fb.flowToGen.isEmpty = false ∧ env.bulk = none := by
  rw [generated]
  dsimp only
  by_cases hempty : s.world.fb.flowToGen.isEmpty = true
  · rw [if_pos hempty]
    simp [hempty]
  · rw [if_neg hempty]
    cases hbulk : env.bulk with
    | none => simpa [PacketGenerator.allocPackets] using hempty
    | some pkts => simp [PacketGenerator.allocPackets]

end Session

/-- A `Dequeue` with a due packet takes a packet out. -/
lemma dequeue_takes {cfg : Config} {w : World} {now : ℕ} (garbage : ℕ) (hinv : w.Inv cfg)
    (htimed : Timed cfg w.fb w.held) (hburst : 1 ≤ cfg.dequeueBurst) (hnow : now < 2 ^ 62)
    (hdue : ∃ e ∈ w.held, e.deadline cfg ≤ now) :
    ∃ r w', w.fb.dequeue cfg now garbage = some r ∧
      w.step cfg (.dequeue now garbage) = some w' ∧ w.sent.length < w'.sent.length := by
  obtain ⟨e, he, hdue⟩ := hdue
  obtain ⟨r, hrun, hout⟩ := dequeue_outcome hinv.repr htimed hinv.qid_le hburst hnow garbage
  refine ⟨r, _, hrun, by rw [World.step, hrun, Option.map_some], ?_⟩
  dsimp only
  rw [List.length_append, List.length_map]
  cases hout with
  | empty hnil htaken => simp [hnil] at he
  | hit i hle hahead hfront htaken hhead hdrain =>
      rw [htaken, takenFrom_front hinv.repr]
      have := List.length_pos_of_ne_nil hfront
      omega
  | miss i hpast hahead htaken hhead hqid =>
      have hkey := hahead e he
      have hle := scanStart_le_firstKey cfg w.fb
      omega

/-- **Progress**: when a held packet is due at the reading of the clock for the `Dequeue` of a task,
the task takes a packet out of the calendar exactly when there are no tokens or the pool supplies
the packets to generate. -/
theorem runTask_progress_iff {cfg : TaskConfig} {s : Session} {env : TaskEnv}
    (hcfg : cfg.ShiftsOk) (hburst : 1 ≤ cfg.dequeueBurst)
    (hs : Session.Reach cfg (Session.Admits cfg) s) (hok : s.TaskAdmits cfg.toConfig env)
    (hidle : env.childrenOverload = 0)
    (hdue : ∃ e ∈ s.world.held, e.deadline cfg.toConfig ≤ env.dequeueNow) :
    (∃ s' r, s.runTask cfg.toConfig env = some (s', r) ∧
        s.world.sent.length < s'.world.sent.length) ↔
      (s.world.fb.flowToGen.isEmpty = true ∨ env.bulk.isSome = true) := by
  have hinv := reach_session hcfg hburst hs
  have hnot : ¬ 0 < env.childrenOverload := by omega
  have hblock : s.generated env = none ↔
      ¬ (s.world.fb.flowToGen.isEmpty = true ∨ env.bulk.isSome = true) := by
    rw [Session.generated_eq_none_iff]
    simp
  constructor
  · rintro ⟨s', r, hrun, hlt⟩
    by_contra hc
    rw [Session.runTask, if_neg hnot, hblock.mpr hc] at hrun
    obtain ⟨rfl, -⟩ : s = s' ∧ _ := by simpa using hrun
    exact absurd hlt (lt_irrefl _)
  · intro hgo
    cases hgen : s.generated env with
    | none => exact absurd hgo (hblock.mp hgen)
    | some p =>
        obtain ⟨w, rounds⟩ := p
        obtain ⟨-, -, -, -, pkts, hrounds⟩ := hinv.generated hgen
        obtain ⟨w₁, hexec⟩ := exec_rounds_isSome cfg.toConfig env pkts w
        rw [← hrounds] at hexec
        obtain ⟨hgrown, hadm, htick⟩ := Session.Grown.rounds hcfg hinv hgen hok hexec
        obtain ⟨e, he, hle⟩ := hdue
        obtain ⟨d, w₂, hd, hstep, hlt⟩ := dequeue_takes env.garbage hgrown.inv
          hgrown.timed hburst hadm ⟨e, hgrown.held e he, hle⟩
        refine ⟨{ s with world := w₂ }, { block := d.cnt == 0, packets := d.cnt }, ?_, ?_⟩
        · rw [Session.runTask, if_neg hnot, hgen]
          dsimp only
          rw [hexec, Option.bind_some, Session.serve, hd, Option.bind_some, hstep,
            Option.map_some]
        · rw [← hgrown.sent]
          exact hlt

/-! ### Concrete sessions -/

/-- A pool of two nodes, two tokens, one packet generated and one taken out in a task; the
template is an Ethernet header and an IPv4 header of 20 bytes. -/
def sampleTask : TaskConfig :=
  { sampleConfig with
    dequeueBurst := 1, mempoolSize := 2, generateBurst := 1
    templates := List.replicate 14 0 ++ 0x45 :: List.replicate 27 0
    burst_le := by decide }

/-- Flows of the given rates, each with its own destination. -/
def argOf (rates : List ℕ) : AddArg :=
  { flows := rates, flowNum := 0, totalRate := 0, flowsPerDst := 1 }

/-- An `AddFlow` at clock `0`. -/
def addEnv : AddEnv :=
  { stamp := fun _ => 0, sums := { udp := fun _ => 0, ip := fun _ => 0 }
    pkt := some fun _ => 0, randDst := fun _ => 9 }

/-- The session at clock `0` after an `AddFlow` of flows of the given rates. -/
def sessionAt (cfg : TaskConfig) (rates : List ℕ) : Session :=
  Session.addFlow cfg
    { world := .start cfg.toConfig 0 7 (startAt cfg.toConfig 0).fb.nodes (fun _ => 0)
        (Session.flowToGenInit fun _ => 0) fun _ => { lastStamp := 0, rate := 0 }
      pktgen := { generateBurst := 0, generatePktSize := 0
                  templates := fun _ => { size := 0, bytes := fun _ => 0 } } }
    (argOf rates) addEnv

lemma afterAddFlow_sessionAt (cfg : TaskConfig) (rates : List ℕ) :
    Session.AfterAddFlow cfg (argOf rates) addEnv (sessionAt cfg rates) :=
  ⟨0, 7, _, _, _, _, _, rfl⟩

/-- A task at one reading of the clock, with or without packets in the pool. -/
def taskAt (now : ℕ) (supplied : Bool) : TaskEnv :=
  { childrenOverload := 0, bulk := if supplied then some fun i => (now + i, fun _ => 0) else none
    now := fun _ => now, get := fun _ => (20000000, 0), dequeueNow := now, garbage := 77 }

section Concrete

variable (cfg : TaskConfig) (rates : List ℕ) (ok : Session → TaskOp → Prop)
  [∀ s op, Decidable (ok s op)] (ops : List TaskOp) (p : Session → Prop) [DecidablePred p]

/-- A concrete run after one `AddFlow` reaches its end. -/
lemma exists_afterAddFlow
    (h : (Machine.run (Session.step cfg) ok (sessionAt cfg rates) ops).any (fun s => p s) = true) :
    ∃ s, Machine.Reach (Session.step cfg) (Session.AfterAddFlow cfg (argOf rates) addEnv) ok s ∧
      p s :=
  Machine.exists_reach (afterAddFlow_sessionAt cfg rates) ops p h

lemma exists_session
    (h : (Machine.run (Session.step cfg) ok (sessionAt cfg rates) ops).any (fun s => p s) = true) :
    ∃ s, Session.Reach cfg ok s ∧ p s :=
  Machine.exists_reach ⟨_, _, afterAddFlow_sessionAt cfg rates⟩ ops p h

end Concrete

lemma sampleTask_shiftsOk : sampleTask.ShiftsOk := Config.shiftsOk_of_lt (by decide)

/-- With a packet due at `1024` and a token, a task at `1024` that gets a packet takes one out. -/
theorem runTask_progress_iff_run :
    ∃ s : Session, Session.Reach sampleTask (Session.Admits sampleTask) s ∧
      s.world.fb.flowToGen.isEmpty = false ∧
      ∃ s' r, s.runTask sampleTask.toConfig (taskAt 1024 true) = some (s', r) ∧
        s.world.sent.length < s'.world.sent.length := by
  obtain ⟨s, hs, htoken, hok, hdue⟩ := exists_session sampleTask [100000000]
    (Session.Admits sampleTask) [.runTask (taskAt 0 true), .runTask (taskAt 1024 true)]
    (fun s => s.world.fb.flowToGen.isEmpty = false ∧
      s.TaskAdmits sampleTask.toConfig (taskAt 1024 true) ∧
      ∃ e ∈ s.world.held, e.deadline sampleTask.toConfig ≤ (taskAt 1024 true).dequeueNow)
    (by decide +kernel)
  exact ⟨s, hs, htoken, (runTask_progress_iff sampleTask_shiftsOk (by decide) hs hok rfl hdue).mpr
    (.inr rfl)⟩

/-- With a packet due at `1024` and a token, a task at `1024` that gets no packet from the pool
returns at once. -/
theorem runTask_stuck :
    ¬ ∀ (cfg : TaskConfig) (s : Session) (env : TaskEnv), cfg.ShiftsOk → 1 ≤ cfg.dequeueBurst →
      Session.Reach cfg (Session.Admits cfg) s → s.TaskAdmits cfg.toConfig env →
      env.childrenOverload = 0 →
      (∃ e ∈ s.world.held, e.deadline cfg.toConfig ≤ env.dequeueNow) →
      ∃ s' r, s.runTask cfg.toConfig env = some (s', r) ∧
        s.world.sent.length < s'.world.sent.length := by
  intro hall
  obtain ⟨s, hs, hok, hdue, hsame⟩ := exists_session sampleTask [100000000]
    (Session.Admits sampleTask) [.runTask (taskAt 0 true), .runTask (taskAt 1024 true)]
    (fun s => s.TaskAdmits sampleTask.toConfig (taskAt 1024 false) ∧
      (∃ e ∈ s.world.held, e.deadline sampleTask.toConfig ≤ (taskAt 1024 false).dequeueNow) ∧
      (s.runTask sampleTask.toConfig (taskAt 1024 false)).all
        (fun p => p.1.world.sent.length = s.world.sent.length) = true)
    (by decide +kernel)
  obtain ⟨s', r, hrun, hlt⟩ := hall sampleTask s (taskAt 1024 false) sampleTask_shiftsOk (by decide)
    hs hok rfl hdue
  rw [hrun, Option.all_some, decide_eq_true_eq] at hsame
  dsimp only at hsame
  omega

end Bess
