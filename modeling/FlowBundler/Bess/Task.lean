import FlowBundler.Bess.Generator
import FlowBundler.Bess.Scan

/-!
`FlowBundler::AddFlow` and `FlowBundler::RunTask`: the module as a task that generates
packets for the flows in `flow_to_gen`, enqueues them and serves the calendar.

* `TaskConfig`: what `Init` keeps for the generator; `AddArg`, `FlowBundler.addFlow`: the
  command that sets up flows, tokens and templates.
* `Session`: a world with its generator; `Session.runTask`: one call, given what the
  environment answers (`TaskEnv`).
* `Session.Admits`: the rounds and the `Dequeue` of a task read a clock that does not go back
  and times below `2^62`; `Session.Reach`: the sessions reached by commands and tasks.
* `Session.Inv`, `reach_session`: the invariants of the calendar in every session.

What the port does with a batch, the statistics and the bits reported do not touch the state.

A task moves tokens, changes byte counts and flows, and makes rounds of `Enqueue` and one `Dequeue`
on the calendar.  The invariants of the calendar do not look at tokens, counts and flows
(`congr_flows`), so they hold of every session by the step lemmas of the calendar; a session that
has seen commands only holds nothing, and has them from the start.
-/

namespace Bess

open Ledger FlowBundler Machine

/-! ### The command -/

/-- The configuration with what the generator needs; `Init` refuses a larger burst. -/
structure TaskConfig extends Config where
  generateBurst : ℕ
  templates : List UInt8
  burst_le : generateBurst ≤ kMaxBurst

/-- The argument of `add_flow`: the rates of the flows, or their number and total rate. -/
structure AddArg where
  flows : List ℕ
  flowNum : ℕ
  totalRate : ℕ
  flowsPerDst : ℕ

def AddArg.num (arg : AddArg) : ℕ := if arg.flows.length > 0 then arg.flows.length else arg.flowNum

/-- The rate of a flow, a 32-bit number. -/
def AddArg.rate (arg : AddArg) (i : ℕ) : ℕ :=
  (if arg.flows.length > 0 then arg.flows.getD i 0 else arg.totalRate / arg.num) % 2 ^ 32

/-- The number of tokens of a flow. -/
def Config.tokens (cfg : Config) : ℕ := cfg.maxBytesPerFlow / 1500

/-- The tokens of all flows, in the order in which `AddFlow` pushes them. -/
def tokenList (num tokens : ℕ) : List ℕ := (List.replicate tokens (List.range num)).flatten

/-- `AddFlow` on the module; `stamp` are its readings of the clock. -/
def FlowBundler.addFlow (cfg : Config) (fb : FlowBundler) (arg : AddArg) (stamp : ℕ → ℕ) :
    FlowBundler :=
  { fb with
    flowInfo := fun i => if i < arg.num then { lastStamp := stamp i, rate := arg.rate i }
      else fb.flowInfo i
    pktsNum := fun i => if i < arg.num then 0 else fb.pktsNum i
    flowToGen := (tokenList arg.num cfg.tokens).foldl (fun q j => (q.push j).2)
      fb.flowToGen.reset }

/-- What the environment answers to `AddFlow`. -/
structure AddEnv where
  stamp : ℕ → ℕ
  sums : Checksums
  /-- The packet that the constructor of the generator allocates, if it gets one. -/
  pkt : Option Buffer
  randDst : ℕ → ℕ

/-! ### The task -/

/-- A module and its generator. -/
structure Session where
  world : World
  pktgen : PacketGenerator

/-- What the environment answers to a task. -/
structure TaskEnv where
  childrenOverload : ℕ
  /-- The answer of `AllocBulk`. -/
  bulk : Option (ℕ → ℕ × Buffer)
  /-- The clock reading of a round of `Enqueue`. -/
  now : ℕ → ℕ
  /-- The answer of `aggregation_rates.Get` in a round. -/
  get : ℕ → ℕ × ℕ
  dequeueNow : ℕ
  garbage : ℕ

structure TaskResult where
  block : Bool
  packets : ℕ
  deriving DecidableEq

/-- The command or the task. -/
inductive TaskOp where
  | addFlow (arg : AddArg) (env : AddEnv)
  | runTask (env : TaskEnv)

def TaskOp.isTask : TaskOp → Bool
  | .addFlow _ _ => false
  | .runTask _ => true

/-- The rounds of `Enqueue` on a batch. -/
def TaskEnv.rounds (env : TaskEnv) (pkts : List Packet) : List Op :=
  pkts.zipIdx.map fun p => .enqueue (env.now p.2) p.1 (env.get p.2).1 (env.get p.2).2

/-- The world with other tokens. -/
def World.setFlowToGen (w : World) (q : CircularQueue) : World :=
  { w with fb := { w.fb with flowToGen := q } }

namespace Session

def addFlow (cfg : TaskConfig) (s : Session) (arg : AddArg) (env : AddEnv) : Session :=
  { world := { s.world with fb := s.world.fb.addFlow cfg.toConfig arg env.stamp }
    pktgen := .new env.sums cfg.generateBurst cfg.templates arg.num arg.flowsPerDst env.pkt
      env.randDst }

/-- The first part of `RunTask`: the world without the tokens generated for, and the rounds of
`Enqueue` to make; nothing when there are tokens and `AllocPackets` fails. -/
def generated (s : Session) (env : TaskEnv) : Option (World × List Op) :=
  let flowToGen := s.world.fb.flowToGen
  if flowToGen.isEmpty then some (s.world, [])
  else
    match s.pktgen.allocPackets flowToGen env.bulk with
    | none => none
    | some batch =>
        let (pkts, flowToGen) := s.pktgen.rewriteUsingSingleTemplate batch flowToGen
        some (s.world.setFlowToGen flowToGen, env.rounds pkts)

/-- The last part of `RunTask`: a `Dequeue`. -/
def serve (cfg : Config) (s : Session) (w : World) (env : TaskEnv) :
    Option (Session × TaskResult) :=
  (w.fb.dequeue cfg env.dequeueNow env.garbage).bind fun r =>
    (w.step cfg (.dequeue env.dequeueNow env.garbage)).map fun w' =>
      ({ s with world := w' }, { block := r.cnt == 0, packets := r.cnt })

/-- `RunTask`; `none` when it does not return. -/
def runTask (cfg : Config) (s : Session) (env : TaskEnv) : Option (Session × TaskResult) :=
  if env.childrenOverload > 0 then some (s, { block := true, packets := 0 })
  else
    match s.generated env with
    -- cannot generate packets
    | none => some (s, { block := true, packets := 0 })
    | some (w, rounds) => (exec (World.step cfg) w rounds).bind fun w => s.serve cfg w env

def step (cfg : TaskConfig) (s : Session) : TaskOp → Option Session
  | .addFlow arg env => some (s.addFlow cfg arg env)
  | .runTask env => (s.runTask cfg.toConfig env).map Prod.fst

/-- The rounds and the `Dequeue` of a task read a clock that does not go back, and times below
`2^62`. -/
def TaskAdmits (cfg : Config) (s : Session) (env : TaskEnv) : Prop :=
  ∀ p ∈ s.generated env, All (World.step cfg) (fun w op => w.Admits op ∧ w.Ticks op) p.1
    (p.2 ++ [.dequeue env.dequeueNow env.garbage])

instance (cfg : Config) (s : Session) (env : TaskEnv) : Decidable (s.TaskAdmits cfg env) :=
  inferInstanceAs (Decidable (∀ p ∈ s.generated env, _))

def Admits (cfg : TaskConfig) (s : Session) : TaskOp → Prop
  | .addFlow _ _ => True
  | .runTask env => s.TaskAdmits cfg.toConfig env

instance (cfg : TaskConfig) (s : Session) : (op : TaskOp) → Decidable (s.Admits cfg op)
  | .addFlow _ _ => inferInstanceAs (Decidable True)
  | .runTask _ => inferInstanceAs (Decidable (TaskAdmits _ _ _))

/-- The static queue of tokens. -/
def flowToGenInit (memory : ℕ → ℕ) : CircularQueue := CircularQueue.init (8192 * 256) memory

/-- A session after `Init` and one `AddFlow`, before which `RunTask` finds neither tokens nor
packets. -/
def AfterAddFlow (cfg : TaskConfig) (arg : AddArg) (env : AddEnv) (s : Session) : Prop :=
  ∃ now uuid nodes pktsNum memory flowInfo gen,
    s = addFlow cfg
      { world := .start cfg.toConfig now uuid nodes pktsNum (flowToGenInit memory) flowInfo
        pktgen := gen } arg env

/-- The sessions reached by commands and tasks that satisfy `ok`. -/
abbrev Reach (cfg : TaskConfig) (ok : Session → TaskOp → Prop) : Session → Prop :=
  Machine.Reach (Session.step cfg) (fun s => ∃ arg env, AfterAddFlow cfg arg env s) ok

end Session

/-! ### The calendar in every session -/

namespace World

variable {cfg : Config} {w w' : World}

/-- The calendar does not depend on tokens, byte counts and flows. -/
lemma Inv.congr_flows (h : w.Inv cfg) (q : CircularQueue) (pktsNum : ℕ → ℕ)
    (flowInfo : ℕ → FlowInfo) :
    ({ w with fb := { w.fb with flowToGen := q, pktsNum := pktsNum, flowInfo := flowInfo } } :
      World).Inv cfg :=
  ⟨h.repr.congr rfl rfl rfl rfl rfl rfl, h.qid_le, h.bucket_lt⟩

lemma timed_congr_flows (h : Timed cfg w.fb w.held) (q : CircularQueue) (pktsNum : ℕ → ℕ)
    (flowInfo : ℕ → FlowInfo) :
    Timed cfg { w.fb with flowToGen := q, pktsNum := pktsNum, flowInfo := flowInfo } w.held :=
  h.update (fun _ he => he) h.ahead h.gran

/-- A round of `Enqueue` returns. -/
lemma step_enqueue_isSome (cfg : Config) (w : World) (now : ℕ) (pkt : Packet)
    (aggreRate hashId : ℕ) :
    ∃ w', w.step cfg (.enqueue now pkt aggreRate hashId) = some w' := ⟨_, rfl⟩

end World

/-- The rounds of `Enqueue` on a batch return. -/
lemma exec_rounds_isSome (cfg : Config) (env : TaskEnv) (pkts : List Packet) (w : World) :
    ∃ w', exec (World.step cfg) w (env.rounds pkts) = some w' := by
  have hall : ∀ (ps : List (Packet × ℕ)) (w : World), ∃ w', exec (World.step cfg) w
      (ps.map fun p => .enqueue (env.now p.2) p.1 (env.get p.2).1 (env.get p.2).2) = some w' := by
    intro ps
    induction ps with
    | nil => exact fun w => ⟨w, rfl⟩
    | cons p ps ih =>
        intro w
        obtain ⟨w₁, hw₁⟩ := World.step_enqueue_isSome cfg w (env.now p.2) p.1
          (env.get p.2).1 (env.get p.2).2
        obtain ⟨w', hw'⟩ := ih w₁
        exact ⟨w', by rw [List.map_cons, exec, hw₁]; exact hw'⟩
  exact hall pkts.zipIdx w

namespace Session

variable {cfg : TaskConfig} {s s' : Session} {op : TaskOp} {env : TaskEnv}

/-- The calendar is represented and timed. -/
structure Inv (cfg : Config) (s : Session) : Prop where
  world : s.world.Inv cfg
  timed : Timed cfg s.world.fb s.world.held

lemma Inv.addFlow (h : s.Inv cfg.toConfig) (arg : AddArg) (env : AddEnv) :
    (s.addFlow cfg arg env).Inv cfg.toConfig :=
  ⟨h.world.congr_flows _ _ _, World.timed_congr_flows h.timed _ _ _⟩

lemma Inv.afterAddFlow {arg : AddArg} {env : AddEnv} (h : AfterAddFlow cfg arg env s) :
    s.Inv cfg.toConfig := by
  obtain ⟨now, uuid, nodes, pktsNum, memory, flowInfo, gen, rfl⟩ := h
  exact Inv.addFlow ⟨.start _ _ _ _ _ _ _, .nil _ _⟩ arg env

/-- The first part of a task: there are no tokens, or the packets of a batch from the pool are
rewritten. -/
lemma generated_cases {w : World} {rounds : List Op} (h : s.generated env = some (w, rounds)) :
    (w = s.world ∧ rounds = []) ∨
      ∃ pkts batch, env.bulk = some pkts ∧
        batch = (List.range (s.pktgen.generateNum s.world.fb.flowToGen)).map pkts ∧
        w = s.world.setFlowToGen
          (s.pktgen.rewriteUsingSingleTemplate batch s.world.fb.flowToGen).2 ∧
        rounds = env.rounds
          (s.pktgen.rewriteUsingSingleTemplate batch s.world.fb.flowToGen).1 := by
  rw [Session.generated] at h
  dsimp only at h
  split at h
  · obtain ⟨rfl, rfl⟩ : s.world = w ∧ [] = rounds := by simpa using h
    exact .inl ⟨rfl, rfl⟩
  · cases hbulk : env.bulk with
    | none => simp [PacketGenerator.allocPackets, hbulk] at h
    | some pkts =>
        rw [PacketGenerator.allocPackets, hbulk, Option.map_some] at h
        obtain ⟨rfl, rfl⟩ : s.world.setFlowToGen _ = w ∧ env.rounds _ = rounds := by simpa using h
        exact .inr ⟨pkts, _, rfl, rfl, rfl, rfl⟩

/-- The tokens generated for leave the calendar alone. -/
lemma Inv.generated {w : World} {rounds : List Op} (h : s.Inv cfg.toConfig)
    (hgen : s.generated env = some (w, rounds)) :
    (w.Inv cfg.toConfig ∧ Timed cfg.toConfig w.fb w.held) ∧
      w.held = s.world.held ∧ w.sent = s.world.sent ∧ w.clock = s.world.clock ∧
      ∃ pkts, rounds = env.rounds pkts := by
  rcases generated_cases hgen with ⟨rfl, rfl⟩ | ⟨pkts, batch, -, -, rfl, rfl⟩
  · exact ⟨⟨h.world, h.timed⟩, rfl, rfl, rfl, [], rfl⟩
  · exact ⟨⟨h.world.congr_flows _ _ _, World.timed_congr_flows h.timed _ _ _⟩, rfl, rfl, rfl, _,
      rfl⟩

/-- What holds between the world a task starts from and the world that it serves. -/
structure Grown (cfg : Config) (w₀ w : World) : Prop where
  inv : w.Inv cfg
  timed : Timed cfg w.fb w.held
  held : ∀ e ∈ w₀.held, e ∈ w.held
  sent : w.sent = w₀.sent
  clock : w₀.clock ≤ w.clock

/-- A round of `Enqueue` keeps what is held. -/
lemma Grown.round {w₀ w w' : World} {now : ℕ} {pkt : Packet} {aggreRate hashId : ℕ}
    (hcfg : cfg.ShiftsOk) (h : Grown cfg.toConfig w₀ w)
    (hok : w.Admits (.enqueue now pkt aggreRate hashId))
    (htick : w.Ticks (.enqueue now pkt aggreRate hashId))
    (hstep : w.step cfg.toConfig (.enqueue now pkt aggreRate hashId) = some w') :
    Grown cfg.toConfig w₀ w' := by
  have he := step_enqueue h.inv.repr hstep
  refine ⟨h.inv.step hstep, ?_, fun e hmem => ?_, he.sent.trans h.sent, ?_⟩
  · exact he.timed h.inv h.timed (hcfg aggreRate) (findQueueIndex_le _ aggreRate) hok.2
  · rcases he.outcome with ⟨-, hheld, -⟩ | ⟨-, -, x, -, hheld⟩
    · rw [hheld]
      exact h.held e hmem
    · rw [hheld]
      exact List.mem_append_left _ (h.held e hmem)
  · have hclock : w'.clock = now := by
      rw [World.step, Option.some.injEq] at hstep
      rw [← hstep]
    rw [hclock]
    exact h.clock.trans htick

/-- The world that a task serves. -/
lemma Grown.rounds {w w₁ : World} {rounds : List Op} (hcfg : cfg.ShiftsOk)
    (h : s.Inv cfg.toConfig) (hgen : s.generated env = some (w, rounds))
    (hok : s.TaskAdmits cfg.toConfig env)
    (hexec : exec (World.step cfg.toConfig) w rounds = some w₁) :
    Grown cfg.toConfig s.world w₁ ∧ w₁.Admits (.dequeue env.dequeueNow env.garbage) ∧
      w₁.Ticks (.dequeue env.dequeueNow env.garbage) := by
  obtain ⟨⟨hinv, htimed⟩, hheld, hsent, hclock, pkts, rfl⟩ := h.generated hgen
  obtain ⟨hall, hlast⟩ := (hok (w, _) hgen).append
  refine ⟨?_, (hlast w₁ hexec).1⟩
  have hstart : Grown cfg.toConfig s.world w :=
    ⟨hinv, htimed, fun e he => by rwa [hheld], hsent, hclock.ge⟩
  refine exec_invariant (fun v v' op hop hv hadm hstep => ?_) hall hstart hexec
  obtain ⟨p, -, rfl⟩ := List.mem_map.mp hop
  exact hv.round hcfg hadm.1 hadm.2 hstep

/-- How a task can end. -/
inductive Ran (cfg : Config) (s : Session) (env : TaskEnv) (s' : Session) : Prop
  /-- The next module is overloaded, or packets were to be generated and there are none. -/
  | blocked (hsame : s' = s) (hcause : 0 < env.childrenOverload ∨ s.generated env = none)
  /-- The rounds lead to `w₁`, which is served. -/
  | served (w : World) (rounds : List Op) (w₁ w₂ : World) (hidle : env.childrenOverload = 0)
      (hgen : s.generated env = some (w, rounds))
      (hexec : exec (World.step cfg) w rounds = some w₁)
      (hstep : w₁.step cfg (.dequeue env.dequeueNow env.garbage) = some w₂)
      (hsession : s' = { s with world := w₂ })

lemma runTask_ran {cfg : Config} {r : TaskResult} (h : s.runTask cfg env = some (s', r)) :
    Ran cfg s env s' := by
  rw [runTask] at h
  split at h
  · rename_i hover
    obtain ⟨rfl, -⟩ : s = s' ∧ _ := by simpa using h
    exact .blocked rfl (.inl hover)
  · rename_i hover
    split at h
    · rename_i hnone
      obtain ⟨rfl, -⟩ : s = s' ∧ _ := by simpa using h
      exact .blocked rfl (.inr hnone)
    · rename_i w rounds hgen
      obtain ⟨w₁, hexec, hserve⟩ := Option.bind_eq_some_iff.mp h
      obtain ⟨d, -, hmap⟩ := Option.bind_eq_some_iff.mp hserve
      obtain ⟨w₂, hstep, heq⟩ := Option.map_eq_some_iff.mp hmap
      obtain ⟨rfl, -⟩ := Prod.mk.inj heq
      exact .served w rounds w₁ w₂ (by omega) hgen hexec hstep rfl

lemma Inv.runTask (h : s.Inv cfg.toConfig) (hcfg : cfg.ShiftsOk) (hburst : 1 ≤ cfg.dequeueBurst)
    (hok : s.TaskAdmits cfg.toConfig env) (hran : Ran cfg.toConfig s env s') :
    s'.Inv cfg.toConfig := by
  cases hran with
  | blocked hsame hcause => exact hsame ▸ h
  | served w rounds w₁ w₂ hidle hgen hexec hstep hsession =>
      obtain ⟨hgrown, hadm, -⟩ := Grown.rounds hcfg h hgen hok hexec
      rw [hsession]
      exact ⟨hgrown.inv.step hstep, hgrown.inv.step_timed hgrown.timed hcfg hburst hadm hstep⟩

end Session

/-- **Every reached session** has its calendar represented and timed. -/
theorem reach_session {cfg : TaskConfig} {s : Session} (hcfg : cfg.ShiftsOk)
    (hburst : 1 ≤ cfg.dequeueBurst) (hs : Session.Reach cfg (Session.Admits cfg) s) :
    s.Inv cfg.toConfig := by
  refine hs.invariant (fun s ⟨arg, env, hstart⟩ => .afterAddFlow hstart) ?_
  intro s s' op _ ih hok hstep
  cases op with
  | addFlow arg env =>
      rw [Session.step, Option.some.injEq] at hstep
      exact hstep ▸ ih.addFlow arg env
  | runTask env =>
      rw [Session.step, Option.map_eq_some_iff] at hstep
      obtain ⟨⟨s₁, r⟩, hrun, rfl⟩ := hstep
      exact ih.runTask hcfg hburst hok (Session.runTask_ran hrun)

end Bess
