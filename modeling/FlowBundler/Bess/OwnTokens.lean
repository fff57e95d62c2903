import FlowBundler.Bess.Progress
import FlowBundler.Bess.Carousel.Wheel
import FlowBundler.Bess.Eiffel.Queues

/-!
Whose tokens Eiffel and Carousel generate from, when they are alone in the process.

* `SlotEnv.generate`: the first part of `RunTask`, with both queues of tokens;
  `generated_eq`: it hands `Enqueue` the batch of the task.
* `GeneratesOwn`: it pops its share from `ListBucket::flow_to_gen`, and makes a packet for each
  of these tokens; `generatesOwn_iff`: with nothing in `HBListBucket::flow_to_gen` it does so
  only when its share is empty.
* `SlotModule`, `eiffelModule`, `carouselModule`: the two modules as this part of them sees them.
* `Process`, `Process.step`: a process with one module, its commands and tasks.
* `own_tokens_iff`, `own_tokens_unused`: the generation in every process.

The generator counts and pops the tokens of `HBListBucket`, which only the commands of FlowBundler
fill; in a process with another module alone that queue stays empty, by induction on the run, so
that a task generates nothing, whatever its module holds.  The two modules are seen through one
record, so that this is shown once.
-/

namespace Bess

/-! ### Generation -/

/-- What the generator leaves when `Enqueue` is called. -/
structure Generation where
  batch : List (ℕ × Packet)
  /-- `ListBucket::flow_to_gen`. -/
  flowToGen : CircularQueue
  /-- `HBListBucket::flow_to_gen`. -/
  hbFlowToGen : CircularQueue

namespace SlotEnv

variable {env : SlotEnv} {flowToGen : CircularQueue} {pktgen : PacketGenerator} {ring : List ℕ}

/-- The first part of `RunTask`: the module looks at its own queue of tokens, and the generator
counts and pops those of `HBListBucket`. -/
def generate (env : SlotEnv) (flowToGen : CircularQueue) (pktgen : PacketGenerator) :
    Option Generation :=
  if flowToGen.isEmpty then
    some { batch := [], flowToGen := flowToGen, hbFlowToGen := env.hbFlowToGen }
  else
    match pktgen.allocPackets env.hbFlowToGen env.bulk with
    | none => none
    | some batch =>
        let (pkts, hbFlowToGen) := pktgen.rewriteUsingSingleTemplate batch env.hbFlowToGen
        some { batch := pkts.zipIdx.map fun p => (env.now p.2, p.1), flowToGen := flowToGen
               hbFlowToGen := hbFlowToGen }

/-- The batch is the one of the task. -/
lemma generated_eq (env : SlotEnv) (flowToGen : CircularQueue) (pktgen : PacketGenerator) :
    env.generated flowToGen pktgen = (env.generate flowToGen pktgen).map Generation.batch := by
  rw [generated, generate]
  split
  · rfl
  · cases pktgen.allocPackets env.hbFlowToGen env.bulk <;> rfl

/-- The task of a process whose `HBListBucket::flow_to_gen` is `q`. -/
def withHb (env : SlotEnv) (q : CircularQueue) : SlotEnv := { env with hbFlowToGen := q }

/-- With `m` the smaller one of `generate_burst` and the number of tokens, the `m` oldest tokens
are popped from `ListBucket::flow_to_gen`, and `Enqueue` is handed `m` packets with these tokens
as their source addresses. -/
def GeneratesOwn (env : SlotEnv) (flowToGen : CircularQueue) (pktgen : PacketGenerator) : Prop :=
  ∃ g m, env.generate flowToGen pktgen = some g ∧
    m = min pktgen.generateBurst flowToGen.contents.length ∧
    g.flowToGen.contents = flowToGen.contents.drop m ∧ g.batch.length = m ∧
    g.batch.map (fun p => p.2.src) = flowToGen.contents.take m

/-- With no tokens in `HBListBucket::flow_to_gen` nothing is generated. -/
lemma generate_of_nil (hhb : env.hbFlowToGen.Fifo []) (hbulk : env.bulk.isSome = true) :
    env.generate flowToGen pktgen
      = some { batch := [], flowToGen := flowToGen, hbFlowToGen := env.hbFlowToGen } := by
  have hnum : pktgen.generateNum env.hbFlowToGen = 0 := by
    rw [pktgen.generateNum_eq hhb, List.length_nil, Nat.zero_min]
  obtain ⟨pkts, hpkts⟩ := Option.isSome_iff_exists.mp hbulk
  have halloc : pktgen.allocPackets env.hbFlowToGen env.bulk = some [] := by
    rw [PacketGenerator.allocPackets, hpkts, Option.map_some, hnum]
    rfl
  rw [generate, halloc]
  split <;> rfl

/-- **Generation from the own tokens**, with no tokens in `HBListBucket::flow_to_gen`. -/
lemma generatesOwn_iff (hhb : env.hbFlowToGen.Fifo []) (hbulk : env.bulk.isSome = true)
    (hne : flowToGen.contents ≠ []) :
    env.GeneratesOwn flowToGen pktgen ↔ pktgen.generateBurst = 0 := by
  have hpos := List.length_pos_iff.mpr hne
  rw [GeneratesOwn, generate_of_nil hhb hbulk]
  constructor
  · rintro ⟨g, m, hg, hm, -, hlen, -⟩
    obtain rfl := Option.some.inj hg
    rw [List.length_nil] at hlen
    omega
  · intro hzero
    refine ⟨_, 0, rfl, ?_, by simp, rfl, by simp⟩
    rw [hzero, Nat.zero_min]

end SlotEnv

/-! ### The modules -/

/-- What `Init` keeps for the generator; it refuses a larger burst. -/
structure SlotTaskConfig extends SlotConfig where
  generateBurst : ℕ
  templates : List UInt8
  burst_le : generateBurst ≤ kMaxBurst

/-- `AddFlow` on the flows; `stamp` are its readings of the clock. -/
def addFlowInfo (arg : AddArg) (stamp : ℕ → ℕ) (flowInfo : ℕ → FlowInfo) : ℕ → FlowInfo := fun i =>
  if i < arg.num then { lastStamp := stamp i, rate := arg.rate i } else flowInfo i

/-- `AddFlow` on the static members. -/
def ListBucket.Store.addFlow (cfg : SlotConfig) (st : ListBucket.Store) (arg : AddArg) :
    ListBucket.Store :=
  { st with
    pktsNum := fun i => if i < arg.num then 0 else st.pktsNum i
    flowToGen := (tokenList arg.num (cfg.maxBytesPerFlow / 1500)).foldl (fun q j => (q.push j).2)
      st.flowToGen.reset }

/-- The generator that `AddFlow` makes. -/
def SlotTaskConfig.newPktgen (cfg : SlotTaskConfig) (arg : AddArg) (env : AddEnv) :
    PacketGenerator :=
  .new env.sums cfg.generateBurst cfg.templates arg.num arg.flowsPerDst env.pkt env.randDst

/-- `Eiffel::AddFlow`. -/
def Eiffel.addFlow (cfg : SlotTaskConfig) (e : Eiffel) (arg : AddArg) (env : AddEnv) : Eiffel :=
  { e with
    flowInfo := addFlowInfo arg env.stamp e.flowInfo
    store := e.store.addFlow cfg.toSlotConfig arg
    pktgen := cfg.newPktgen arg env }

/-- `Carousel::AddFlow`. -/
def Carousel.addFlow (cfg : SlotTaskConfig) (c : Carousel) (arg : AddArg) (env : AddEnv) :
    Carousel :=
  { c with
    flowInfo := addFlowInfo arg env.stamp c.flowInfo
    store := c.store.addFlow cfg.toSlotConfig arg
    pktgen := cfg.newPktgen arg env }

lemma Eiffel.runTask_eq (cfg : SlotConfig) (e : Eiffel) {env : SlotEnv}
    (h : env.childrenOverload = 0) :
    e.runTask cfg env = match env.generate e.store.flowToGen e.pktgen with
      | none => e
      | some g => e.afterGenerate cfg env g.batch := by
  rw [runTask, if_neg (by omega), SlotEnv.generated_eq]
  cases env.generate e.store.flowToGen e.pktgen <;> rfl

lemma Carousel.World.runTask_eq (cfg : SlotConfig) (w : Carousel.World) {env : SlotEnv}
    (h : env.childrenOverload = 0) :
    w.runTask cfg env = match env.generate w.carousel.store.flowToGen w.carousel.pktgen with
      | none => some w
      | some g => w.afterGenerate cfg env g.batch := by
  rw [runTask, if_neg (by omega), generated, SlotEnv.generated_eq]
  cases env.generate w.carousel.store.flowToGen w.carousel.pktgen <;> rfl

/-- A module as its commands and its task see it. -/
structure SlotModule (σ : Type) where
  /-- After `Init`, with the static members as they are constructed. -/
  initial : σ → Prop
  flowToGen : σ → CircularQueue
  pktgen : σ → PacketGenerator
  setPktgen : σ → PacketGenerator → σ
  addFlow : σ → AddArg → AddEnv → σ
  setMaxDequeueBurst : σ → ℤ → σ
  /-- `RunTask`; `none` when it does not return. -/
  runTask : σ → SlotEnv → Option σ
  /-- `RunTask` from the call of `Enqueue` on. -/
  afterGenerate : σ → SlotEnv → List (ℕ × Packet) → Option σ
  runTask_eq : ∀ s env, env.childrenOverload = 0 →
    runTask s env = match env.generate (flowToGen s) (pktgen s) with
      | none => some s
      | some g => afterGenerate s env g.batch

def eiffelModule (cfg : SlotTaskConfig) : SlotModule Eiffel where
  initial e := ∃ now pktsNum memory flowInfo pktgen, now < 2 ^ 64 ∧
    Eiffel.init cfg.toSlotConfig now pktsNum (Session.flowToGenInit memory) flowInfo pktgen = some e
  flowToGen e := e.store.flowToGen
  pktgen e := e.pktgen
  setPktgen e gen := { e with pktgen := gen }
  addFlow e arg env := e.addFlow cfg arg env
  setMaxDequeueBurst e arg := e.setMaxDequeueBurst arg
  runTask e env := some (e.runTask cfg.toSlotConfig env)
  afterGenerate e env batch := some (e.afterGenerate cfg.toSlotConfig env batch)
  runTask_eq e env h := by
    rw [e.runTask_eq cfg.toSlotConfig h]
    cases env.generate e.store.flowToGen e.pktgen <;> rfl

def carouselModule (cfg : SlotTaskConfig) : SlotModule Carousel.World where
  initial w := ∃ now pktsNum memory flowInfo pktgen, now < 2 ^ 64 ∧
    w = { carousel := Carousel.init cfg.toSlotConfig now pktsNum (Session.flowToGenInit memory)
            flowInfo pktgen
          held := [], calls := [], count := 0 }
  flowToGen w := w.carousel.store.flowToGen
  pktgen w := w.carousel.pktgen
  setPktgen w gen := { w with carousel := { w.carousel with pktgen := gen } }
  addFlow w arg env := { w with carousel := w.carousel.addFlow cfg arg env }
  setMaxDequeueBurst w arg := { w with carousel := w.carousel.setMaxDequeueBurst arg }
  runTask w env := w.runTask cfg.toSlotConfig env
  afterGenerate w env batch := w.afterGenerate cfg.toSlotConfig env batch
  runTask_eq w _ h := w.runTask_eq cfg.toSlotConfig h

/-! ### Processes -/

/-- A process with one module. -/
structure Process (σ : Type) where
  module : σ
  /-- `HBListBucket::flow_to_gen`. -/
  hbFlowToGen : CircularQueue

inductive ProcessOp where
  | addFlow (arg : AddArg) (env : AddEnv)
  | setMaxDequeueBurst (arg : ℤ)
  | setGenerateBurst (arg : ℕ)
  | setGeneratePktSize (arg : ℕ)
  | runTask (env : SlotEnv)

namespace Process

variable {σ : Type} {m : SlotModule σ} {s s' : Process σ}

/-- The tokens of `HBListBucket` after a task. -/
def hbAfter (m : SlotModule σ) (s : Process σ) (env : SlotEnv) : CircularQueue :=
  if env.childrenOverload > 0 then s.hbFlowToGen
  else
    match (env.withHb s.hbFlowToGen).generate (m.flowToGen s.module) (m.pktgen s.module) with
    | none => s.hbFlowToGen
    | some g => g.hbFlowToGen

def step (m : SlotModule σ) (s : Process σ) : ProcessOp → Option (Process σ)
  | .addFlow arg env => some { s with module := m.addFlow s.module arg env }
  | .setMaxDequeueBurst arg => some { s with module := m.setMaxDequeueBurst s.module arg }
  | .setGenerateBurst arg =>
      let gen := { m.pktgen s.module with generateBurst := arg }
      some { s with module := m.setPktgen s.module gen }
  | .setGeneratePktSize arg =>
      let gen := { m.pktgen s.module with generatePktSize := arg }
      some { s with module := m.setPktgen s.module gen }
  | .runTask env => (m.runTask s.module (env.withHb s.hbFlowToGen)).map fun module =>
      { module := module, hbFlowToGen := s.hbAfter m env }

/-- A process after `Init` and one `AddFlow`. -/
def AfterAddFlow (m : SlotModule σ) (s : Process σ) : Prop :=
  ∃ module memory arg env, m.initial module ∧
    s = { module := m.addFlow module arg env, hbFlowToGen := Session.flowToGenInit memory }

/-- The processes reached by commands and tasks. -/
abbrev Reach (m : SlotModule σ) : Process σ → Prop :=
  Machine.Reach (step m) (AfterAddFlow m) fun _ _ => True

/-- The generator pops nothing from a queue without tokens. -/
lemma hbAfter_nil (hhb : s.hbFlowToGen.Fifo []) (env : SlotEnv) :
    s.hbAfter m env = s.hbFlowToGen := by
  rw [hbAfter]
  split
  · rfl
  · cases hbulk : env.bulk with
    | none =>
        rw [SlotEnv.generate, SlotEnv.withHb, hbulk]
        by_cases hempty : (m.flowToGen s.module).isEmpty
        · rw [if_pos hempty]
        · rw [if_neg hempty]
          rfl
    | some pkts =>
        have hsome : (env.withHb s.hbFlowToGen).bulk.isSome = true := by
          rw [SlotEnv.withHb, hbulk]
          rfl
        have hnil : (env.withHb s.hbFlowToGen).hbFlowToGen.Fifo [] := hhb
        rw [SlotEnv.generate_of_nil hnil hsome]
        rfl

/-- **Nothing fills `HBListBucket::flow_to_gen`** in a process of its own. -/
lemma hb_nil (hs : Reach m s) : s.hbFlowToGen.Fifo [] := by
  induction hs with
  | start hinit =>
      obtain ⟨module, memory, arg, env, -, rfl⟩ := hinit
      exact ⟨⟨21, rfl⟩, .nil _ (show 0 < 2 ^ 21 by norm_num)⟩
  | @step s s' op _ _ hstep ih =>
      cases op with
      | runTask env =>
          rw [step, Option.map_eq_some_iff] at hstep
          obtain ⟨module, -, rfl⟩ := hstep
          dsimp only
          rw [hbAfter_nil ih]
          exact ih
      | addFlow => exact Option.some.inj hstep ▸ ih
      | setMaxDequeueBurst => exact Option.some.inj hstep ▸ ih
      | setGenerateBurst => exact Option.some.inj hstep ▸ ih
      | setGeneratePktSize => exact Option.some.inj hstep ▸ ih

/-- The module holds tokens, and a task may generate for them. -/
structure Ready (m : SlotModule σ) (s : Process σ) (env : SlotEnv) : Prop where
  tokens : (m.flowToGen s.module).contents ≠ []
  no_overload : env.childrenOverload = 0
  supplied : env.bulk.isSome = true

/-- A task of the module generates from its own tokens. -/
def Generates (m : SlotModule σ) (s : Process σ) (env : SlotEnv) : Prop :=
  (env.withHb s.hbFlowToGen).GeneratesOwn (m.flowToGen s.module) (m.pktgen s.module)

/-- What a task hands to `Enqueue`, and whether that is its share. -/
def Answer (m : SlotModule σ) (s : Process σ) (env : SlotEnv) : Prop :=
  (∃ g, (env.withHb s.hbFlowToGen).generate (m.flowToGen s.module) (m.pktgen s.module) = some g ∧
      m.runTask s.module (env.withHb s.hbFlowToGen)
        = m.afterGenerate s.module (env.withHb s.hbFlowToGen) g.batch) ∧
    (s.Generates m env ↔ (m.pktgen s.module).generateBurst = 0)

lemma answer {env : SlotEnv} (hs : Reach m s) (hready : s.Ready m env) : s.Answer m env := by
  have hnil : (env.withHb s.hbFlowToGen).hbFlowToGen.Fifo [] := hb_nil hs
  have hgen := @SlotEnv.generate_of_nil _ (m.flowToGen s.module) (m.pktgen s.module) hnil
    hready.supplied
  have hover : (env.withHb s.hbFlowToGen).childrenOverload = 0 := hready.no_overload
  refine ⟨⟨_, hgen, ?_⟩, SlotEnv.generatesOwn_iff hnil hready.supplied hready.tokens⟩
  rw [m.runTask_eq _ _ hover, hgen]

end Process

/-- **Whose tokens are used**: in every process with Eiffel or Carousel alone, a task that finds
tokens generates from them exactly when `generate_burst` is `0`, which leaves them alone. -/
theorem own_tokens_iff (cfg : SlotTaskConfig) :
    (∀ s env, Process.Reach (eiffelModule cfg) s → s.Ready (eiffelModule cfg) env →
        s.Answer (eiffelModule cfg) env) ∧
      ∀ s env, Process.Reach (carouselModule cfg) s → s.Ready (carouselModule cfg) env →
        s.Answer (carouselModule cfg) env :=
  ⟨fun _ _ => Process.answer, fun _ _ => Process.answer⟩

/-! ### Concrete processes -/

/-- Eight slots, two tokens for each flow, and a burst of two. -/
def smallTask : SlotTaskConfig :=
  { smallSlots with
    generateBurst := 2
    templates := List.replicate 14 0 ++ 0x45 :: List.replicate 27 0
    burst_le := by decide }

/-- A process with `module` after an `AddFlow` of one flow. -/
def processOf {σ : Type} (m : SlotModule σ) (module : σ) : Process σ :=
  { module := m.addFlow module (argOf [100000000]) addEnv
    hbFlowToGen := Session.flowToGenInit fun _ => 0 }

/-- Eiffel after `Init` at clock `0`. -/
def eiffelProcess : Process Eiffel :=
  processOf (eiffelModule smallTask)
    ((Eiffel.init smallSlots 0 (fun _ => 0) (Session.flowToGenInit fun _ => 0)
      (fun _ => { lastStamp := 0, rate := 0 }) blankGenerator).get rfl)

/-- Carousel after `Init` at clock `0`. -/
def carouselProcess : Process Carousel.World :=
  processOf (carouselModule smallTask)
    { carousel := Carousel.init smallSlots 0 (fun _ => 0) (Session.flowToGenInit fun _ => 0)
        (fun _ => { lastStamp := 0, rate := 0 }) blankGenerator
      held := [], calls := [], count := 0 }

lemma reach_eiffelProcess : Process.Reach (eiffelModule smallTask) eiffelProcess :=
  .start ⟨_, _, _, _, ⟨0, _, _, _, _, by norm_num, (Option.some_get _).symm⟩, rfl⟩

lemma reach_carouselProcess : Process.Reach (carouselModule smallTask) carouselProcess :=
  .start ⟨_, _, _, _, ⟨0, _, _, _, _, by norm_num, rfl⟩, rfl⟩

lemma eiffelProcess_tokens :
    ((eiffelModule smallTask).flowToGen eiffelProcess.module).contents = [0, 0] := by
  decide +kernel

lemma carouselProcess_tokens :
    ((carouselModule smallTask).flowToGen carouselProcess.module).contents = [0, 0] := by
  decide +kernel

/-- Both modules with their two tokens, in a task that may generate. -/
theorem own_tokens_iff_run :
    eiffelProcess.Answer (eiffelModule smallTask) (quietTask 0 1) ∧
      carouselProcess.Answer (carouselModule smallTask) (quietTask 0 1) := by
  obtain ⟨heiffel, hcarousel⟩ := own_tokens_iff smallTask
  refine ⟨heiffel _ _ reach_eiffelProcess ⟨?_, rfl, rfl⟩,
    hcarousel _ _ reach_carouselProcess ⟨?_, rfl, rfl⟩⟩
  · rw [eiffelProcess_tokens]
    simp
  · rw [carouselProcess_tokens]
    simp

/-- Both modules hold two tokens after `AddFlow`, and the first task of each may generate two
packets: it hands `Enqueue` none. -/
theorem own_tokens_unused :
    (Process.Reach (eiffelModule smallTask) eiffelProcess ∧
        eiffelProcess.Ready (eiffelModule smallTask) (quietTask 0 1) ∧
        ¬ eiffelProcess.Generates (eiffelModule smallTask) (quietTask 0 1)) ∧
      Process.Reach (carouselModule smallTask) carouselProcess ∧
        carouselProcess.Ready (carouselModule smallTask) (quietTask 0 1) ∧
        ¬ carouselProcess.Generates (carouselModule smallTask) (quietTask 0 1) := by
  have heiffel : eiffelProcess.Ready (eiffelModule smallTask) (quietTask 0 1) := by
    refine ⟨?_, rfl, rfl⟩
    rw [eiffelProcess_tokens]
    simp
  have hcarousel : carouselProcess.Ready (carouselModule smallTask) (quietTask 0 1) := by
    refine ⟨?_, rfl, rfl⟩
    rw [carouselProcess_tokens]
    simp
  refine ⟨⟨reach_eiffelProcess, heiffel, fun hgen => ?_⟩, reach_carouselProcess, hcarousel,
    fun hgen => ?_⟩
  · have hburst := (Process.answer reach_eiffelProcess heiffel).2.mp hgen
    exact absurd hburst (by decide)
  · have hburst := (Process.answer reach_carouselProcess hcarousel).2.mp hgen
    exact absurd hburst (by decide)

end Bess
