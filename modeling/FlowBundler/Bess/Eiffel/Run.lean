import FlowBundler.Bess.Eiffel.Marked
import FlowBundler.Bess.Pacing

/-!
Runs of Eiffel, with the send times of the queued packets.

* `Placed`: a packet in a bucket, with the send time that `DropPacketInsert` left.
* `Call`: a call of `Dequeue`, with the module and the packets that it found.
* `World`: the module with the packets in its buckets, the calls so far and the last reading of
  the clock; `World.step_eiffel`: the module in it takes the steps of the module.
* `World.Ticks`: the clock does not go back; `Reach cfg ok`: the worlds reached by operations that
  satisfy `ok`.

A world keeps, beside the module, the packets of each bucket with their send times, which the nodes
of the module do not have.  The list of a bucket goes from its front on, as the nodes do, so that a
packet is put in front and the packets that leave are the first ones.
-/

namespace Bess

namespace Eiffel

/-- A packet in a bucket. -/
structure Placed where
  node : PacketNode
  /-- The send time as `DropPacketInsert` left it. -/
  sendTime : ℕ
  deriving DecidableEq

/-- A call of `Dequeue`: the module and the buckets before it, what it removed and the batch it
left. -/
structure Call where
  eiffel : Eiffel
  held : QueueId → ℕ → List Placed
  now : ℕ
  removed : List Placed
  batch : List PacketNode

structure World where
  eiffel : Eiffel
  /-- What is in the buckets, in the order of the nodes. -/
  held : QueueId → ℕ → List Placed
  calls : List Call
  /-- The last reading of the clock. -/
  clock : ℕ

namespace World

variable (cfg : SlotConfig)

/-- The buckets after a round of `Enqueue` with stamp `stamp`. -/
def heldAfter (w : World) (stamp : ℕ) (node : PacketNode) (r : InsertResult) :
    QueueId → ℕ → List Placed :=
  if r.ret < 0 then w.held
  else
    match w.eiffel.target cfg stamp with
    | none => w.held
    | some (q, i) => Function.update w.held q
        (Function.update (w.held q) i ({ node := node, sendTime := r.sendTime } :: w.held q i))

/-- One round of `Enqueue`. -/
def enqueueOne (w : World) (p : ℕ × Packet) : World :=
  let r := w.eiffel.enqueueOne cfg p
  { w with
    eiffel := r.eiffel
    held := w.heldAfter cfg (w.eiffel.stampOf p) (nodeOf p) r
    clock := p.1 }

def enqueue (w : World) (batch : List (ℕ × Packet)) : World := batch.foldl (enqueueOne cfg) w

/-- The buckets once the queue that `ffs` named is the main queue. -/
def frontHeld (w : World) (queueId : ℕ) : QueueId → ℕ → List Placed :=
  frontOf w.held (if queueId = 1 then .buffer else .main)

/-- The packets that leave with the first `n` nodes of the bucket that `ffs` found. -/
def removed (w : World) (n : ℕ) : List Placed :=
  match w.eiffel.ffs with
  | none => []
  | some (i, queueId) => (w.frontHeld queueId .main i).take n

/-- The buckets after a call of `Dequeue` that took `n` nodes. -/
def heldWithout (w : World) (n : ℕ) : QueueId → ℕ → List Placed :=
  match w.eiffel.ffs with
  | none => w.held
  | some (i, queueId) =>
      let held := w.frontHeld queueId
      Function.update held .main (Function.update (held .main) i ((held .main i).drop n))

def dequeue (w : World) (now : ℕ) : World :=
  let r := w.eiffel.dequeue cfg now
  { eiffel := r.eiffel
    held := w.heldWithout r.taken.length
    calls := w.calls ++
      [{ eiffel := w.eiffel, held := w.held, now := now, removed := w.removed r.taken.length
         batch := r.taken }]
    clock := now }

/-- `Eiffel::RunTask`. -/
def runTask (w : World) (env : SlotEnv) : World :=
  if env.childrenOverload > 0 then w
  else
    match env.generated w.eiffel.store.flowToGen w.eiffel.pktgen with
    -- cannot generate packets
    | none => w
    | some batch =>
        { (w.enqueue cfg batch).dequeue cfg env.dequeueNow with
          eiffel := w.eiffel.runTask cfg env }

def step (w : World) : Op → Option World
  | .enqueue batch => some (w.enqueue cfg batch)
  | .dequeue now => some (w.dequeue cfg now)
  | .runTask env => some (w.runTask cfg env)
  | .setMaxDequeueBurst arg => some { w with eiffel := w.eiffel.setMaxDequeueBurst arg }

/-- The world after `Init`, with any flows, static members and generator. -/
def Initial (w : World) : Prop :=
  ∃ now pktsNum flowToGen flowInfo pktgen e, now < 2 ^ 64 ∧
    init cfg now pktsNum flowToGen flowInfo pktgen = some e ∧
    w = { eiffel := e, held := fun _ _ => [], calls := [], clock := now }

/-! ### The clock -/

/-- The clock reading `now` is not before the last one. -/
def TicksAt (w : World) (now : ℕ) : Prop := w.clock ≤ now ∧ now < 2 ^ 64

instance (w : World) (now : ℕ) : Decidable (w.TicksAt now) := inferInstanceAs (Decidable (_ ∧ _))

/-- The readings of a batch go forward. -/
def BatchTicks (w : World) (batch : List (ℕ × Packet)) : Prop :=
  BatchFits (enqueueOne cfg) (fun w p => w.TicksAt p.1) w batch

instance (w : World) (batch : List (ℕ × Packet)) : Decidable (w.BatchTicks cfg batch) :=
  decidableBatchFits _ _ _ _

/-- The clock does not go back. -/
def Ticks (w : World) : Op → Prop
  | .enqueue batch => w.BatchTicks cfg batch
  | .dequeue now => w.TicksAt now
  | .runTask env => env.childrenOverload = 0 →
      ∀ batch ∈ env.generated w.eiffel.store.flowToGen w.eiffel.pktgen,
        w.BatchTicks cfg batch ∧ (w.enqueue cfg batch).TicksAt env.dequeueNow
  | .setMaxDequeueBurst _ => True

instance (w : World) : (op : Op) → Decidable (w.Ticks cfg op)
  | .enqueue batch => inferInstanceAs (Decidable (w.BatchTicks cfg batch))
  | .dequeue now => inferInstanceAs (Decidable (w.TicksAt now))
  | .runTask env => inferInstanceAs (Decidable (env.childrenOverload = 0 → ∀ batch ∈
      env.generated w.eiffel.store.flowToGen w.eiffel.pktgen,
        w.BatchTicks cfg batch ∧ (w.enqueue cfg batch).TicksAt env.dequeueNow))
  | .setMaxDequeueBurst _ => inferInstanceAs (Decidable True)

/-! ### The module in a world -/

variable {cfg}

lemma enqueue_eiffel (batch : List (ℕ × Packet)) : ∀ w : World,
    (w.enqueue cfg batch).eiffel = w.eiffel.enqueue cfg batch := by
  induction batch with
  | nil => exact fun _ => rfl
  | cons p batch ih => exact fun w => ih (w.enqueueOne cfg p)

/-- **What a task does**: nothing, or `Enqueue`, `Dequeue` and the count. -/
lemma runTask_cases (w : World) (env : SlotEnv) :
    (w.runTask cfg env = w ∧ w.eiffel.runTask cfg env = w.eiffel) ∨
      ∃ batch, env.childrenOverload = 0 ∧
        env.generated w.eiffel.store.flowToGen w.eiffel.pktgen = some batch ∧
        w.runTask cfg env = { (w.enqueue cfg batch).dequeue cfg env.dequeueNow with
          eiffel := w.eiffel.runTask cfg env } := by
  rcases w.eiffel.runTask_cases cfg env with ⟨hsame, hnone⟩ | ⟨batch, hover, hgen⟩
  · refine .inl ⟨?_, hsame⟩
    rw [runTask]
    rcases hnone with hover | hgen
    · rw [if_pos hover]
    · rw [hgen, ite_self]
  · refine .inr ⟨batch, hover, hgen, ?_⟩
    rw [runTask, if_neg (by omega), hgen]

/-- The module in a world takes the steps of the module. -/
lemma step_eiffel (w : World) (op : Op) :
    (w.step cfg op).map World.eiffel = w.eiffel.step cfg op := by
  cases op with
  | enqueue batch => exact congrArg some (enqueue_eiffel batch w)
  | dequeue now => rfl
  | runTask env =>
      refine congrArg some ?_
      rcases w.runTask_cases env with ⟨hsame, hnone⟩ | ⟨batch, -, -, hrun⟩
      · rw [hsame, hnone]
      · rw [hrun]
  | setMaxDequeueBurst arg => rfl

end World

/-- The worlds reached from `Init` by operations that satisfy `ok`. -/
abbrev Reach (cfg : SlotConfig) (ok : World → Op → Prop) : World → Prop :=
  Machine.Reach (World.step cfg) (World.Initial cfg) ok

/-! ### Concrete runs -/

/-- The world of `startAt`. -/
def worldAt (rate : ℕ) : World :=
  { eiffel := startAt rate, held := fun _ _ => [], calls := [], clock := 0 }

/-- A run from clock `0` whose last world satisfies `p` reaches such a world. -/
lemma exists_reach (rate : ℕ) (ok : World → Op → Prop) [∀ w op, Decidable (ok w op)]
    (ops : List Op) (p : World → Prop) [DecidablePred p]
    (h : (Machine.run (World.step smallSlots) ok (worldAt rate) ops).any (fun w => p w) = true) :
    ∃ w, Reach smallSlots ok w ∧ p w :=
  Machine.exists_reach ⟨0, _, _, _, _, startAt rate, by norm_num, (Option.some_get _).symm, rfl⟩
    ops p h

end Eiffel

end Bess
