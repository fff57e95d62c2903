import FlowBundler.Bess.Bundler
import FlowBundler.Lib.Ledger
import FlowBundler.Lib.Machine

/-!
Runs of the module: rounds of `Enqueue` and calls of `Dequeue` from `Init`, with the
history that the properties speak about.

* `Placed`: a packet that `Insert` accepted, with its number in the order of acceptance and
  what `Insert` computed for it.
* `World`: the module with the packets it holds, and those `Dequeue` took out with the
  clock reading of that call.
* `Config.ShiftsOk`: the shifts of `Insert` stay below `64` for every rate.
* `World.Admits`: times are below `2^62`; `World.Ticks`: the clock does not go back.
* `Reach cfg ok`: the worlds reached by operations that satisfy `ok`.

What is accepted is recorded with its number, so that the order of acceptance can be spoken of
when a bucket, which is served from the front, no longer tells it.  As in the kernel, `exists_reach`
turns a list of operations, evaluated by the kernel of the proof checker, into a reached world.
-/

namespace Bess

open Ledger Dyadic

/-- What `Insert` stored. -/
structure Placed where
  /-- The number of packets accepted before it. -/
  seq : ℕ
  node : ℕ
  packet : Packet
  flowId : ℕ
  sendTime : ℕ
  /-- The later of the send time and the head time. -/
  actual : ℕ
  /-- The queue index that `Insert` finally used. -/
  queueId : ℕ
  loc : Location
  deriving DecidableEq, Repr

/-- The time the packet is placed at, rounded up to the granule of its queue index. -/
def Placed.deadline (cfg : Config) (e : Placed) : ℕ :=
  ceilTo (e.queueId + cfg.minGranScale) e.actual

/-- A module and its history. -/
structure World where
  fb : FlowBundler
  /-- What is in the calendar, in the order of acceptance. -/
  held : List Placed
  /-- What was taken out, in order, with the clock reading of the call. -/
  sent : List (Placed × ℕ)
  /-- How many packets were accepted. -/
  count : ℕ
  /-- The last reading of the clock. -/
  clock : ℕ

/-- An operation: a round of `Enqueue`, or a call of `Dequeue`. -/
inductive Op where
  | enqueue (now : ℕ) (pkt : Packet) (aggreRate hashId : ℕ)
  | dequeue (now garbage : ℕ)

/-- The shifts of `Insert` stay below the width of a word, whatever the rate. -/
def Config.ShiftsOk (cfg : Config) : Prop :=
  ∀ rate, findQueueIndex cfg rate + cfg.minGranScale + cfg.bucketNumScale < 64

namespace World

/-- The packet that a round of `Enqueue` placed, if any. -/
def placedOf (w : World) (pkt : Packet) (r : FlowBundler.InsertResult) : List Placed :=
  match r.node with
  | none => []
  | some n =>
      [{ seq := w.count, node := n, packet := pkt, flowId := pkt.src, sendTime := r.sendTime
         actual := r.actual, queueId := r.queueId, loc := r.loc }]

/-- The held packets of a list of nodes, in the order of that list. -/
def takenFrom (held : List Placed) (taken : List ℕ) : List Placed :=
  taken.flatMap fun n => named Placed.node held [n]

/-- One operation; `none` when the operation does not return. -/
def step (cfg : Config) (w : World) : Op → Option World
  | .enqueue now pkt aggreRate hashId =>
      let r := w.fb.enqueueOne cfg now pkt aggreRate hashId
      let placed := w.placedOf pkt r
      some { w with
        fb := r.fb, held := w.held ++ placed, count := w.count + placed.length, clock := now }
  | .dequeue now garbage =>
      (w.fb.dequeue cfg now garbage).map fun r =>
        { w with
          fb := r.fb
          held := without Placed.node w.held r.taken
          sent := w.sent ++ (takenFrom w.held r.taken).map fun e => (e, now)
          clock := now }

/-- Times are below `2^62`. -/
def Admits (w : World) : Op → Prop
  | .enqueue now pkt _ _ => now < 2 ^ 62 ∧ w.fb.stampOf pkt now < 2 ^ 62
  | .dequeue now _ => now < 2 ^ 62

instance (w : World) : (op : Op) → Decidable (w.Admits op)
  | .enqueue _ _ _ _ => inferInstanceAs (Decidable (_ ∧ _))
  | .dequeue _ _ => inferInstanceAs (Decidable (_ < _))

/-- The clock does not go back. -/
def Ticks (w : World) : Op → Prop
  | .enqueue now _ _ _ => w.clock ≤ now
  | .dequeue now _ => w.clock ≤ now

instance (w : World) : (op : Op) → Decidable (w.Ticks op)
  | .enqueue _ _ _ _ => inferInstanceAs (Decidable (_ ≤ _))
  | .dequeue _ _ => inferInstanceAs (Decidable (_ ≤ _))

/-- The world after `Init`, with any flows and static members. -/
def start (cfg : Config) (now uuid : ℕ) (nodes : ℕ → HBPacketNode) (pktsNum : ℕ → ℕ)
    (flowToGen : CircularQueue) (flowInfo : ℕ → FlowInfo) : World :=
  { fb := FlowBundler.init cfg now uuid nodes pktsNum flowToGen flowInfo
    held := [], sent := [], count := 0, clock := now }

end World

/-- The worlds after `Init`. -/
def World.Initial (cfg : Config) (w : World) : Prop :=
  ∃ now uuid nodes pktsNum flowToGen flowInfo,
    w = World.start cfg now uuid nodes pktsNum flowToGen flowInfo

/-- The worlds reached from `Init` by operations that satisfy `ok`. -/
abbrev Reach (cfg : Config) (ok : World → Op → Prop) : World → Prop :=
  Machine.Reach (World.step cfg) (World.Initial cfg) ok

/-! ### Concrete runs -/

/-- A module after `Init` at clock `0`, with flows of the given rate. -/
def startAt (cfg : Config) (rate : ℕ) : World :=
  World.start cfg 0 7
    (fun _ => { packet := { ptr := 0, totalLen := 0, src := 0, dst := 0 }, flowId := 0
                sendTs := 0, hashId := 0, next := none })
    (fun _ => 0) { size := 1024, headPos := 0, tailPos := 0, memory := fun _ => 0 }
    (fun _ => { lastStamp := 0, rate := rate })

/-- A run from clock `0` whose last world satisfies `p` reaches such a world. -/
lemma exists_reach (cfg : Config) (rate : ℕ) (ok : World → Op → Prop)
    [∀ w op, Decidable (ok w op)] (ops : List Op) (p : World → Prop) [DecidablePred p]
    (h : (Machine.run (World.step cfg) ok (startAt cfg rate) ops).any (fun w => p w) = true) :
    ∃ w, Reach cfg ok w ∧ p w :=
  Machine.exists_reach ⟨0, 7, _, _, _, _, rfl⟩ ops p h

/-- A packet of flow `f`. -/
def packetOf (f ptr : ℕ) : Packet := { ptr := ptr, totalLen := 1500, src := f, dst := 9 }

end Bess
