import FlowBundler.Bess.ListBucket
import FlowBundler.Lib.Machine
import FlowBundler.Lib.Shelf

/-!
`carousel.cc`: the user-space timing wheel.

* `Carousel`: the state of the module, with the static members of `ListBucket`.
* `insert`, `enqueueOne`, `dequeue`: `Carousel::Insert`, one round of the loop of
  `Carousel::Enqueue`, and `Carousel::Dequeue`; `Returned`: the ways in which `dequeue` returns.
* `World`: the module with the packets it holds and the calls of `Dequeue` so far;
  `World.enqueue`, `World.dequeue`, `World.runTask`: the operations; `World.runTask_cases`: what a
  task does.
* `Reach cfg ok`: the worlds reached by operations that satisfy `ok`.

What the port does with a batch beyond accepting some of it, and the statistics, do not touch the
state.  The packet counters are naturals.

The scan of `Dequeue` is a run of `Loop.whileDue` in steps of one slot number, which stops at the
first bucket with packets or behind the clock.  The head of the wheel is written in each case, also
when nothing was found; it goes one slot further when the bucket that was served is left empty.
-/

namespace Bess

structure Carousel where
  queue : ℕ → ListBucket
  store : ListBucket.Store
  flowInfo : ℕ → FlowInfo
  pktgen : PacketGenerator
  maxDequeueBurst : ℤ
  /-- The number of the granule at the head of the wheel. -/
  headerTs : ℕ
  packetsNum : ℕ

namespace Carousel

variable (cfg : SlotConfig)

/-! ### Enqueue -/

/-- The outcome of `Insert`, with the send time it leaves and the granule it used. -/
structure InsertResult where
  carousel : Carousel
  ret : ℤ
  sendTime : ℕ
  grn : ℕ

/-- `Carousel::Insert`. -/
def insert (c : Carousel) (packet : Packet) (sendTime flowId : ℕ) : InsertResult :=
  let grn := sendTime / cfg.granularity
  if grn > (c.headerTs + cfg.slots - 1) % 2 ^ 64 then
    { carousel := c, ret := -1, sendTime := sendTime, grn := grn }
  else
    let late := grn < c.headerTs
    let grn := if late then c.headerTs else grn
    let sendTime := if late then grn * cfg.granularity % 2 ^ 64 else sendTime
    let index := grn % cfg.slots
    let (ret, store, bucket) := ListBucket.enqueuePacket c.store (c.queue index) packet flowId
    { carousel := { c with store := store, queue := Function.update c.queue index bucket }
      ret := ret, sendTime := sendTime, grn := grn }

/-- An empty wheel is restarted at the clock. -/
def restart (c : Carousel) (now : ℕ) : Carousel :=
  if c.packetsNum = 0 then { c with headerTs := now / cfg.granularity } else c

/-- One round of the loop of `Carousel::Enqueue`. -/
def enqueueOne (c : Carousel) (now : ℕ) (pkt : Packet) : InsertResult :=
  let flowId := pkt.src
  let info := (c.flowInfo flowId).orDefault now
  let c := { c with flowInfo := Function.update c.flowInfo flowId info }
  let stamp := FlowBundler.newStamp info pkt.totalLen now
  let r := (c.restart cfg now).insert cfg pkt stamp flowId
  -- a packet that was not taken is dropped
  if r.ret < 0 then r
  else
    { r with carousel := { r.carousel with
        flowInfo := Function.update r.carousel.flowInfo flowId { info with lastStamp := r.sendTime }
        packetsNum := r.carousel.packetsNum + 1 } }

/-! ### Dequeue -/

/-- The outcome of `Dequeue`: the nodes it removed, and the bucket it served, if any. -/
structure DequeueResult where
  carousel : Carousel
  taken : List PacketNode
  index : Option ℕ

/-- The test of a round of the scan. -/
def occupied (c : Carousel) (t : ℕ) : Option Unit :=
  if (c.queue (t % cfg.slots)).isEmpty then none else some ()

/-- `Carousel::Dequeue`; the answer `none` is a loop that does not end. -/
def dequeue (c : Carousel) (now : ℕ) : Option DequeueResult :=
  let quota := c.maxDequeueBurst
  if quota ≤ 0 then some { carousel := c, taken := [], index := none }
  else
    match Loop.whileDue (now / cfg.granularity) 1 (c.occupied cfg) (2 ^ 64) c.headerTs with
    | none => none
    | some (.inr t) => some { carousel := { c with headerTs := t }, taken := [], index := none }
    | some (.inl (_, t)) =>
        let index := t % cfg.slots
        let r := ListBucket.dequeuePacketBulk cfg.maxBytesPerFlow c.store (c.queue index) quota
        some
          { carousel := { c with
              store := r.store
              queue := Function.update c.queue index r.bucket
              headerTs := if r.bucket.isEmpty then (t + 1) % 2 ^ 64 else t }
            taken := r.taken, index := some index }

/-- The ways in which `Dequeue` returns. -/
inductive Returned (c : Carousel) (now : ℕ) (r : DequeueResult) : Prop
  | idle (hquota : c.maxDequeueBurst ≤ 0) (hr : r = { carousel := c, taken := [], index := none })
  /-- The scan passes the clock. -/
  | passed (t : ℕ) (hquota : 0 < c.maxDequeueBurst)
      (hscan : Loop.whileDue (now / cfg.granularity) 1 (c.occupied cfg) (2 ^ 64) c.headerTs
        = some (.inr t))
      (hr : r = { carousel := { c with headerTs := t }, taken := [], index := none })
  /-- The bucket at the head is served. -/
  | served (t : ℕ) (b : ListBucket.BulkResult) (hquota : 0 < c.maxDequeueBurst)
      (hscan : Loop.whileDue (now / cfg.granularity) 1 (c.occupied cfg) (2 ^ 64) c.headerTs
        = some (.inl ((), t)))
      (hb : ListBucket.dequeuePacketBulk cfg.maxBytesPerFlow c.store (c.queue (t % cfg.slots))
        c.maxDequeueBurst = b)
      (hr : r = { carousel := { c with
                    store := b.store
                    queue := Function.update c.queue (t % cfg.slots) b.bucket
                    headerTs := if b.bucket.isEmpty then (t + 1) % 2 ^ 64 else t }
                  taken := b.taken, index := some (t % cfg.slots) })

lemma dequeue_returned {c : Carousel} {now : ℕ} {r : DequeueResult}
    (h : c.dequeue cfg now = some r) : Returned cfg c now r := by
  rw [dequeue] at h
  dsimp only at h
  split at h
  · rename_i hquota
    exact .idle hquota (Option.some.inj h).symm
  · rename_i hquota
    split at h
    · simp at h
    · rename_i t hscan
      exact .passed t (not_le.mp hquota) hscan (Option.some.inj h).symm
    · rename_i t hscan
      exact .served t _ (not_le.mp hquota) hscan rfl (Option.some.inj h).symm

/-! ### Initialisation -/

/-- `Carousel::SetMaxDequeueBurst`. -/
def setMaxDequeueBurst (c : Carousel) (arg : ℤ) : Carousel :=
  { c with maxDequeueBurst := if arg > kMaxBurst then kMaxBurst else arg }

/-- The state after `Init` at clock value `now`, with the static members, the flows and the
generator as they are then; the burst is `0` until it is set. -/
def init (now : ℕ) (pktsNum : ℕ → ℕ) (flowToGen : CircularQueue) (flowInfo : ℕ → FlowInfo)
    (pktgen : PacketGenerator) : Carousel :=
  { queue := fun _ => ListBucket.empty
    store := { freeNum := cfg.mempoolSize, pktsNum := pktsNum, flowToGen := flowToGen }
    flowInfo := flowInfo
    pktgen := pktgen
    maxDequeueBurst := 0
    headerTs := now / cfg.granularity
    packetsNum := 0 }

/-! ### Runs -/

/-- What `Insert` stored. -/
structure Placed where
  /-- The number of packets accepted before it. -/
  seq : ℕ
  node : PacketNode
  /-- The slot number that `Insert` finally used. -/
  grn : ℕ
  deriving DecidableEq

/-- A call of `Dequeue`: the clock, the burst, what was queued before it, what it removed and
the batch it left. -/
structure Call where
  now : ℕ
  burst : ℤ
  queued : List Placed
  removed : List Placed
  batch : List PacketNode

/-- A module and its history. -/
structure World where
  carousel : Carousel
  /-- What is in the wheel, in the order of acceptance. -/
  held : List Placed
  calls : List Call
  /-- How many packets were accepted. -/
  count : ℕ

/-- An operation; `Enqueue` is given its batch with the clock reading of each round. -/
inductive Op where
  | enqueue (batch : List (ℕ × Packet))
  | dequeue (now : ℕ)
  | runTask (env : SlotEnv)
  | setMaxDequeueBurst (arg : ℤ)

/-- The bucket of a packet. -/
def Placed.index (e : Placed) : ℕ := e.grn % cfg.slots

/-- The packets that leave with the first `n` nodes of a bucket: the latest ones in it. -/
def removed (held : List Placed) (index : Option ℕ) (n : ℕ) : List Placed :=
  match index with
  | none => []
  | some i => (Ledger.slot (Placed.index cfg) held i).reverse.take n

namespace World

/-- One round of `Enqueue`. -/
def enqueueOne (w : World) (p : ℕ × Packet) : World :=
  let r := w.carousel.enqueueOne cfg p.1 p.2
  let placed : List Placed :=
    if r.ret < 0 then []
    else [{ seq := w.count, node := { packet := p.2, flowId := p.2.src }, grn := r.grn }]
  { w with carousel := r.carousel, held := w.held ++ placed, count := w.count + placed.length }

def enqueue (w : World) (batch : List (ℕ × Packet)) : World := batch.foldl (enqueueOne cfg) w

/-- A call of `Dequeue`, with the size of the batch that it leaves. -/
def dequeue (w : World) (now : ℕ) : Option (World × ℕ) :=
  (w.carousel.dequeue cfg now).map fun r =>
    let out := removed cfg w.held r.index r.taken.length
    ({ w with
        carousel := r.carousel
        held := Ledger.without Placed.seq w.held (out.map Placed.seq)
        calls := w.calls ++
          [{ now := now, burst := w.carousel.maxDequeueBurst, queued := w.held, removed := out
             batch := r.taken }] },
      r.taken.length)

/-- The batch that a task hands to `Enqueue`. -/
def generated (w : World) (env : SlotEnv) : Option (List (ℕ × Packet)) :=
  env.generated w.carousel.store.flowToGen w.carousel.pktgen

/-- The packets that the port accepted are taken off the count. -/
def sendPackets (w : World) (env : SlotEnv) (cnt : ℕ) : World :=
  if env.adminUp then
    { w with carousel := { w.carousel with
        packetsNum := w.carousel.packetsNum - min env.accepts cnt } }
  else w

/-- `Carousel::RunTask` from the call of `Enqueue` on. -/
def afterGenerate (w : World) (env : SlotEnv) (batch : List (ℕ × Packet)) : Option World :=
  ((w.enqueue cfg batch).dequeue cfg env.dequeueNow).map fun p => p.1.sendPackets env p.2

/-- `Carousel::RunTask`; `none` when it does not return. -/
def runTask (w : World) (env : SlotEnv) : Option World :=
  if env.childrenOverload > 0 then some w
  else
    match w.generated env with
    -- cannot generate packets
    | none => some w
    | some batch => w.afterGenerate cfg env batch

/-- **What a task does**: nothing when there is no batch. -/
lemma runTask_cases {w w' : World} {env : SlotEnv} (h : w.runTask cfg env = some w') :
    (w' = w ∧ (env.childrenOverload > 0 ∨ w.generated env = none)) ∨
      ∃ batch w₁ cnt, env.childrenOverload = 0 ∧ w.generated env = some batch ∧
        (w.enqueue cfg batch).dequeue cfg env.dequeueNow = some (w₁, cnt) ∧
        w' = w₁.sendPackets env cnt := by
  rw [runTask] at h
  by_cases hover : env.childrenOverload > 0
  · rw [if_pos hover] at h
    exact .inl ⟨(Option.some.inj h).symm, .inl hover⟩
  rw [if_neg hover] at h
  cases hgen : w.generated env with
  | none =>
      rw [hgen] at h
      exact .inl ⟨(Option.some.inj h).symm, .inr rfl⟩
  | some batch =>
      rw [hgen] at h
      obtain ⟨⟨w₁, cnt⟩, hdeq, rfl⟩ := Option.map_eq_some_iff.mp h
      exact .inr ⟨batch, w₁, cnt, Nat.eq_zero_of_not_pos hover, rfl, hdeq, rfl⟩

def step (w : World) : Op → Option World
  | .enqueue batch => some (w.enqueue cfg batch)
  | .dequeue now => (w.dequeue cfg now).map Prod.fst
  | .runTask env => w.runTask cfg env
  | .setMaxDequeueBurst arg => some { w with carousel := w.carousel.setMaxDequeueBurst arg }

/-- The world after `Init`, with any flows, static members and generator. -/
def Initial (w : World) : Prop :=
  ∃ now pktsNum flowToGen flowInfo pktgen, now < 2 ^ 64 ∧
    w = { carousel := init cfg now pktsNum flowToGen flowInfo pktgen
          held := [], calls := [], count := 0 }

end World

/-- The worlds reached from `Init` by operations that satisfy `ok`. -/
abbrev Reach (ok : World → Op → Prop) : World → Prop :=
  Machine.Reach (World.step cfg) (World.Initial cfg) ok

/-! ### Concrete runs -/

/-- A module after `Init` at clock `0` without tokens, with flows of the given rate. -/
def startAt (rate : ℕ) : World :=
  { carousel := init cfg 0 (fun _ => 0)
      noTokens (fun _ => { lastStamp := 0, rate := rate }) blankGenerator
    held := [], calls := [], count := 0 }

/-- A run from clock `0` whose last world satisfies `p` reaches such a world. -/
lemma exists_reach (rate : ℕ) (ok : World → Op → Prop) [∀ w op, Decidable (ok w op)]
    (ops : List Op) (p : World → Prop) [DecidablePred p]
    (h : (Machine.run (World.step cfg) ok (startAt cfg rate) ops).any (fun w => p w) = true) :
    ∃ w, Reach cfg ok w ∧ p w :=
  Machine.exists_reach ⟨0, _, _, _, _, by norm_num, rfl⟩ ops p h

end Carousel

end Bess
