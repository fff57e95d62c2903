import FlowBundler.Bess.Generator

/-!
`list-bucket.h`: the buckets of the user-space Carousel and Eiffel, and what else both modules
have in common.

* `SlotConfig`: what `Init` takes from its arguments; `FlowInfo.orDefault`: the default rate.
* `SlotEnv`: what the environment answers to a task; `SlotEnv.generated`: its batch.  The
  generator takes its tokens from `HBListBucket::flow_to_gen`, which neither module touches
  otherwise.
* `ListBucket`: the nodes from `head->next` on, and the node count; `Store`: the pool that all
  buckets share, as its number of free nodes, and the static members.
* `enqueuePacket`, `bulkLoop`, `dequeuePacketBulk`: the two operations.
* `enqueuePacket_spec`, `dequeuePacketBulk_spec`: what the operations do to nodes and counts.

A pool gives out a node exactly when it has a free one, and takes back what it gave out: that
is what `MemoryPool` does in `mempool-list.h`.
-/

namespace Bess

/-! ### Configuration and flows -/

/-- The configuration of Carousel and Eiffel; `granularity` is a divisor in both, and there is a
bucket to look at. -/
structure SlotConfig where
  granularity : ℕ
  slots : ℕ
  mempoolSize : ℕ
  maxBytesPerFlow : ℕ
  granularity_pos : 0 < granularity
  granularity_lt : granularity < 2 ^ 32
  slots_pos : 0 < slots
  slots_lt : slots < 2 ^ 64

/-- A flow with the default rate filled in. -/
def FlowInfo.orDefault (info : FlowInfo) (now : ℕ) : FlowInfo :=
  if info.rate = 0 then { lastStamp := now, rate := defaultFlowRate } else info

/-- Eight slots of ten nanoseconds. -/
def smallSlots : SlotConfig :=
  { granularity := 10, slots := 8, mempoolSize := 4, maxBytesPerFlow := 3000
    granularity_pos := by norm_num, granularity_lt := by norm_num, slots_pos := by norm_num
    slots_lt := by norm_num }

/-- A packet of flow `f` of the given length. -/
def packetOfLen (f bytes : ℕ) : Packet := { ptr := 0, totalLen := bytes, src := f, dst := 9 }

/-! ### Tasks -/

/-- What the environment answers to a task. -/
structure SlotEnv where
  childrenOverload : ℕ
  /-- `HBListBucket::flow_to_gen`. -/
  hbFlowToGen : CircularQueue
  /-- The answer of `AllocBulk`. -/
  bulk : Option (ℕ → ℕ × Buffer)
  /-- The clock reading of a round of `Enqueue`. -/
  now : ℕ → ℕ
  dequeueNow : ℕ
  adminUp : Bool
  /-- How many packets of a batch `SendPackets` accepts, if the batch has as many. -/
  accepts : ℕ

/-- The first part of `RunTask`: the batch that is generated and handed to `Enqueue`, with the
clock reading of each round; nothing when there are tokens and `AllocPackets` fails. -/
def SlotEnv.generated (env : SlotEnv) (flowToGen : CircularQueue) (pktgen : PacketGenerator) :
    Option (List (ℕ × Packet)) :=
  if flowToGen.isEmpty then some []
  else
    (pktgen.allocPackets env.hbFlowToGen env.bulk).map fun batch =>
      (pktgen.rewriteUsingSingleTemplate batch env.hbFlowToGen).1.zipIdx.map fun p =>
        (env.now p.2, p.1)

/-- An empty queue of tokens. -/
def noTokens : CircularQueue := { size := 1024, headPos := 0, tailPos := 0, memory := fun _ => 0 }

/-- A generator without templates. -/
def blankGenerator : PacketGenerator :=
  { generateBurst := 32, generatePktSize := 1500
    templates := fun _ => { size := 0, bytes := fun _ => 0 } }

/-- A task at clock `now` on a port that accepts `accepts` packets; the generator has no tokens. -/
def quietTask (now accepts : ℕ) : SlotEnv :=
  { childrenOverload := 0, hbFlowToGen := noTokens
    bulk := some fun i => (i, fun _ => 0), now := fun _ => now, dequeueNow := now
    adminUp := true, accepts := accepts }

/-! ### Buckets -/

/-- A `PacketNode` without its link. -/
structure PacketNode where
  packet : Packet
  flowId : ℕ
  deriving DecidableEq

structure ListBucket where
  nodes : List PacketNode
  nodeNum : ℕ
  deriving DecidableEq

namespace ListBucket

/-- The pool and the static members. -/
structure Store where
  freeNum : ℕ
  pktsNum : ℕ → ℕ
  flowToGen : CircularQueue

def empty : ListBucket := { nodes := [], nodeNum := 0 }

def isEmpty (b : ListBucket) : Bool := b.nodeNum == 0

def enqueuePacket (st : Store) (b : ListBucket) (packet : Packet) (flowId : ℕ) :
    ℤ × Store × ListBucket :=
  if st.freeNum = 0 then (-1, st, b)
  else
    (0,
      { st with
        freeNum := st.freeNum - 1
        pktsNum := Function.update st.pktsNum flowId
          ((st.pktsNum flowId + packet.totalLen) % 2 ^ 64) },
      { nodes := { packet := packet, flowId := flowId } :: b.nodes, nodeNum := b.nodeNum + 1 })

/-- What a node that leaves does to the store. -/
def Store.giveBack (maxBytes : ℕ) (st : Store) (node : PacketNode) : Store :=
  let leftBytes := (st.pktsNum node.flowId + 2 ^ 64 - node.packet.totalLen) % 2 ^ 64
  { pktsNum := Function.update st.pktsNum node.flowId leftBytes
    flowToGen := if leftBytes < maxBytes then (st.flowToGen.push node.flowId).2 else st.flowToGen
    freeNum := st.freeNum + 1 }

/-- The loop of `dequeue_packet_bulk`: the store, the nodes left, those taken and what is left
of the quota. -/
def bulkLoop (maxBytes : ℕ) : ℕ → Store → List PacketNode →
    Store × List PacketNode × List PacketNode × ℕ
  | 0, st, nodes => (st, nodes, [], 0)
  -- the loop would read through a null pointer
  | quota + 1, st, [] => (st, [], [], quota + 1)
  | quota + 1, st, pkt :: nodes =>
      let (st, left, taken, rest) := bulkLoop maxBytes quota (st.giveBack maxBytes pkt) nodes
      (st, left, pkt :: taken, rest)

/-- The outcome of a bulk removal. -/
structure BulkResult where
  store : Store
  bucket : ListBucket
  taken : List PacketNode
  dequeueNum : ℕ

/-- `dequeue_packet_bulk`; `burst` is compared with the node count as an unsigned number. -/
def dequeuePacketBulk (maxBytes : ℕ) (st : Store) (b : ListBucket) (burst : ℤ) : BulkResult :=
  let burst := (burst % 2 ^ 32).toNat
  let quota := if burst > b.nodeNum then b.nodeNum else burst
  if b.nodes = [] then { store := st, bucket := b, taken := [], dequeueNum := 0 }
  else
    let (st, left, taken, rest) := bulkLoop maxBytes quota st b.nodes
    let dequeueNum := quota - rest
    { store := st, bucket := { nodes := left, nodeNum := b.nodeNum - dequeueNum }
      taken := taken, dequeueNum := dequeueNum }

/-! ### What the operations do -/

/-- The node count of a bucket is right. -/
def Counted (b : ListBucket) : Prop := b.nodeNum = b.nodes.length

variable {st : Store} {b : ListBucket}

/-- A bucket either refuses a packet, on an exhausted pool, or takes it in front. -/
lemma enqueuePacket_spec (st : Store) (b : ListBucket) (packet : Packet) (flowId : ℕ) :
    (st.freeNum = 0 ∧ enqueuePacket st b packet flowId = (-1, st, b)) ∨
      ∃ st', enqueuePacket st b packet flowId
        = (0, st', { nodes := { packet := packet, flowId := flowId } :: b.nodes
                     nodeNum := b.nodeNum + 1 }) := by
  rw [enqueuePacket]
  by_cases hfree : st.freeNum = 0
  · rw [if_pos hfree]
    exact .inl ⟨hfree, rfl⟩
  · rw [if_neg hfree]
    exact .inr ⟨_, rfl⟩

/-- The loop takes the first `quota` nodes, by induction on the quota. -/
lemma bulkLoop_spec (maxBytes : ℕ) : ∀ (quota : ℕ) (st : Store) (nodes : List PacketNode),
    quota ≤ nodes.length →
    (bulkLoop maxBytes quota st nodes).2 = (nodes.drop quota, nodes.take quota, 0) := by
  intro quota
  induction quota with
  | zero => exact fun _ _ _ => rfl
  | succ quota ih =>
      intro st nodes hle
      cases nodes with
      | nil => simp at hle
      | cons pkt nodes =>
          have hrest := ih (st.giveBack maxBytes pkt) nodes (by simpa using hle)
          simp only [bulkLoop, hrest, List.drop_succ_cons, List.take_succ_cons]

/-- The number of nodes that a bulk removal takes. -/
def bulkNum (b : ListBucket) (burst : ℤ) : ℕ := min (burst % 2 ^ 32).toNat b.nodes.length

/-- **Bulk removal** takes nodes from the front of the bucket. -/
theorem dequeuePacketBulk_spec (maxBytes : ℕ) (st : Store) (hb : b.Counted) (burst : ℤ) :
    (dequeuePacketBulk maxBytes st b burst).taken = b.nodes.take (bulkNum b burst) ∧
      (dequeuePacketBulk maxBytes st b burst).dequeueNum = bulkNum b burst ∧
      (dequeuePacketBulk maxBytes st b burst).bucket.nodes = b.nodes.drop (bulkNum b burst) ∧
      (dequeuePacketBulk maxBytes st b burst).bucket.Counted := by
  rw [dequeuePacketBulk]
  dsimp only
  by_cases hnil : b.nodes = []
  · rw [if_pos hnil, bulkNum, hnil]
    exact ⟨by simp, by simp, by simp, hb⟩
  · have hquota : (if (burst % 2 ^ 32).toNat > b.nodeNum then b.nodeNum
        else (burst % 2 ^ 32).toNat) = bulkNum b burst := by
      rw [bulkNum, hb]
      split <;> omega
    have hle : bulkNum b burst ≤ b.nodes.length := min_le_right _ _
    have hloop := bulkLoop_spec maxBytes (bulkNum b burst) st b.nodes hle
    simp only [if_neg hnil, hquota, hloop, Nat.sub_zero, Counted, List.length_drop, true_and]
    rw [hb]

end ListBucket

end Bess
