import FlowBundler.Bess.ListBucket
import FlowBundler.Lib.Machine

/-!
`eiffel.cc` with the bitmaps of `flow.h`: the user-space scheduler with two queues of buckets
that are exchanged on a rotation.

* `BitMap`, `setBitMap`, `freeBitMap`: the layered bitmap; `BitMap.layers`: the loop of its
  constructor, which does not end beyond `2^60` slots.
* `Eiffel`: the state of the module, with the static members of `ListBucket`.
* `ffs`, `adjustRotation`, `dropPacketInsert`, `enqueueOne`, `dequeue`: the functions of the
  module, `Enqueue` by the rounds of its loop; `enqueueOne_frame`: what a round leaves alone.
* `runTask_of_generated`, `runTask_cases`: a task is `Enqueue`, `Dequeue` and the count, or nothing.
* `Op`, `step`: the operations; `init`: the state after `Init`.

Words of a bitmap beyond the end of a layer are words of that layer here.  What the port does
with a batch beyond accepting some of it, and the statistics, do not touch the state.
-/

namespace Bess

/-! ### Bitmaps -/

/-- The words of the layers; layer `0` is a single word. -/
structure BitMap where
  nLayers : ℕ
  bitMap : ℕ → ℕ → ℕ

namespace BitMap

/-- The loop of the constructor: `tmp` is the number of slots that `nLayers` layers have. -/
def layersLoop (slots : ℕ) : ℕ → ℕ → ℕ → Option ℕ
  | 0, _, _ => none
  | fuel + 1, tmp, nLayers =>
      if slots > tmp then layersLoop slots fuel (tmp * 64 % 2 ^ 64) (nLayers + 1) else some nLayers

/-- The number of layers; from the twelfth round on `tmp` is `0`, so that a loop that has not
ended then never does. -/
def layers (slots : ℕ) : Option ℕ :=
  (layersLoop slots 12 1 0).map fun nLayers => if slots = 1 then nLayers + 1 else nLayers

def new (slots : ℕ) : Option BitMap :=
  (layers slots).map fun nLayers => { nLayers := nLayers, bitMap := fun _ _ => 0 }

/-- The place of a bit in the layer above: its word and its position there. -/
def place (layerSeq : ℕ) : ℕ × ℕ :=
  let next := (layerSeq + 1) % 2 ^ 64
  let tail := next &&& 63
  if tail = 0 then ((next >>> 6 + 2 ^ 64 - 1) % 2 ^ 64, 63) else (next >>> 6, tail - 1)

def setWord (m : ℕ → ℕ → ℕ) (i k word : ℕ) : ℕ → ℕ → ℕ :=
  Function.update m i (Function.update (m i) k word)

/-- The loop of `SetBitMap` over the layers below `i`. -/
def setLoop : ℕ → ℕ → (ℕ → ℕ → ℕ) → ℕ → ℕ → ℕ
  | 0, _, m => m
  | i + 1, layerSeq, m =>
      let (k, seq) := place layerSeq
      let old := m i k
      let m := setWord m i k (old ||| 1 <<< seq)
      if old = 0 then setLoop i k m else m

/-- The loop of `FreeBitMap` over the layers below `i`. -/
def freeLoop : ℕ → ℕ → (ℕ → ℕ → ℕ) → ℕ → ℕ → ℕ
  | 0, _, m => m
  | i + 1, layerSeq, m =>
      let (k, seq) := place layerSeq
      let word := m i k &&& (2 ^ 64 - 1 - 1 <<< seq)
      let m := setWord m i k word
      if word ≠ 0 then m else freeLoop i k m

def setBitMap (index : ℕ) (map : BitMap) : BitMap :=
  { map with bitMap := setLoop map.nLayers index map.bitMap }

def freeBitMap (index : ℕ) (map : BitMap) : BitMap :=
  { map with bitMap := freeLoop map.nLayers index map.bitMap }

/-- The descent of `ffs` through the layers from `i` on. -/
def descend (map : BitMap) : ℕ → ℕ → ℕ → ℕ → ℕ
  | 0, _, count, seq => (seq + 2 ^ 64 - 1 + count <<< 6) % 2 ^ 64
  | n + 1, i, count, seq =>
      let count := (seq + 2 ^ 64 - 1 + count <<< 6) % 2 ^ 64
      descend map n (i + 1) count (ffsll (map.bitMap i count))

/-- The index that `ffs` finds in a map with a bit set. -/
def firstIndex (map : BitMap) : ℕ := map.descend (map.nLayers - 1) 1 0 (ffsll (map.bitMap 0 0))

end BitMap

/-! ### The module -/

structure Eiffel where
  mainQueue : ℕ → ListBucket
  bufferQueue : ℕ → ListBucket
  mainMap : BitMap
  bufferMap : BitMap
  store : ListBucket.Store
  flowInfo : ℕ → FlowInfo
  pktgen : PacketGenerator
  maxDequeueBurst : ℤ
  mainTs : ℕ
  bufferTs : ℕ
  packetsNum : ℕ

namespace Eiffel

variable (cfg : SlotConfig)

/-- `horizon_`, a 32-bit number. -/
def horizon : ℕ := cfg.granularity * cfg.slots % 2 ^ 32

/-- `ffs`: the index as an unsigned number and the queue, if some bit is set. -/
def ffs (e : Eiffel) : Option (ℕ × ℕ) :=
  if e.mainMap.bitMap 0 0 ≠ 0 then some (e.mainMap.firstIndex, 0)
  else if e.bufferMap.bitMap 0 0 ≠ 0 then some (e.bufferMap.firstIndex, 1)
  else none

def adjustRotation (e : Eiffel) : Eiffel :=
  { e with
    mainTs := e.bufferTs, bufferTs := (e.bufferTs + horizon cfg) % 2 ^ 64
    mainQueue := e.bufferQueue, bufferQueue := e.mainQueue
    mainMap := e.bufferMap, bufferMap := e.mainMap }

/-! ### Enqueue -/

/-- The outcome of `DropPacketInsert`, with the send time it leaves. -/
structure InsertResult where
  eiffel : Eiffel
  ret : ℤ
  sendTime : ℕ

/-- The main branch of `DropPacketInsert`: the bit is set before the bucket is asked. -/
def insertMain (e : Eiffel) (packet : Packet) (index sendTime flowId : ℕ) : InsertResult :=
  let e := { e with mainMap := e.mainMap.setBitMap index }
  let (ret, store, b) := ListBucket.enqueuePacket e.store (e.mainQueue index) packet flowId
  { eiffel := { e with store := store, mainQueue := Function.update e.mainQueue index b }
    ret := ret, sendTime := sendTime }

/-- The buffer branch of `DropPacketInsert`. -/
def insertBuffer (e : Eiffel) (packet : Packet) (index sendTime flowId : ℕ) : InsertResult :=
  let e := { e with bufferMap := e.bufferMap.setBitMap index }
  let (ret, store, b) := ListBucket.enqueuePacket e.store (e.bufferQueue index) packet flowId
  { eiffel := { e with store := store, bufferQueue := Function.update e.bufferQueue index b }
    ret := ret, sendTime := sendTime }

/-- `Eiffel::DropPacketInsert`. -/
def dropPacketInsert (e : Eiffel) (packet : Packet) (sendTime flowId : ℕ) : InsertResult :=
  if sendTime < e.bufferTs then
    if sendTime < e.mainTs then e.insertMain packet 0 e.mainTs flowId
    else e.insertMain packet ((sendTime - e.mainTs) / cfg.granularity) sendTime flowId
  else if sendTime ≥ (e.mainTs + horizon cfg + horizon cfg) % 2 ^ 64 then
    { eiffel := e, ret := -1, sendTime := sendTime }
  else e.insertBuffer packet ((sendTime - e.bufferTs) / cfg.granularity) sendTime flowId

/-- One round of the loop of `Eiffel::Enqueue`. -/
def enqueueOne (e : Eiffel) (p : ℕ × Packet) : InsertResult :=
  let (now, pkt) := p
  let flowId := pkt.src
  let info := (e.flowInfo flowId).orDefault now
  let e := { e with flowInfo := Function.update e.flowInfo flowId info }
  let stamp := FlowBundler.newStamp info pkt.totalLen now
  let r := e.dropPacketInsert cfg pkt stamp flowId
  -- a packet that was not taken is dropped
  if r.ret < 0 then r
  else
    { r with eiffel := { r.eiffel with
        packetsNum := r.eiffel.packetsNum + 1
        flowInfo := Function.update r.eiffel.flowInfo flowId
          { info with lastStamp := r.sendTime } } }

def enqueue (e : Eiffel) (batch : List (ℕ × Packet)) : Eiffel :=
  batch.foldl (fun e p => (e.enqueueOne cfg p).eiffel) e

/-- `DropPacketInsert` changes buckets, bitmaps and the pool only. -/
lemma dropPacketInsert_frame (e : Eiffel) (packet : Packet) (sendTime flowId : ℕ) :
    ∃ mainQueue bufferQueue mainMap bufferMap store,
      (e.dropPacketInsert cfg packet sendTime flowId).eiffel = { e with
        mainQueue := mainQueue, bufferQueue := bufferQueue
        mainMap := mainMap, bufferMap := bufferMap, store := store } := by
  rw [dropPacketInsert]
  split
  · split <;> exact ⟨_, _, _, _, _, rfl⟩
  · split <;> exact ⟨_, _, _, _, _, rfl⟩

/-- A round changes the flows besides, and counts the packet that it accepts. -/
lemma enqueueOne_frame (e : Eiffel) (p : ℕ × Packet) :
    ∃ mainQueue bufferQueue mainMap bufferMap store flowInfo,
      (e.enqueueOne cfg p).eiffel = { e with
        mainQueue := mainQueue, bufferQueue := bufferQueue
        mainMap := mainMap, bufferMap := bufferMap, store := store, flowInfo := flowInfo
        packetsNum := if (e.enqueueOne cfg p).ret < 0 then e.packetsNum
          else e.packetsNum + 1 } := by
  set e₀ : Eiffel := { e with
    flowInfo := Function.update e.flowInfo p.2.src ((e.flowInfo p.2.src).orDefault p.1) }
  set r := e₀.dropPacketInsert cfg p.2
    (FlowBundler.newStamp ((e.flowInfo p.2.src).orDefault p.1) p.2.totalLen p.1) p.2.src with hr
  obtain ⟨_, _, _, _, _, hdrop⟩ := dropPacketInsert_frame cfg e₀ p.2
    (FlowBundler.newStamp ((e.flowInfo p.2.src).orDefault p.1) p.2.totalLen p.1) p.2.src
  rw [← hr] at hdrop
  by_cases hret : r.ret < 0
  · have hsame : e.enqueueOne cfg p = r := if_pos hret
    rw [hsame, if_pos hret, hdrop]
    exact ⟨_, _, _, _, _, _, rfl⟩
  · have hsame : e.enqueueOne cfg p = { r with eiffel := { r.eiffel with
        packetsNum := r.eiffel.packetsNum + 1
        flowInfo := Function.update r.eiffel.flowInfo p.2.src
          { (e.flowInfo p.2.src).orDefault p.1 with lastStamp := r.sendTime } } } := if_neg hret
    rw [hsame, if_neg hret, hdrop]
    exact ⟨_, _, _, _, _, _, rfl⟩

/-! ### Dequeue -/

/-- The outcome of `Dequeue`: the nodes it removed. -/
structure DequeueResult where
  eiffel : Eiffel
  taken : List PacketNode

/-- The last part of `Dequeue`: the bucket that `ffs` found is served. -/
def serve (e : Eiffel) (index : ℕ) : DequeueResult :=
  let r := ListBucket.dequeuePacketBulk cfg.maxBytesPerFlow e.store (e.mainQueue index)
    e.maxDequeueBurst
  { eiffel := { e with
      store := r.store
      mainQueue := Function.update e.mainQueue index r.bucket
      mainMap := if r.bucket.isEmpty then e.mainMap.freeBitMap index else e.mainMap }
    taken := r.taken }

/-- `Eiffel::Dequeue`. -/
def dequeue (e : Eiffel) (now : ℕ) : DequeueResult :=
  match e.ffs with
  | none =>
      { eiffel := { e with mainTs := now, bufferTs := (now + horizon cfg) % 2 ^ 64 }, taken := [] }
  | some (index, queueId) =>
      let e := if queueId = 1 then e.adjustRotation cfg else e
      let sendTs := (index * cfg.granularity + e.mainTs) % 2 ^ 64
      if sendTs > now then { eiffel := e, taken := [] } else e.serve cfg index

/-! ### Tasks and commands -/

/-- `Eiffel::RunTask` from the call of `Enqueue` on. -/
def afterGenerate (e : Eiffel) (env : SlotEnv) (batch : List (ℕ × Packet)) : Eiffel :=
  let r := (e.enqueue cfg batch).dequeue cfg env.dequeueNow
  -- the whole batch is taken off the count, whatever the port accepts
  if r.taken.length = 0 then r.eiffel
  else if env.adminUp then
    { r.eiffel with packetsNum := r.eiffel.packetsNum - r.taken.length }
  else r.eiffel

/-- `Eiffel::RunTask`. -/
def runTask (e : Eiffel) (env : SlotEnv) : Eiffel :=
  if env.childrenOverload > 0 then e
  else
    match env.generated e.store.flowToGen e.pktgen with
    -- cannot generate packets
    | none => e
    | some batch => e.afterGenerate cfg env batch

/-- A task with a batch: `Enqueue`, `Dequeue` and the count. -/
lemma runTask_of_generated {e : Eiffel} {env : SlotEnv} {batch : List (ℕ × Packet)}
    (hover : env.childrenOverload = 0)
    (hgen : env.generated e.store.flowToGen e.pktgen = some batch) :
    e.runTask cfg env = { ((e.enqueue cfg batch).dequeue cfg env.dequeueNow).eiffel with
      packetsNum := ((e.enqueue cfg batch).dequeue cfg env.dequeueNow).eiffel.packetsNum
        - if env.adminUp then ((e.enqueue cfg batch).dequeue cfg env.dequeueNow).taken.length
          else 0 } := by
  rw [runTask, if_neg (by omega), hgen]
  dsimp only
  rw [afterGenerate]
  split
  · rename_i hzero
    rw [hzero, ite_self, Nat.sub_zero]
  · split <;> rfl

/-- **What a task does**: nothing when there is no batch. -/
lemma runTask_cases (e : Eiffel) (env : SlotEnv) :
    (e.runTask cfg env = e ∧ (env.childrenOverload > 0 ∨
        env.generated e.store.flowToGen e.pktgen = none)) ∨
      ∃ batch, env.childrenOverload = 0 ∧
        env.generated e.store.flowToGen e.pktgen = some batch := by
  by_cases hover : env.childrenOverload > 0
  · exact .inl ⟨by rw [runTask, if_pos hover], .inl hover⟩
  cases hgen : env.generated e.store.flowToGen e.pktgen with
  | none => exact .inl ⟨by rw [runTask, if_neg hover, hgen], .inr rfl⟩
  | some batch => exact .inr ⟨batch, Nat.eq_zero_of_not_pos hover, rfl⟩

/-- `Eiffel::SetMaxDequeueBurst`. -/
def setMaxDequeueBurst (e : Eiffel) (arg : ℤ) : Eiffel :=
  { e with maxDequeueBurst := if arg > kMaxBurst then kMaxBurst else arg }

/-- An operation; `Enqueue` is given its batch with the clock reading of each round. -/
inductive Op where
  | enqueue (batch : List (ℕ × Packet))
  | dequeue (now : ℕ)
  | runTask (env : SlotEnv)
  | setMaxDequeueBurst (arg : ℤ)

def step (e : Eiffel) : Op → Option Eiffel
  | .enqueue batch => some (e.enqueue cfg batch)
  | .dequeue now => some (e.dequeue cfg now).eiffel
  | .runTask env => some (e.runTask cfg env)
  | .setMaxDequeueBurst arg => some (e.setMaxDequeueBurst arg)

/-- The state after `Init` at clock value `now`, with the static members, the flows and the
generator as they are then; the burst is `0` until it is set.  There is none when the
constructor of the bitmaps does not return. -/
def init (now : ℕ) (pktsNum : ℕ → ℕ) (flowToGen : CircularQueue) (flowInfo : ℕ → FlowInfo)
    (pktgen : PacketGenerator) : Option Eiffel :=
  (BitMap.new cfg.slots).map fun map =>
    { mainQueue := fun _ => ListBucket.empty
      bufferQueue := fun _ => ListBucket.empty
      mainMap := map
      bufferMap := map
      store := { freeNum := cfg.mempoolSize, pktsNum := pktsNum, flowToGen := flowToGen }
      flowInfo := flowInfo
      pktgen := pktgen
      maxDequeueBurst := 0
      mainTs := now
      bufferTs := (now + horizon cfg) % 2 ^ 64
      packetsNum := 0 }

/-! ### Concrete runs -/

/-- A module with few slots after `Init` at clock `0` without tokens, with flows of the given
rate. -/
def startAt (rate : ℕ) : Eiffel :=
  (init smallSlots 0 (fun _ => 0) noTokens (fun _ => { lastStamp := 0, rate := rate })
    blankGenerator).get rfl

end Eiffel

end Bess
