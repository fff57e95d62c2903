import FlowBundler.Bess.Bookkeeping

/-!
What the operations do to the byte counts of the flows and to `flow_to_gen`.

* `enqueueOne_accounts`: a round of `Enqueue` adds the bytes of the packet that it stores.
* `giveBack`: the two statements of the loop of a bulk removal that account for one packet.
* `dequeueLoop_accounts`, `dequeue_accounts`: a `Dequeue` makes them for the packets that it
  takes out, in order, and for nothing else.

Both lemmas about a `Dequeue` are about the loop: by induction on the quota, each round reads the
length and the flow of one packet of the chain and makes the two statements for it.  Everything
else that a `Dequeue` writes is neither a byte count nor a token.
-/

namespace Bess

open Ledger Heap FlowBundler

/-! ### Enqueue -/

/-- `Insert` leaves byte counts and tokens alone; the node it takes carries the flow. -/
lemma insert_accounts (cfg : Config) (fb : FlowBundler) (packet : Packet)
    (q s flowId hashId : ℕ) :
    (fb.insert cfg packet q s flowId hashId).fb.pktsNum = fb.pktsNum ∧
      (fb.insert cfg packet q s flowId hashId).fb.flowToGen = fb.flowToGen ∧
      ∀ x, (fb.insert cfg packet q s flowId hashId).node = some x →
        (fb.insert cfg packet q s flowId hashId).ret = 0 ∧
        ∃ node : HBPacketNode, node.flowId = flowId ∧
          (fb.insert cfg packet q s flowId hashId).fb.nodes = Function.update fb.nodes x node := by
  rw [FlowBundler.insert, firstPacket_eq]
  dsimp only
  rw [enqueuePacket]
  cases hget : fb.pool.getElement with
  | mk elt pool =>
      cases elt with
      | none => simp
      | some y =>
          refine ⟨rfl, rfl, fun x hx => ⟨rfl, ?_⟩⟩
          obtain rfl : y = x := by simpa using hx
          refine ⟨{ packet := packet, flowId := flowId, sendTs := s, hashId := hashId
                    next := (fb.bucket _).headNext }, rfl, rfl⟩

/-- `Insert` without a node answers `-1` and leaves the nodes alone. -/
lemma insert_refused (cfg : Config) (fb : FlowBundler) (packet : Packet) (q s flowId hashId : ℕ)
    (hnode : (fb.insert cfg packet q s flowId hashId).node = none) :
    (fb.insert cfg packet q s flowId hashId).ret = -1 ∧
      (fb.insert cfg packet q s flowId hashId).fb.nodes = fb.nodes := by
  rw [FlowBundler.insert, firstPacket_eq] at hnode ⊢
  dsimp only at hnode ⊢
  rw [enqueuePacket] at hnode ⊢
  cases hget : fb.pool.getElement with
  | mk elt pool =>
      cases elt with
      | none => simp
      | some y =>
          dsimp only at hnode
          rw [hget] at hnode
          simp at hnode

/-- A round of `Enqueue` leaves the tokens alone; it counts the bytes of a packet that gets a
node, and the node carries the flow. -/
lemma enqueueOne_accounts (cfg : Config) (fb : FlowBundler) (now : ℕ) (pkt : Packet)
    (aggreRate hashId : ℕ) :
    (fb.enqueueOne cfg now pkt aggreRate hashId).fb.flowToGen = fb.flowToGen ∧
      ∀ x, (fb.enqueueOne cfg now pkt aggreRate hashId).node = some x →
        (fb.enqueueOne cfg now pkt aggreRate hashId).fb.pktsNum
          = Function.update fb.pktsNum pkt.src ((fb.pktsNum pkt.src + pkt.totalLen) % 2 ^ 64) ∧
        ∃ node : HBPacketNode, node.flowId = pkt.src ∧
          (fb.enqueueOne cfg now pkt aggreRate hashId).fb.nodes
            = Function.update fb.nodes x node := by
  rw [enqueueOne]
  dsimp only
  set fb₁ : FlowBundler := { fb with
    flowInfo := Function.update fb.flowInfo pkt.src (fb.infoOf pkt.src now)
    highestRateQid := min (findQueueIndex cfg aggreRate) fb.highestRateQid } with hfb₁
  obtain ⟨hbytes, htokens, hnode⟩ := insert_accounts cfg fb₁ pkt (findQueueIndex cfg aggreRate)
    (fb.stampOf pkt now) pkt.src hashId
  split
  · rename_i hret
    refine ⟨htokens, fun x hx => ?_⟩
    rw [(hnode x hx).1] at hret
    exact absurd hret (lt_irrefl 0)
  · refine ⟨htokens, fun x hx => ⟨?_, (hnode x hx).2⟩⟩
    dsimp only
    rw [hbytes]

/-- A round of `Enqueue` whose packet gets no node leaves nodes and byte counts alone. -/
lemma enqueueOne_refused (cfg : Config) (fb : FlowBundler) (now : ℕ) (pkt : Packet)
    (aggreRate hashId : ℕ)
    (hnode : (fb.enqueueOne cfg now pkt aggreRate hashId).node = none) :
    (fb.enqueueOne cfg now pkt aggreRate hashId).fb.nodes = fb.nodes ∧
      (fb.enqueueOne cfg now pkt aggreRate hashId).fb.pktsNum = fb.pktsNum := by
  rw [enqueueOne] at hnode ⊢
  dsimp only at hnode ⊢
  set fb₁ : FlowBundler := { fb with
    flowInfo := Function.update fb.flowInfo pkt.src (fb.infoOf pkt.src now)
    highestRateQid := min (findQueueIndex cfg aggreRate) fb.highestRateQid } with hfb₁
  have hrefused := insert_refused cfg fb₁ pkt (findQueueIndex cfg aggreRate) (fb.stampOf pkt now)
    pkt.src hashId
  have hbytes := (insert_accounts cfg fb₁ pkt (findQueueIndex cfg aggreRate) (fb.stampOf pkt now)
    pkt.src hashId).1
  split
  · rename_i hret
    rw [if_pos hret] at hnode
    exact ⟨(hrefused hnode).2, hbytes⟩
  · rename_i hret
    rw [if_neg hret] at hnode
    exact absurd ((hrefused hnode).1 ▸ (by decide : (-1 : ℤ) < 0)) hret

/-! ### Dequeue -/

/-- The byte counts and tokens after the loop of a bulk removal has taken a packet of flow
`e.1` and length `e.2`. -/
def giveBack (maxBytes : ℕ) (s : (ℕ → ℕ) × CircularQueue) (e : ℕ × ℕ) :
    (ℕ → ℕ) × CircularQueue :=
  let leftBytes := (s.1 e.1 + 2 ^ 64 - e.2) % 2 ^ 64
  (Function.update s.1 e.1 leftBytes,
    if leftBytes < maxBytes then (s.2.push e.1).2 else s.2)

/-- What the loop reads of a packet. -/
def FlowBundler.account (fb : FlowBundler) (e : Placed) : ℕ × ℕ :=
  ((fb.nodes e.node).flowId, (fb.nodes e.node).packet.totalLen)

/-- The loop accounts for the first `quota` packets of its chain, by induction on the quota. -/
lemma dequeueLoop_accounts (maxBytes : ℕ) :
    ∀ (quota : ℕ) (L : List Placed) (fb : FlowBundler) (headNext : Option ℕ),
      quota ≤ L.length → Chain fb.next headNext (L.map Placed.node) →
      (dequeueLoop maxBytes quota fb headNext).fb.nodes = fb.nodes ∧
        ((dequeueLoop maxBytes quota fb headNext).fb.pktsNum,
            (dequeueLoop maxBytes quota fb headNext).fb.flowToGen)
          = ((L.take quota).map fb.account).foldl (giveBack maxBytes)
              (fb.pktsNum, fb.flowToGen) := by
  intro quota
  induction quota with
  | zero => exact fun L fb headNext _ _ => ⟨rfl, rfl⟩
  | succ quota ih =>
      intro L fb headNext hle hchain
      cases L with
      | nil => simp at hle
      | cons e L =>
          obtain ⟨rfl, hrest⟩ := hchain
          rw [dequeueLoop]
          dsimp only
          set fb₁ : FlowBundler := { fb with
            flowToGen := if (fb.pktsNum (fb.nodes e.node).flowId + 2 ^ 64
                - (fb.nodes e.node).packet.totalLen) % 2 ^ 64 < maxBytes then
              (fb.flowToGen.push (fb.nodes e.node).flowId).2 else fb.flowToGen
            pktsNum := Function.update fb.pktsNum (fb.nodes e.node).flowId
              ((fb.pktsNum (fb.nodes e.node).flowId + 2 ^ 64
                - (fb.nodes e.node).packet.totalLen) % 2 ^ 64)
            pool := (fb.pool.putElement (some e.node)).2 } with hfb₁
          obtain ⟨hnodes, haccount⟩ := ih L fb₁ (fb.nodes e.node).next (by simpa using hle) hrest
          refine ⟨hnodes, haccount.trans ?_⟩
          rw [List.take_succ_cons, List.map_cons, List.foldl_cons]
          rfl

/-- The bulk removal from a non-empty bucket. -/
lemma bulk_accounts {n : ℕ} {fb : FlowBundler} {held : List Placed} {loc : Location}
    (h : Repr n fb held) (cfg : Config) (hne : bucketList held loc ≠ []) :
    (fb.dequeuePacketBulk cfg loc).1.fb.nodes = fb.nodes ∧
      ((fb.dequeuePacketBulk cfg loc).1.fb.pktsNum, (fb.dequeuePacketBulk cfg loc).1.fb.flowToGen)
        = ((Repr.front cfg held loc).map fb.account).foldl (giveBack cfg.maxBytesPerFlow)
            (fb.pktsNum, fb.flowToGen) := by
  have hchain := h.buckets.chain loc
  have hhead : (fb.bucket loc).headNext ≠ none := fun hnone => by
    rw [hnone] at hchain
    exact hne (List.reverse_eq_nil_iff.mp (List.map_eq_nil_iff.mp hchain.eq_nil))
  rw [dequeuePacketBulk]
  dsimp only
  rw [if_neg hhead, h.buckets.node_num]
  exact dequeueLoop_accounts cfg.maxBytesPerFlow _ _ fb _
    (by rw [List.length_reverse]; exact min_le_right _ _) hchain

/-- **`Dequeue`** accounts for the packets that it takes out, in order. -/
theorem dequeue_accounts {n : ℕ} {cfg : Config} {fb : FlowBundler} {held : List Placed}
    {now garbage : ℕ} (h : Repr n fb held) {r : DequeueResult}
    (hrun : fb.dequeue cfg now garbage = some r) :
    r.fb.nodes = fb.nodes ∧
      (r.fb.pktsNum, r.fb.flowToGen)
        = ((World.takenFrom held r.taken).map fb.account).foldl (giveBack cfg.maxBytesPerFlow)
            (fb.pktsNum, fb.flowToGen) := by
  cases dequeue_returned hrun with
  | empty _ hr =>
      rw [hr]
      exact ⟨rfl, rfl⟩
  | hit b num t _ hround hr =>
      obtain ⟨loc, hloc, hfront, htaken, -⟩ := scanRound_some h hround
      have hne : bucketList held loc ≠ [] := fun hnil => hfront (by simp [Repr.front, hnil])
      rw [hr]
      dsimp only
      rw [htaken, takenFrom_front h]
      -- the round is the bulk removal from the bucket it looks up
      rw [scanRound, ← hloc, if_pos ((h.occupied_iff loc).mpr hne)] at hround
      dsimp only at hround
      split at hround
      · obtain ⟨rfl, -⟩ := Prod.mk.inj (Option.some.inj hround)
        dsimp only
        rw [afterBulk_eq]
        exact bulk_accounts h cfg hne
      · exact absurd hround (by simp)
  | miss t num hr =>
      rw [hr]
      exact ⟨rfl, rfl⟩

end Bess
