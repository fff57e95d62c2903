import FlowBundler.Bess.Run
import FlowBundler.Lib.Tally

/-!
The module represents the list of packets it holds.

* `Buckets fb held`: each bucket is the chain of the packets of `held` placed in it, the
  latest in front, and its node count is their number.
* `Blocks n pool held`: the blocks of the pool are the nodes of `held` and the free ones.
* `Repr n fb held`: both, and the counters and the bitmap describe `held`.
* `Repr.enqueuePacket_full`, `Repr.enqueuePacket_room`: a push, on an exhausted pool and on
  one with room.
* `dequeueLoop_spec`, `Repr.bulk_spec`: a bulk removal takes the front of a bucket, by
  induction on the quota.

A push writes the node that it takes from the pool, which is in no bucket, and the head of one
bucket; the chains of the others are as before.  The removal follows the links of a bucket as far
as the quota goes and gives the nodes back one by one, which the free stack of the pool takes in
the same order; what is left is the rest of the chain.  The counters and the bitmap are a tally of
the library.  Since the latest packet is in front, the packets taken are the last of the bucket's
list, reversed.
-/

namespace Bess

open Ledger Heap MemoryPool

/-- The link of a node. -/
def FlowBundler.next (fb : FlowBundler) (n : ℕ) : Option ℕ := (fb.nodes n).next

/-- The packets of one bucket, in the order of acceptance. -/
abbrev bucketList (held : List Placed) (loc : Location) : List Placed :=
  slot Placed.loc held loc

/-- Each bucket is the chain of its packets, the latest in front. -/
structure Buckets (fb : FlowBundler) (held : List Placed) : Prop where
  chain : ∀ loc, Chain fb.next (fb.bucket loc).headNext
    ((bucketList held loc).reverse.map Placed.node)
  node_num : ∀ loc, (fb.bucket loc).nodeNum = (bucketList held loc).length
  packet_eq : ∀ e ∈ held, (fb.nodes e.node).packet = e.packet

/-- The `n` blocks of the pool are the nodes of `held` and the free ones. -/
def Blocks (n : ℕ) (pool : MemoryPool) (held : List Placed) : Prop :=
  ∃ free, pool.Free n free ∧ pool.blockNum = free.length ∧
    (held.map Placed.node ++ free).Perm (fullStack n)

/-- The module holds exactly the packets `held`; its pool has `n` blocks. -/
structure Repr (n : ℕ) (fb : FlowBundler) (held : List Placed) : Prop where
  buckets : Buckets fb held
  blocks : Blocks n fb.pool held
  tally : Tally (fun e => e.loc.queueId) held fb.nPacketsTotal fb.nPackets fb.bitmap

lemma nodup_fullStack (n : ℕ) : (fullStack n).Nodup := by
  induction n with
  | zero => exact List.nodup_nil
  | succ n ih =>
      rw [fullStack, List.nodup_cons, mem_fullStack]
      exact ⟨by omega, ih⟩

namespace Blocks

variable {n : ℕ} {pool : MemoryPool} {held : List Placed}

lemma length_le (h : Blocks n pool held) : held.length ≤ n := by
  obtain ⟨free, -, -, hperm⟩ := h
  have hlen := hperm.length_eq
  rw [List.length_append, List.length_map, length_fullStack] at hlen
  omega

lemma nodup (h : Blocks n pool held) : (held.map Placed.node).Nodup := by
  obtain ⟨free, -, -, hperm⟩ := h
  have hnd := hperm.nodup_iff.mpr (nodup_fullStack n)
  exact (List.nodup_append.mp hnd).1

/-- The packets held are the blocks taken from the pool. -/
lemma length_add_blockNum (h : Blocks n pool held) : held.length + pool.blockNum = n := by
  obtain ⟨free, -, hnum, hperm⟩ := h
  have hlen := hperm.length_eq
  rw [List.length_append, List.length_map, length_fullStack] at hlen
  rw [hnum, hlen]

/-- Taking a block for one more packet. -/
lemma getElement (h : Blocks n pool held) (hroom : held.length ≠ n) :
    ∃ x pool', pool.getElement = (some x, pool') ∧ (∀ y ∈ held, y.node ≠ x) ∧
      ∀ e : Placed, e.node = x → Blocks n pool' (held ++ [e]) := by
  have hlen := h.length_add_blockNum
  obtain ⟨free, hfree, hnum, hperm⟩ := h
  cases free with
  | nil =>
      rw [List.length_nil] at hnum
      exact absurd hlen (by omega)
  | cons x free =>
      obtain ⟨hget, hfree', hnum'⟩ := getElement_cons hfree hnum
      refine ⟨x, pool.getElement.2, Prod.ext hget rfl, ?_, ?_⟩
      · intro y hy heq
        have hnd := hperm.nodup_iff.mpr (nodup_fullStack n)
        exact (List.nodup_append.mp hnd).2.2 y.node (List.mem_map_of_mem hy) x (by simp) heq
      · rintro e rfl
        refine ⟨free, hfree', hnum', ?_⟩
        rw [List.map_append, List.append_assoc]
        exact hperm

/-- Giving back the blocks of the packets that leave. -/
lemma giveBack {taken left : List Placed} {free : List ℕ}
    (hperm : (held.map Placed.node ++ free).Perm (fullStack n))
    (hsplit : held.Perm (taken ++ left))
    (hfree : pool.Free n ((taken.map Placed.node).reverse ++ free))
    (hnum : pool.blockNum = ((taken.map Placed.node).reverse ++ free).length) :
    Blocks n pool left := by
  refine ⟨_, hfree, hnum, List.Perm.trans ?_ hperm⟩
  have hmap := (hsplit.map Placed.node).symm
  rw [List.map_append] at hmap
  rw [← List.append_assoc]
  refine List.Perm.append_right free (List.Perm.trans ?_ hmap)
  exact List.perm_append_comm.trans ((List.reverse_perm _).append_right _)

end Blocks

namespace Repr

variable {n : ℕ} {fb fb' : FlowBundler} {held : List Placed} {loc : Location}

/-- The module after `Init`. -/
lemma init (cfg : Config) (now uuid : ℕ) (nodes : ℕ → HBPacketNode) (pktsNum : ℕ → ℕ)
    (flowToGen : CircularQueue) (flowInfo : ℕ → FlowInfo) :
    Repr cfg.mempoolSize (FlowBundler.init cfg now uuid nodes pktsNum flowToGen flowInfo) [] := by
  obtain ⟨hfree, hnum⟩ := free_init cfg.mempoolSize uuid
  exact ⟨⟨fun _ => rfl, fun _ => rfl, by simp⟩,
    ⟨fullStack cfg.mempoolSize, hfree, hnum, List.Perm.refl _⟩, Tally.nil _⟩

/-- The representation depends on the pool, the nodes, the buckets, the counters and the
bitmap only. -/
lemma congr (h : Repr n fb held) (hpool : fb'.pool = fb.pool) (hnodes : fb'.nodes = fb.nodes)
    (hqueue : fb'.mQueue = fb.mQueue) (htotal : fb'.nPacketsTotal = fb.nPacketsTotal)
    (hcount : fb'.nPackets = fb.nPackets) (hbitmap : fb'.bitmap = fb.bitmap) :
    Repr n fb' held := by
  have hnext : fb'.next = fb.next := by
    funext x
    rw [FlowBundler.next, FlowBundler.next, hnodes]
  have hbucket : ∀ loc, fb'.bucket loc = fb.bucket loc := fun loc => by
    rw [FlowBundler.bucket, hqueue, FlowBundler.bucket]
  refine ⟨⟨fun loc => ?_, fun loc => ?_, ?_⟩, ?_, ?_⟩
  · rw [hbucket, hnext]
    exact h.buckets.chain loc
  · rw [hbucket]
    exact h.buckets.node_num loc
  · rw [hnodes]
    exact h.buckets.packet_eq
  · rw [hpool]
    exact h.blocks
  · rw [htotal, hcount, hbitmap]
    exact h.tally

/-- A bucket is empty exactly when no held packet is placed there. -/
lemma isEmpty_iff (h : Repr n fb held) (loc : Location) :
    (fb.bucket loc).isEmpty = true ↔ bucketList held loc = [] := by
  rw [HBListBucket.isEmpty, beq_iff_eq, h.buckets.node_num, List.length_eq_zero_iff]

/-- The test of a scan round. -/
lemma occupied_iff (h : Repr n fb held) (loc : Location) :
    fb.occupied loc = true ↔ bucketList held loc ≠ [] := by
  rw [FlowBundler.occupied, Bool.and_eq_true, Bool.not_eq_true', ← Bool.not_eq_true,
    h.isEmpty_iff, decide_eq_true_eq]
  constructor
  · exact fun hocc => hocc.2
  · intro hne
    obtain ⟨e, he⟩ := List.exists_mem_of_ne_nil _ hne
    obtain ⟨hmem, rfl⟩ := mem_slot.mp he
    exact ⟨h.tally.pos_iff.mpr ⟨e, hmem, rfl⟩, hne⟩

end Repr

/-! ### Pushing -/

namespace FlowBundler

variable (fb : FlowBundler) (loc : Location) (b : HBListBucket)

lemma setBucket_bucket_self : (fb.setBucket loc b).bucket loc = b := by
  simp [setBucket, bucket]

lemma setBucket_bucket_of_ne {loc' : Location} (h : loc' ≠ loc) :
    (fb.setBucket loc b).bucket loc' = fb.bucket loc' := by
  have hne : ¬ (loc'.queueId = loc.queueId ∧ loc'.bucketId = loc.bucketId) := fun hc =>
    h (Location.ext hc.1 hc.2)
  simp [setBucket, bucket, hne]

end FlowBundler

section Push

variable {fb : FlowBundler} {held : List Placed} {e : Placed} {loc : Location}

lemma bucketList_append_self :
    bucketList (held ++ [e]) e.loc = bucketList held e.loc ++ [e] := by
  rw [bucketList, slot_append]
  exact congrArg _ (slot_singleton_self e)

lemma bucketList_append_of_ne (h : loc ≠ e.loc) :
    bucketList (held ++ [e]) loc = bucketList held loc := by
  rw [bucketList, slot_append, slot_singleton_of_ne h.symm, List.append_nil]

/-- The state after a push of the packet `e`, whose node is fresh. -/
def pushed (fb : FlowBundler) (pool : MemoryPool) (e : Placed) (node : HBPacketNode) :
    FlowBundler :=
  ({ fb with pool := pool, nodes := Function.update fb.nodes e.node node }).setBucket e.loc
    { nodeNum := (fb.bucket e.loc).nodeNum + 1, headNext := some e.node }

/-- A push puts the packet in front of its bucket. -/
lemma Buckets.pushed (h : Buckets fb held) (pool : MemoryPool) {node : HBPacketNode}
    (hfresh : ∀ y ∈ held, y.node ≠ e.node) (hpacket : node.packet = e.packet)
    (hlink : node.next = (fb.bucket e.loc).headNext) :
    Buckets (pushed fb pool e node) (held ++ [e]) := by
  have hnodes : ∀ y ∈ held, (Bess.pushed fb pool e node).nodes y.node = fb.nodes y.node :=
    fun y hy => Function.update_of_ne (hfresh y hy) _ _
  have hself : (Bess.pushed fb pool e node).nodes e.node = node := Function.update_self _ _ _
  have hchain : ∀ loc, Chain (Bess.pushed fb pool e node).next (fb.bucket loc).headNext
      ((bucketList held loc).reverse.map Placed.node) := by
    intro loc
    refine (h.chain loc).congr fun x hx => ?_
    obtain ⟨y, hy, rfl⟩ := List.mem_map.mp hx
    rw [FlowBundler.next, hnodes y (mem_slot.mp (List.mem_reverse.mp hy)).1]
    rfl
  have hbucket : (Bess.pushed fb pool e node).bucket e.loc
      = { nodeNum := (fb.bucket e.loc).nodeNum + 1, headNext := some e.node } :=
    FlowBundler.setBucket_bucket_self _ _ _
  have hother : ∀ loc, loc ≠ e.loc →
      (Bess.pushed fb pool e node).bucket loc = fb.bucket loc := fun loc hloc =>
    FlowBundler.setBucket_bucket_of_ne _ _ _ hloc
  refine ⟨fun loc => ?_, fun loc => ?_, fun y hy => ?_⟩
  · by_cases hloc : loc = e.loc
    · subst hloc
      rw [hbucket, bucketList_append_self, List.reverse_append, List.reverse_singleton,
        List.map_append]
      refine ⟨rfl, ?_⟩
      rw [FlowBundler.next, hself, hlink]
      exact hchain e.loc
    · rw [hother loc hloc, bucketList_append_of_ne hloc]
      exact hchain loc
  · by_cases hloc : loc = e.loc
    · subst hloc
      rw [hbucket, bucketList_append_self, List.length_append, ← h.node_num]
      rfl
    · rw [hother loc hloc, bucketList_append_of_ne hloc]
      exact h.node_num loc
  · rcases List.mem_append.mp hy with hy | hy
    · rw [hnodes y hy, h.packet_eq y hy]
    · obtain rfl : y = e := by simpa using hy
      rw [hself, hpacket]

end Push

namespace Repr

variable {n : ℕ} {fb : FlowBundler} {held : List Placed}

/-- On an exhausted pool nothing is stored. -/
lemma enqueuePacket_full (h : Repr n fb held) (hfull : held.length = n) (loc : Location)
    (packet : Packet) (flowId sendTs hashId : ℕ) :
    fb.enqueuePacket loc packet flowId sendTs hashId = (-1, none, fb) := by
  have hnum : fb.pool.blockNum = 0 := by
    have := h.blocks.length_add_blockNum
    omega
  rw [FlowBundler.enqueuePacket, getElement_nil hnum]

/-- **Push**: on a pool with room a free node takes the packet to the front of its bucket. -/
theorem enqueuePacket_room (h : Repr n fb held) (hroom : held.length ≠ n) (loc : Location)
    (packet : Packet) (flowId sendTs hashId : ℕ) :
    ∃ x fb', fb.enqueuePacket loc packet flowId sendTs hashId = (0, some x, fb') ∧
      fb' = { fb with pool := fb'.pool, nodes := fb'.nodes, mQueue := fb'.mQueue } ∧
      ∀ e : Placed, e.node = x → e.packet = packet → e.loc = loc →
        Buckets fb' (held ++ [e]) ∧ Blocks n fb'.pool (held ++ [e]) := by
  obtain ⟨x, pool, hget, hfresh, hblocks⟩ := h.blocks.getElement hroom
  rw [FlowBundler.enqueuePacket, hget]
  refine ⟨x, _, rfl, rfl, ?_⟩
  rintro e rfl rfl rfl
  exact ⟨h.buckets.pushed pool hfresh rfl rfl, hblocks e rfl⟩

end Repr

/-! ### Bulk removal -/

/-- The loop of a bulk removal takes the first `quota` nodes of its chain and returns them
to the pool. -/
lemma dequeueLoop_spec {n : ℕ} (maxBytes : ℕ) :
    ∀ (quota : ℕ) (L : List Placed) (fb : FlowBundler) (headNext : Option ℕ) (free : List ℕ),
      quota ≤ L.length → Chain fb.next headNext (L.map Placed.node) →
      (∀ e ∈ L, (fb.nodes e.node).packet = e.packet) →
      fb.pool.Free n free → fb.pool.blockNum = free.length → (L.map Placed.node).Nodup →
      (∀ e ∈ L, e.node ∉ free ∧ 0 < e.node ∧ e.node ≤ n) →
      ∃ r, FlowBundler.dequeueLoop maxBytes quota fb headNext = r ∧
        r.taken = (L.take quota).map Placed.node ∧ r.batch = (L.take quota).map Placed.packet ∧
        r.quota = 0 ∧ Chain fb.next r.headNext ((L.drop quota).map Placed.node) ∧
        r.fb.pool.Free n (r.taken.reverse ++ free) ∧
        r.fb.pool.blockNum = (r.taken.reverse ++ free).length ∧
        r.fb = { fb with
          pool := r.fb.pool, pktsNum := r.fb.pktsNum, flowToGen := r.fb.flowToGen } := by
  intro quota
  induction quota with
  | zero =>
      intro L fb headNext free _ hchain _ hfree hnum _ _
      exact ⟨_, rfl, rfl, rfl, rfl, hchain, hfree, hnum, rfl⟩
  | succ quota ih =>
      intro L fb headNext free hle hchain hpacket hfree hnum hnd hblock
      cases L with
      | nil => simp at hle
      | cons e L =>
          obtain ⟨rfl, hrest⟩ := hchain
          obtain ⟨hnot, hpos, hn⟩ := hblock e (by simp)
          rw [List.map_cons, List.nodup_cons] at hnd
          obtain ⟨-, hfree', hnum'⟩ := putElement_spec hfree hnum hpos hn hnot
          rw [FlowBundler.dequeueLoop]
          set fb₁ : FlowBundler := { fb with
            flowToGen := if (fb.pktsNum (fb.nodes e.node).flowId + 2 ^ 64
                - (fb.nodes e.node).packet.totalLen) % 2 ^ 64 < maxBytes then
              (fb.flowToGen.push (fb.nodes e.node).flowId).2 else fb.flowToGen
            pktsNum := Function.update fb.pktsNum (fb.nodes e.node).flowId
              ((fb.pktsNum (fb.nodes e.node).flowId + 2 ^ 64
                - (fb.nodes e.node).packet.totalLen) % 2 ^ 64)
            pool := (fb.pool.putElement (some e.node)).2 } with hfb₁
          obtain ⟨r, hr, htaken, hbatch, hquota, hleft, hf, hb, hframe⟩ := ih L fb₁
            (fb.nodes e.node).next (e.node :: free) (by simpa using hle) hrest
            (fun x hx => hpacket x (List.mem_cons_of_mem e hx)) hfree' hnum' hnd.2 fun x hx => by
              obtain ⟨hxf, hx0, hxn⟩ := hblock x (List.mem_cons_of_mem e hx)
              refine ⟨fun hmem => ?_, hx0, hxn⟩
              rcases List.mem_cons.mp hmem with heq | hmem
              · exact hnd.1 (heq ▸ List.mem_map_of_mem hx)
              · exact hxf hmem
          have happ : (e.node :: r.taken).reverse ++ free = r.taken.reverse ++ e.node :: free := by
            rw [List.reverse_cons, List.append_assoc]
            rfl
          refine ⟨_, rfl, ?_, ?_, ?_, ?_, ?_, ?_, ?_⟩ <;> rw [hr] <;> dsimp only
          · rw [htaken]
            rfl
          · rw [hbatch, hpacket e (by simp)]
            rfl
          · exact hquota
          · exact hleft
          · rw [happ]
            exact hf
          · rw [happ]
            exact hb
          · rw [hframe]

/-- The counters, the bitmap and the scan granularity after a bulk removal; the rest stays. -/
lemma afterBulk_eq (fb : FlowBundler) (l k : ℕ) :
    fb.afterBulk l k = { fb with
      nPacketsTotal := fb.nPacketsTotal - k
      nPackets := Function.update fb.nPackets l (fb.nPackets l - k)
      bitmap := if fb.nPackets l - k = 0 then fb.bitmap &&& (2 ^ 64 - 1 - 1 <<< l) else fb.bitmap
      highestRateQid := (fb.afterBulk l k).highestRateQid } := by
  rw [FlowBundler.afterBulk]
  dsimp only
  by_cases hleft : fb.nPackets l - k = 0
  · rw [if_pos hleft, if_pos hleft]
  · rw [if_neg hleft, if_neg hleft]

namespace Repr

variable {n : ℕ} {cfg : Config} {fb : FlowBundler} {held : List Placed} {loc : Location}

/-- The packets a bulk removal takes: the latest ones of the bucket. -/
def front (cfg : Config) (held : List Placed) (loc : Location) : List Placed :=
  (bucketList held loc).reverse.take (min cfg.dequeueBurst (bucketList held loc).length)

lemma mem_front {e : Placed} (he : e ∈ front cfg held loc) : e ∈ held ∧ e.loc = loc :=
  mem_slot.mp (List.mem_reverse.mp (List.mem_of_mem_take he))

lemma length_front :
    (front cfg held loc).length = min cfg.dequeueBurst (bucketList held loc).length := by
  rw [front, List.length_take, List.length_reverse]
  omega

/-- What is left of a bucket after its front is taken. -/
lemma bucketList_without_self (hnd : (held.map Placed.node).Nodup) :
    bucketList (without Placed.node held ((front cfg held loc).map Placed.node)) loc
      = ((bucketList held loc).reverse.drop
          (min cfg.dequeueBurst (bucketList held loc).length)).reverse := by
  have hrev : ((bucketList held loc).reverse.map Placed.node).Nodup := by
    rw [List.map_reverse, List.nodup_reverse]
    exact nodup_slot hnd
  rw [bucketList, slot_without, ← without_take hrev, ← without_reverse, List.reverse_reverse]
  rfl

/-- The other buckets are left alone. -/
lemma bucketList_without_of_ne (hnd : (held.map Placed.node).Nodup) {loc' : Location}
    (h : loc' ≠ loc) :
    bucketList (without Placed.node held ((front cfg held loc).map Placed.node)) loc'
      = bucketList held loc' := by
  rw [bucketList, slot_without]
  refine without_eq_self fun x hx hmem => ?_
  obtain ⟨y, hy, hyx⟩ := List.mem_map.mp hmem
  obtain ⟨hx, hxl⟩ := mem_slot.mp hx
  obtain ⟨hyh, hyl⟩ := mem_front hy
  obtain rfl := List.inj_on_of_nodup_map hnd hyh hx hyx
  exact h (hxl.symm.trans hyl)

/-- The buckets after a removal: the bucket at `loc` starts behind its front, the others and
the nodes stay. -/
lemma buckets_without {fb' : FlowBundler} {b : HBListBucket} (h : Buckets fb held)
    (hnd : (held.map Placed.node).Nodup)
    (hbucket : ∀ loc', fb'.bucket loc' = (fb.setBucket loc b).bucket loc')
    (hnodes : fb'.nodes = fb.nodes)
    (hnum : b.nodeNum = (bucketList held loc).length
      - min cfg.dequeueBurst (bucketList held loc).length)
    (hleft : Chain fb.next b.headNext (((bucketList held loc).reverse.drop
      (min cfg.dequeueBurst (bucketList held loc).length)).map Placed.node)) :
    Buckets fb' (without Placed.node held ((front cfg held loc).map Placed.node)) := by
  have hnext : fb'.next = fb.next := by
    funext x
    rw [FlowBundler.next, hnodes]
    rfl
  refine ⟨fun loc' => ?_, fun loc' => ?_, fun e he => ?_⟩
  · rw [hbucket, hnext]
    by_cases hloc : loc' = loc
    · subst hloc
      rw [FlowBundler.setBucket_bucket_self, bucketList_without_self hnd, List.reverse_reverse]
      exact hleft
    · rw [FlowBundler.setBucket_bucket_of_ne _ _ _ hloc, bucketList_without_of_ne hnd hloc]
      exact h.chain loc'
  · rw [hbucket]
    by_cases hloc : loc' = loc
    · subst hloc
      rw [FlowBundler.setBucket_bucket_self, bucketList_without_self hnd, List.length_reverse,
        List.length_drop, List.length_reverse]
      exact hnum
    · rw [FlowBundler.setBucket_bucket_of_ne _ _ _ hloc, bucketList_without_of_ne hnd hloc]
      exact h.node_num loc'
  · rw [hnodes]
    exact h.packet_eq e (mem_without.mp he).1

/-- The nodes of the front are blocks that are not free. -/
lemma node_bounds {free : List ℕ} (hperm : (held.map Placed.node ++ free).Perm (fullStack n))
    {e : Placed} (he : e ∈ held) : e.node ∉ free ∧ 0 < e.node ∧ e.node ≤ n := by
  have hmem := List.mem_map_of_mem (f := Placed.node) he
  refine ⟨fun hf => ?_, mem_fullStack.mp (hperm.mem_iff.mp (List.mem_append_left _ hmem))⟩
  have hnd := hperm.nodup_iff.mpr (nodup_fullStack n)
  exact (List.nodup_append.mp hnd).2.2 _ hmem _ hf rfl

/-- **Bulk removal** from a non-empty bucket takes its front out of the represented list. -/
theorem bulk_spec (h : Repr n fb held) (cfg : Config) (hne : bucketList held loc ≠ []) :
    ∃ r, fb.dequeuePacketBulk cfg loc = (r, (front cfg held loc).length) ∧
      r.taken = (front cfg held loc).map Placed.node ∧
      r.batch = (front cfg held loc).map Placed.packet ∧
      r.fb.highestRateQid = fb.highestRateQid ∧
      Repr n (r.fb.afterBulk loc.queueId (front cfg held loc).length)
        (without Placed.node held ((front cfg held loc).map Placed.node)) := by
  obtain ⟨free, hfree, hnum, hperm⟩ := h.blocks
  have hnd := h.blocks.nodup
  set L := (bucketList held loc).reverse with hL
  set k := min cfg.dequeueBurst (bucketList held loc).length with hk
  have hmemL : ∀ e ∈ L, e ∈ held := fun e he => (mem_slot.mp (List.mem_reverse.mp he)).1
  have hLnd : (L.map Placed.node).Nodup := by
    rw [hL, List.map_reverse, List.nodup_reverse]
    exact nodup_slot hnd
  have hchain := h.buckets.chain loc
  rw [← hL] at hchain
  have hhead : (fb.bucket loc).headNext ≠ none := fun hnone => by
    rw [hnone] at hchain
    have hnil := List.map_eq_nil_iff.mp hchain.eq_nil
    exact hne (List.reverse_eq_nil_iff.mp hnil)
  have hkL : k ≤ L.length := by
    rw [hL, List.length_reverse]
    exact min_le_right _ _
  obtain ⟨r, hrun, htaken, hbatch, hquota, hleft, hf, hb, hframe⟩ :=
    dequeueLoop_spec cfg.maxBytesPerFlow k L fb (fb.bucket loc).headNext free hkL hchain
      (fun e he => h.buckets.packet_eq e (hmemL e he)) hfree hnum hLnd
      fun e he => node_bounds hperm (hmemL e he)
  have hfront : front cfg held loc = L.take k := rfl
  have hlen : (front cfg held loc).length = k := length_front
  have hperm' : held.Perm (front cfg held loc
      ++ without Placed.node held ((front cfg held loc).map Placed.node)) :=
    perm_append_without hnd (hLnd.of_map.sublist (List.take_sublist k L))
      fun e he => (mem_front he).1
  obtain ⟨e₀, he₀⟩ := List.exists_mem_of_ne_nil _ hne
  obtain ⟨he₀, hloc₀⟩ := mem_slot.mp he₀
  have hlev : loc.queueId < 64 := hloc₀ ▸ h.tally.level_lt e₀ he₀
  have htally := h.tally.remove hperm' hlev fun x hx => by rw [(mem_front hx).2]
  rw [hlen] at htally ⊢
  rw [FlowBundler.dequeuePacketBulk]
  dsimp only
  rw [if_neg hhead, h.buckets.node_num, ← hk, hrun, hquota, Nat.sub_zero]
  refine ⟨_, rfl, htaken, hbatch, by dsimp only; rw [hframe]; rfl, ?_⟩
  set b : HBListBucket :=
    { nodeNum := (bucketList held loc).length - k, headNext := r.headNext } with hbdef
  have hafter := afterBulk_eq (r.fb.setBucket loc b) loc.queueId k
  have hbucket : ∀ loc', ((r.fb.setBucket loc b).afterBulk loc.queueId k).bucket loc'
      = (fb.setBucket loc b).bucket loc' := fun loc' => by
    rw [hafter, hframe]
    rfl
  have hnodes : ((r.fb.setBucket loc b).afterBulk loc.queueId k).nodes = fb.nodes := by
    rw [hafter, hframe]
    rfl
  refine ⟨Repr.buckets_without h.buckets hnd hbucket hnodes rfl hleft, ?_, ?_⟩
  · rw [hafter]
    rw [htaken, ← hfront] at hf hb
    exact Blocks.giveBack hperm hperm' hf hb
  · rw [hafter, hframe]
    exact htally

end Repr

end Bess
