import FlowBundler.Kernel.Run
import FlowBundler.Lib.Chain
import FlowBundler.Lib.Tally

/-!
The calendar represents the list of packets it holds.

* `Repr sch held`: each bucket is the chain of the packets of `held` placed in it, in
  arrival order, with its tail at the last of them; the counters count them and the
  bitmap marks the occupied levels.
* `Linked sch held`: the part of it that speaks of the links only, which holds whatever
  the levels of the packets are.
* `Linked.congr`, `Repr.congr`: the frame rule; only the links of held packets, the
  buckets, the counters and the bitmap matter.
* `push`, `pop_none`, `pop_some` for `Linked` and `Repr`: the two list operations of the
  source on the represented list.

A push writes two nodes, the new packet and the tail of its own bucket.  Neither is in
another bucket, since a packet is in one bucket only and the new one is not held, so the
chains of the other buckets are as before (`push_next_of_ne`); in its own bucket the chain
grows at its end.  The counters and the bitmap of the levels are a tally of the library,
which moves by one at the level of the packet.  A pop takes the first packet of a chain, and
leaves the tail of a drained bucket stale; no field of `Repr` asks for the tail of an empty
bucket.
-/

namespace Dfb

open Ledger Heap

/-! ### Field lemmas -/

namespace Qdisc

variable (sch : Qdisc) (p x : ℕ) (skb : SkBuff) (v : Option ℕ) (loc : DfbLocation) (b : DfbBucket)

@[simp] lemma setSkb_priv : (sch.setSkb p skb).priv = sch.priv := rfl

@[simp] lemma setSkb_mem_self : (sch.setSkb p skb).mem p = skb := by simp [setSkb]

lemma setSkb_mem_of_ne (h : x ≠ p) : (sch.setSkb p skb).mem x = sch.mem x := by
  simp [setSkb, h]

lemma setSkb_next_of_ne (h : x ≠ p) : (sch.setSkb p skb).next x = sch.next x := by
  rw [next, setSkb_mem_of_ne sch p x skb h, next]

@[simp] lemma setNext_next_self : (sch.setNext p v).next p = v := by
  simp [setNext, next]

lemma setNext_next_of_ne (h : x ≠ p) : (sch.setNext p v).next x = sch.next x :=
  setSkb_next_of_ne sch p x _ h

lemma setBucket_mlcq_self :
    (sch.setBucket loc b).priv.mlcq loc.queueId (loc.bucketId &&& bidMask) = b := by
  simp [setBucket]

lemma setBucket_mlcq_of_ne {l i : ℕ} (h : ¬ (l = loc.queueId ∧ i = loc.bucketId &&& bidMask)) :
    (sch.setBucket loc b).priv.mlcq l i = sch.priv.mlcq l i := by
  simp [setBucket, h]

end Qdisc

/-! ### The representation -/

/-- The packets of one bucket, in arrival order. -/
abbrev bucketList (held : List Stored) (l i : ℕ) : List Stored := slot Stored.place held (l, i)

/-- The calendar holds exactly the packets `held`, bucket by bucket in arrival order, and
its counters and bitmap say so. -/
structure Repr (sch : Qdisc) (held : List Stored) : Prop where
  chain : ∀ l i, Chain sch.next (sch.priv.mlcq l i).head ((bucketList held l i).map Stored.ptr)
  tail : ∀ l i, ∀ init last, bucketList held l i = init ++ [last] →
    (sch.priv.mlcq l i).tail = some last.ptr
  nodup : (held.map Stored.ptr).Nodup
  tally : Tally (fun e => e.loc.queueId) held sch.priv.nPacketsTotal sch.priv.nPackets
    sch.priv.bitmap

/-- The links of the calendar hold the packets `held`, bucket by bucket in arrival order. -/
structure Linked (sch : Qdisc) (held : List Stored) : Prop where
  chain : ∀ l i, Chain sch.next (sch.priv.mlcq l i).head ((bucketList held l i).map Stored.ptr)
  tail : ∀ l i, ∀ init last, bucketList held l i = init ++ [last] →
    (sch.priv.mlcq l i).tail = some last.ptr
  nodup : (held.map Stored.ptr).Nodup

namespace Linked

variable {sch sch' : Qdisc} {held : List Stored} {e : Stored} {loc : DfbLocation}

/-- The empty calendar of `dfb_init`. -/
lemma init (sch : Qdisc) (now : ℕ) : Linked (dfbInit sch now) [] where
  chain := fun _ _ => rfl
  tail := fun l i init last h => by simp at h
  nodup := List.nodup_nil

/-- The links depend on the buckets and the links of the held packets only. -/
lemma congr (h : Linked sch held) (hmlcq : sch'.priv.mlcq = sch.priv.mlcq)
    (hnext : ∀ e ∈ held, sch'.next e.ptr = sch.next e.ptr) : Linked sch' held where
  chain := fun l i => by
    rw [hmlcq]
    refine (h.chain l i).congr fun x hx => ?_
    obtain ⟨e, he, rfl⟩ := List.mem_map.mp hx
    exact hnext e (mem_slot.mp he).1
  tail := fun l i init last heq => by rw [hmlcq]; exact h.tail l i init last heq
  nodup := h.nodup

/-- Writing a packet that is not held. -/
lemma setSkb (h : Linked sch held) {p : ℕ} (hp : p ∉ held.map Stored.ptr) (skb : SkBuff) :
    Linked (sch.setSkb p skb) held :=
  h.congr rfl fun _ he => Qdisc.setSkb_next_of_ne _ _ _ _ fun heq =>
    hp (heq ▸ List.mem_map_of_mem he)

lemma ptr_inj (h : Linked sch held) {e e' : Stored} (he : e ∈ held) (he' : e' ∈ held)
    (hp : e.ptr = e'.ptr) : e = e' :=
  List.inj_on_of_nodup_map h.nodup he he' hp

/-- A bucket's head is null exactly when no held packet is placed there. -/
lemma head_eq_none_iff (h : Linked sch held) (l i : ℕ) :
    (sch.priv.mlcq l i).head = none ↔ bucketList held l i = [] := by
  have hc := h.chain l i
  constructor
  · intro hnone
    rw [hnone] at hc
    exact List.map_eq_nil_iff.mp hc.eq_nil
  · intro hnil
    rw [hnil] at hc
    exact hc

end Linked

namespace Repr

variable {sch sch' : Qdisc} {held : List Stored} {e : Stored} {loc : DfbLocation}

lemma linked (h : Repr sch held) : Linked sch held := ⟨h.chain, h.tail, h.nodup⟩

/-- The empty calendar of `dfb_init`. -/
lemma init (sch : Qdisc) (now : ℕ) : Repr (dfbInit sch now) [] where
  chain := fun _ _ => rfl
  tail := fun l i init last h => by simp at h
  nodup := List.nodup_nil
  tally := Tally.nil _

/-- The representation depends on the buckets, the counters, the bitmap and the links of
the held packets only. -/
lemma congr (h : Repr sch held) (hmlcq : sch'.priv.mlcq = sch.priv.mlcq)
    (htotal : sch'.priv.nPacketsTotal = sch.priv.nPacketsTotal)
    (hcount : sch'.priv.nPackets = sch.priv.nPackets)
    (hbits : sch'.priv.bitmap = sch.priv.bitmap)
    (hnext : ∀ e ∈ held, sch'.next e.ptr = sch.next e.ptr) : Repr sch' held := by
  have hl := h.linked.congr hmlcq hnext
  refine ⟨hl.chain, hl.tail, hl.nodup, ?_⟩
  rw [htotal, hcount, hbits]
  exact h.tally

/-- Writing a packet that is not held. -/
lemma setSkb (h : Repr sch held) {p : ℕ} (hp : p ∉ held.map Stored.ptr) (skb : SkBuff) :
    Repr (sch.setSkb p skb) held :=
  h.congr rfl rfl rfl rfl fun _ he => Qdisc.setSkb_next_of_ne _ _ _ _ fun heq =>
    hp (heq ▸ List.mem_map_of_mem he)

/-- `bitmap` is zero exactly when nothing is held. -/
lemma bitmap_eq_zero_iff (h : Repr sch held) : sch.priv.bitmap = 0 ↔ held = [] :=
  h.tally.bitmap_eq_zero_iff

end Repr

/-! ### Pushing -/

section Push

variable {sch : Qdisc} {loc : DfbLocation} {p : ℕ}

@[simp] lemma push_nPackets : (dfbPushToBucket sch loc p).priv.nPackets
    = Function.update sch.priv.nPackets loc.queueId (sch.priv.nPackets loc.queueId + 1) := by
  unfold dfbPushToBucket
  dsimp only
  split <;> (try split) <;> rfl

@[simp] lemma push_nPacketsTotal :
    (dfbPushToBucket sch loc p).priv.nPacketsTotal = sch.priv.nPacketsTotal + 1 := by
  unfold dfbPushToBucket
  dsimp only
  split <;> (try split) <;> rfl

@[simp] lemma push_bitmap :
    (dfbPushToBucket sch loc p).priv.bitmap = sch.priv.bitmap ||| 1 <<< loc.queueId := by
  unfold dfbPushToBucket
  dsimp only
  split <;> (try split) <;> rfl

@[simp] lemma push_headTime : (dfbPushToBucket sch loc p).priv.headTime = sch.priv.headTime := by
  unfold dfbPushToBucket
  dsimp only
  split <;> (try split) <;> rfl

@[simp] lemma push_highestRateQid :
    (dfbPushToBucket sch loc p).priv.highestRateQid = sch.priv.highestRateQid := by
  unfold dfbPushToBucket
  dsimp only
  split <;> (try split) <;> rfl

@[simp] lemma push_q : (dfbPushToBucket sch loc p).q = sch.q := by
  unfold dfbPushToBucket
  dsimp only
  split <;> (try split) <;> rfl

lemma push_mlcq_of_ne {l i : ℕ} (h : ¬ (l = loc.queueId ∧ i = loc.bucketId &&& bidMask)) :
    (dfbPushToBucket sch loc p).priv.mlcq l i = sch.priv.mlcq l i := by
  unfold dfbPushToBucket
  dsimp only
  split
  · exact Qdisc.setBucket_mlcq_of_ne _ _ _ h
  · split <;> exact Qdisc.setBucket_mlcq_of_ne _ _ _ h

/-- Pushing into an empty bucket. -/
lemma push_empty (h : (sch.bucket loc).head = none) :
    (dfbPushToBucket sch loc p).priv.mlcq loc.queueId (loc.bucketId &&& bidMask)
        = ⟨some p, some p⟩ ∧
      (dfbPushToBucket sch loc p).next = (sch.setNext p none).next := by
  have hempty : dfbBucketIsEmpty (sch.bucket loc) = true := by simp [dfbBucketIsEmpty, h]
  unfold dfbPushToBucket
  dsimp only
  rw [if_pos hempty]
  exact ⟨Qdisc.setBucket_mlcq_self _ _ _, rfl⟩

/-- Pushing behind the tail of a non-empty bucket. -/
lemma push_tail {t : ℕ} (h : (sch.bucket loc).head ≠ none) (ht : (sch.bucket loc).tail = some t) :
    (dfbPushToBucket sch loc p).priv.mlcq loc.queueId (loc.bucketId &&& bidMask)
        = ⟨(sch.bucket loc).head, some p⟩ ∧
      (dfbPushToBucket sch loc p).next = ((sch.setNext p none).setNext t (some p)).next := by
  have hempty : ¬ dfbBucketIsEmpty (sch.bucket loc) = true := by
    simpa [dfbBucketIsEmpty, Option.isNone_iff_eq_none] using h
  unfold dfbPushToBucket
  dsimp only
  rw [if_neg hempty, ht]
  exact ⟨Qdisc.setBucket_mlcq_self _ _ _, rfl⟩

end Push

namespace Linked

variable {sch : Qdisc} {held : List Stored} {e : Stored} {loc : DfbLocation}

lemma place_eq_iff {l i : ℕ} :
    (l = e.loc.queueId ∧ i = e.loc.bucketId &&& bidMask) ↔ e.place = (l, i) := by
  simp only [Stored.place, Prod.mk.injEq]
  exact and_congr eq_comm eq_comm

lemma bucketList_append_self :
    bucketList (held ++ [e]) e.loc.queueId (e.loc.bucketId &&& bidMask)
      = bucketList held e.loc.queueId (e.loc.bucketId &&& bidMask) ++ [e] := by
  rw [bucketList, slot_append]
  exact congrArg _ (slot_singleton_self e)

lemma bucketList_append_of_ne {l i : ℕ} (h : e.place ≠ (l, i)) :
    bucketList (held ++ [e]) l i = bucketList held l i := by
  rw [bucketList, slot_append, slot_singleton_of_ne h, List.append_nil]

/-- The links of the other buckets survive a push: the two nodes written are the new
packet and the tail of its own bucket. -/
lemma push_next_of_ne (h : Linked sch held) (hfresh : e.ptr ∉ held.map Stored.ptr) {x : Stored}
    (hx : x ∈ held) (hplace : x.place ≠ e.place) :
    (dfbPushToBucket sch e.loc e.ptr).next x.ptr = sch.next x.ptr := by
  have hne : x.ptr ≠ e.ptr := fun heq => hfresh (heq ▸ List.mem_map_of_mem hx)
  cases hb : (sch.bucket e.loc).head with
  | none =>
      rw [(push_empty hb).2]
      exact Qdisc.setNext_next_of_ne _ _ _ _ hne
  | some y =>
      have hnil : bucketList held e.loc.queueId (e.loc.bucketId &&& bidMask) ≠ [] := fun hn => by
        have hnone := (h.head_eq_none_iff _ _).mpr hn
        rw [Qdisc.bucket, hnone] at hb
        exact absurd hb (by simp)
      obtain ⟨init, last, hlast⟩ := (List.eq_nil_or_concat' _).resolve_left hnil
      have ht := h.tail _ _ init last hlast
      have hmem : last ∈ bucketList held e.loc.queueId (e.loc.bucketId &&& bidMask) := by
        rw [hlast]; simp
      rw [(push_tail (by rw [hb]; simp) ht).2,
        Qdisc.setNext_next_of_ne _ _ _ _ ?_, Qdisc.setNext_next_of_ne _ _ _ _ hne]
      intro heq
      obtain rfl := h.ptr_inj hx (mem_slot.mp hmem).1 heq
      exact hplace (mem_slot.mp hmem).2

/-- The bucket of the pushed packet gains it at its end. -/
lemma push_chain_self (h : Linked sch held) (hfresh : e.ptr ∉ held.map Stored.ptr) :
    Chain (dfbPushToBucket sch e.loc e.ptr).next
        ((dfbPushToBucket sch e.loc e.ptr).priv.mlcq e.loc.queueId
          (e.loc.bucketId &&& bidMask)).head
        ((bucketList held e.loc.queueId (e.loc.bucketId &&& bidMask) ++ [e]).map Stored.ptr) ∧
      ((dfbPushToBucket sch e.loc e.ptr).priv.mlcq e.loc.queueId
        (e.loc.bucketId &&& bidMask)).tail = some e.ptr := by
  set L := bucketList held e.loc.queueId (e.loc.bucketId &&& bidMask) with hL
  have hchain := h.chain e.loc.queueId (e.loc.bucketId &&& bidMask)
  rw [← hL] at hchain
  rcases List.eq_nil_or_concat' L with hnil | ⟨init, last, hlast⟩
  · have hb : (sch.bucket e.loc).head = none := (h.head_eq_none_iff _ _).mpr hnil
    obtain ⟨hm, hn⟩ := push_empty (p := e.ptr) hb
    rw [hm, hn, hnil]
    exact ⟨⟨rfl, by simp⟩, rfl⟩
  · have ht : (sch.bucket e.loc).tail = some last.ptr := h.tail _ _ init last hlast
    have hb : (sch.bucket e.loc).head ≠ none := fun hnone => by
      rw [(h.head_eq_none_iff _ _).mp hnone] at hL
      rw [hL] at hlast
      simp at hlast
    obtain ⟨hm, hn⟩ := push_tail (p := e.ptr) hb ht
    have hmem : ∀ x ∈ L, x ∈ held := fun x hx => (mem_slot.mp (hL ▸ hx)).1
    have hne : ∀ x ∈ L, x.ptr ≠ e.ptr := fun x hx heq =>
      hfresh (heq ▸ List.mem_map_of_mem (hmem x hx))
    have hnd : (L.map Stored.ptr).Nodup := nodup_slot h.nodup
    have hlastmem : last ∈ L := by rw [hlast]; simp
    rw [hm, hn]
    refine ⟨?_, rfl⟩
    rw [hlast, List.map_append, List.map_append]
    rw [hlast, List.map_append] at hchain hnd
    refine hchain.snoc hnd (Qdisc.setNext_next_self _ _ _) ?_ fun x hx => ?_
    · rw [Qdisc.setNext_next_of_ne _ _ _ _ (hne last hlastmem).symm]
      exact Qdisc.setNext_next_self _ _ _
    · obtain ⟨y, hy, rfl⟩ := List.mem_map.mp hx
      have hyL : y ∈ L := by rw [hlast]; exact List.mem_append_left _ hy
      have hyl : y.ptr ≠ last.ptr := fun heq => by
        rw [List.nodup_append] at hnd
        exact hnd.2.2 _ hx _ (by simp) heq
      rw [Qdisc.setNext_next_of_ne _ _ _ _ hyl, Qdisc.setNext_next_of_ne _ _ _ _ (hne y hyL)]

/-- **Push**: storing a fresh packet appends it to the represented list. -/
theorem push (h : Linked sch held) (hfresh : e.ptr ∉ held.map Stored.ptr) :
    Linked (dfbPushToBucket sch e.loc e.ptr) (held ++ [e]) where
  chain := fun l i => by
    by_cases hp : e.place = (l, i)
    · obtain ⟨rfl, rfl⟩ := place_eq_iff.mpr hp
      rw [bucketList_append_self]
      exact (h.push_chain_self hfresh).1
    · rw [bucketList_append_of_ne hp, push_mlcq_of_ne fun hc => hp (place_eq_iff.mp hc)]
      refine (h.chain l i).congr fun x hx => ?_
      obtain ⟨y, hy, rfl⟩ := List.mem_map.mp hx
      obtain ⟨hy, hyp⟩ := mem_slot.mp hy
      exact h.push_next_of_ne hfresh hy fun heq => hp (heq ▸ hyp)
  tail := fun l i init last heq => by
    by_cases hp : e.place = (l, i)
    · obtain ⟨rfl, rfl⟩ := place_eq_iff.mpr hp
      rw [bucketList_append_self] at heq
      obtain rfl : e = last := by simpa using (List.append_inj' heq rfl).2
      exact (h.push_chain_self hfresh).2
    · rw [bucketList_append_of_ne hp] at heq
      rw [push_mlcq_of_ne fun hc => hp (place_eq_iff.mp hc)]
      exact h.tail l i init last heq
  nodup := by
    rw [List.map_append, List.nodup_append]
    refine ⟨h.nodup, by simp, fun a ha b hb heq => hfresh ?_⟩
    obtain rfl : b = e.ptr := by simpa using hb
    exact heq ▸ ha

/-! ### Popping -/

@[simp] lemma pop_highestRateQid (sch : Qdisc) (loc : DfbLocation) :
    (dfbPopFromBucket sch loc).2.priv.highestRateQid = sch.priv.highestRateQid := by
  rw [dfbPopFromBucket]
  split <;> rfl

/-- Popping from a bucket that holds nothing. -/
lemma pop_none (h : Linked sch held)
    (hnil : bucketList held loc.queueId (loc.bucketId &&& bidMask) = []) :
    dfbPopFromBucket sch loc = (none, sch) := by
  have hb : (sch.bucket loc).head = none := (h.head_eq_none_iff _ _).mpr hnil
  rw [dfbPopFromBucket, hb]

/-- What a pop from a bucket with head `p` does, field by field. -/
lemma pop_eq {p : ℕ} (hb : (sch.bucket loc).head = some p) :
    (dfbPopFromBucket sch loc).1 = some p ∧
    (dfbPopFromBucket sch loc).2.next = (sch.setNext p none).next ∧
    (dfbPopFromBucket sch loc).2.priv = { sch.priv with
      mlcq := fun l i => if l = loc.queueId ∧ i = loc.bucketId &&& bidMask then
          ⟨sch.next p, (sch.bucket loc).tail⟩ else sch.priv.mlcq l i
      nPackets := Function.update sch.priv.nPackets loc.queueId
        (sch.priv.nPackets loc.queueId - 1)
      bitmap := if sch.priv.nPackets loc.queueId - 1 = 0 then
          sch.priv.bitmap &&& (2 ^ 64 - 1 - 1 <<< loc.queueId) else sch.priv.bitmap
      nPacketsTotal := sch.priv.nPacketsTotal - 1 } ∧
    (dfbPopFromBucket sch loc).2.q = sch.q := by
  rw [dfbPopFromBucket, hb]
  exact ⟨rfl, rfl, rfl, rfl⟩

/-- **Pop**: the first packet of the bucket is returned and leaves the represented list. -/
theorem pop_some (h : Linked sch held) {rest : List Stored}
    (hL : bucketList held loc.queueId (loc.bucketId &&& bidMask) = e :: rest) :
    (dfbPopFromBucket sch loc).1 = some e.ptr ∧
      Linked (dfbPopFromBucket sch loc).2 (without Stored.ptr held [e.ptr]) := by
  obtain ⟨he, hplace⟩ := mem_slot.mp (show e ∈ bucketList held _ _ by rw [hL]; simp)
  have hchain := h.chain loc.queueId (loc.bucketId &&& bidMask)
  rw [hL, List.map_cons] at hchain
  have hnd : ((e :: rest).map Stored.ptr).Nodup := hL ▸ nodup_slot h.nodup
  obtain ⟨hret, hnext, hpriv, -⟩ := pop_eq (show (sch.bucket loc).head = some e.ptr from hchain.1)
  refine ⟨hret, ?_⟩
  -- in every other bucket nothing is named like `e`
  have hself : bucketList (without Stored.ptr held [e.ptr]) loc.queueId (loc.bucketId &&& bidMask)
      = rest := by
    rw [bucketList, slot_without]
    exact (congrArg (without Stored.ptr · [e.ptr]) hL).trans (without_cons hnd)
  have hother : ∀ l i, ¬ (l = loc.queueId ∧ i = loc.bucketId &&& bidMask) →
      bucketList (without Stored.ptr held [e.ptr]) l i = bucketList held l i := by
    intro l i hne
    rw [bucketList, slot_without]
    refine without_eq_self fun x hx hmem => hne ?_
    obtain ⟨hx, hxp⟩ := mem_slot.mp hx
    obtain rfl := h.ptr_inj hx he (by simpa using hmem)
    rw [hplace, Prod.mk.injEq] at hxp
    exact ⟨hxp.1.symm, hxp.2.symm⟩
  have hframe : ∀ x ∈ held, x.ptr ≠ e.ptr → (dfbPopFromBucket sch loc).2.next x.ptr
      = sch.next x.ptr := fun x _ hx => by
    rw [hnext]
    exact Qdisc.setNext_next_of_ne _ _ _ _ hx
  exact
  { chain := fun l i => by
      have hkeep : ∀ y ∈ bucketList (without Stored.ptr held [e.ptr]) l i,
          (dfbPopFromBucket sch loc).2.next y.ptr = sch.next y.ptr := fun y hy => by
        obtain ⟨hy, hyn⟩ := mem_without.mp (mem_slot.mp hy).1
        exact hframe y hy (by simpa using hyn)
      rw [hpriv]
      dsimp only
      split
      · rename_i hli
        obtain ⟨rfl, rfl⟩ := hli
        have hrest := hchain.2
        rw [← hself] at hrest
        refine hrest.congr fun x hx => ?_
        obtain ⟨y, hy, rfl⟩ := List.mem_map.mp hx
        exact hkeep y hy
      · rename_i hli
        have hold := h.chain l i
        rw [← hother l i hli] at hold
        refine hold.congr fun x hx => ?_
        obtain ⟨y, hy, rfl⟩ := List.mem_map.mp hx
        exact hkeep y hy
    tail := fun l i init last heq => by
      rw [hpriv]
      dsimp only
      split
      · rename_i hli
        obtain ⟨rfl, rfl⟩ := hli
        rw [hself] at heq
        exact h.tail _ _ (e :: init) last (by rw [hL, heq, List.cons_append])
      · rename_i hli
        rw [hother l i hli] at heq
        exact h.tail l i init last heq
    nodup := nodup_without h.nodup }

end Linked

/-! ### The represented list -/

namespace Repr

variable {sch : Qdisc} {held : List Stored} {e : Stored} {loc : DfbLocation}

/-- **Push**: storing a fresh packet appends it to the represented list. -/
theorem push (h : Repr sch held) (hfresh : e.ptr ∉ held.map Stored.ptr)
    (hlev : e.loc.queueId < 64) : Repr (dfbPushToBucket sch e.loc e.ptr) (held ++ [e]) := by
  have hl := h.linked.push hfresh
  refine ⟨hl.chain, hl.tail, hl.nodup, ?_⟩
  rw [push_nPacketsTotal, push_nPackets, push_bitmap]
  exact h.tally.push e hlev

/-- **Pop**: the first packet of the bucket is returned and leaves the represented list. -/
theorem pop_some (h : Repr sch held) {rest : List Stored}
    (hL : bucketList held loc.queueId (loc.bucketId &&& bidMask) = e :: rest) :
    (dfbPopFromBucket sch loc).1 = some e.ptr ∧
      Repr (dfbPopFromBucket sch loc).2 (without Stored.ptr held [e.ptr]) := by
  obtain ⟨hret, hl⟩ := h.linked.pop_some hL
  refine ⟨hret, hl.chain, hl.tail, hl.nodup, ?_⟩
  obtain ⟨he, hplace⟩ := mem_slot.mp (show e ∈ bucketList held _ _ by rw [hL]; simp)
  obtain ⟨hlev, -⟩ := Linked.place_eq_iff.mpr hplace
  have hhead : (sch.bucket loc).head = some e.ptr := by
    have hchain := h.chain loc.queueId (loc.bucketId &&& bidMask)
    rw [hL] at hchain
    exact hchain.1
  have hperm := (perm_named_without Stored.ptr held [e.ptr]).symm
  rw [named_singleton h.nodup he] at hperm
  rw [(Linked.pop_eq hhead).2.2.1]
  exact h.tally.remove hperm (hlev ▸ h.tally.level_lt e he) fun x hx => by
    rw [List.mem_singleton.mp hx, ← hlev]

end Repr

end Dfb
