import FlowBundler.Kernel.Invariant

/-!
Conservation and bookkeeping: the counters, the bitmap and the linked lists of the
calendar agree in every run, and no packet is lost or duplicated.

* `perm_buckets`: the held packets are those of the buckets, level by level; the levels and
  the buckets of a level are finitely many slots of the list of held packets.
* `World.Bookkeeping`, `reach_bookkeeping`: all of it together, over every run.  Everything
  but the partition is read off `World.Inv`, with the packets of bucket `i` of level `l` as
  those that the representation puts there.
-/

namespace Dfb

open Ledger Heap

variable {sch : Qdisc} {held : List Stored}

lemma place_snd_lt (e : Stored) : e.place.2 < bucketNum := by
  have hnum : bucketNum = 2 ^ 10 := rfl
  rw [Stored.place, land_bidMask, hnum]
  exact Nat.mod_lt _ (by norm_num)

/-- The packets of all buckets, level by level. -/
def bucketPackets (c : ℕ → ℕ → List Stored) : List Stored :=
  (List.range queueNum).flatMap fun l => (List.range bucketNum).flatMap (c l)

/-- The held packets are those of the buckets. -/
lemma perm_buckets (h : Repr sch held) : held.Perm (bucketPackets (bucketList held)) := by
  have hnd : (List.range queueNum ×ˢ List.range bucketNum).Nodup :=
    List.nodup_range.product List.nodup_range
  have hmem : ∀ e ∈ held, e.place ∈ List.range queueNum ×ˢ List.range bucketNum := by
    intro e he
    refine List.mem_product.mpr ⟨?_, ?_⟩
    · exact List.mem_range.mpr (h.tally.level_lt e he)
    · exact List.mem_range.mpr (place_snd_lt e)
  refine (perm_flatMap_slot hnd hmem).trans (List.Perm.of_eq ?_)
  simp only [bucketPackets, SProd.sprod, List.product, List.flatMap_assoc, List.flatMap_map]

/-- What the calendar of a world says about itself, with `c l i` the packets of bucket `i`
of level `l`. -/
structure World.Bookkeeping (w : World) (c : ℕ → ℕ → List Stored) : Prop where
  /-- Following the links from the head of a bucket visits its packets. -/
  chain : ∀ l i, Chain w.sch.next (w.sch.priv.mlcq l i).head ((c l i).map Stored.ptr)
  /-- The tail of a non-empty bucket is its last packet. -/
  tail : ∀ l i init last, c l i = init ++ [last] → (w.sch.priv.mlcq l i).tail = some last.ptr
  level_count : ∀ l, w.sch.priv.nPackets l = ∑ i ∈ Finset.range bucketNum, (c l i).length
  total_count : w.sch.priv.nPacketsTotal = ∑ l ∈ Finset.range queueNum, w.sch.priv.nPackets l
  bitmap_iff : ∀ l, w.sch.priv.bitmap.testBit l = true ↔ 0 < w.sch.priv.nPackets l
  /-- No packet is in two places. -/
  distinct : ((bucketPackets c).map Stored.ptr).Nodup
  /-- The pushed packets are the returned ones and those in the buckets. -/
  conserved : w.pushed.Perm (w.returned ++ bucketPackets c)
  out_eq : w.out = w.returned.map Stored.ptr

/-- **Bookkeeping**: in every run, counters, bitmap, links and tails agree, and the packets
pushed are those returned and those in the buckets. -/
theorem reach_bookkeeping {P : Params} {w : World} (hw : Reach P World.Admits w) :
    ∃ c, w.Bookkeeping c := by
  have hinv := reach_inv hw
  have hperm := perm_buckets hinv.repr
  refine ⟨bucketList w.held, ?_⟩
  constructor
  case chain => exact hinv.repr.chain
  case tail => exact fun l i init last => hinv.repr.tail l i init last
  case level_count => exact hinv.repr.tally.count_eq_sum fun e _ => place_snd_lt e
  case total_count => exact hinv.repr.tally.total_eq_sum
  case bitmap_iff => exact hinv.repr.tally.bits_iff
  case distinct => exact (hperm.map Stored.ptr).nodup_iff.mp hinv.repr.nodup
  case conserved => exact hinv.pushed_perm.trans (hperm.append_left _)
  case out_eq => exact hinv.out_eq

/-- Paced, unpaced, split and dropped packets in one run: of the four packets pushed into
the calendar one was returned. -/
theorem reach_bookkeeping_run :
    ∃ P w, Reach P World.Admits w ∧ w.sch.priv.nPacketsTotal = 3 ∧ w.sch.q = [2] ∧
      w.pushed.length = 4 ∧ w.out = [1] ∧ ∃ c, w.Bookkeeping c := by
  set P : Params := { queueLimit := 3, gsoSplit := true, jhash2 := fun _ _ => 0 }
  set gso : SkBuff := { pacedSkb 1250000000 3000 with len := 4380, isGso := true }
  set seg : SkBuff := { pacedSkb 1250000000 0 with len := 1460 }
  obtain ⟨w, hw, hw'⟩ := exists_reach P World.Admits
    [.enqueue 1 (pacedSkb 125000000 0) [], .dequeue 0 0, .enqueue 2 (pacedSkb 0 0) [],
      .enqueue 3 gso [(4, seg), (5, seg), (6, seg)], .enqueue 7 (pacedSkb 125000000 9) []]
    (fun w => w.sch.priv.nPacketsTotal = 3 ∧ w.sch.q = [2] ∧ w.pushed.length = 4 ∧ w.out = [1])
    (by decide +kernel)
  obtain ⟨htotal, hq, hpushed, hout⟩ := hw'
  exact ⟨P, w, hw, htotal, hq, hpushed, hout, reach_bookkeeping hw⟩

end Dfb
