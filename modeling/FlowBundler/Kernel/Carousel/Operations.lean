import FlowBundler.Kernel.Carousel.Sched
import FlowBundler.Lib.Shelf

/-!
What the callbacks do to the wheel.

* `Pushes limit gq ps gq'`: the wheel `gq'` is `gq` after the pushes `ps`, each of them below
  the limit; `enqueue_pushes`: an enqueue is such a series, on a wheel that is restarted first
  when it is empty.  `Pushes.invariant` is the rule for them: what one push below the limit keeps,
  an enqueue keeps.
* `Filled gq held`: the buckets hold the packets of `held` in the order of arrival, and the
  counters are right; an instance of the shelf of the library.
* `Dequeued`, `dequeue_cases`: a dequeue of a filled wheel restarts it, turns it, or turns it
  and takes the first packet of the bucket at its head.  That the loop of `get_min_index` ends is
  not needed for this: the cases are about a dequeue that has returned.
* `Filled.step`: every callback keeps the wheel filled, except a reset of a queue that is not
  empty.
* `Queued`: the wheel is filled, and the packets are numbered in the order of arrival.
-/

namespace Carousel

open Gq Ledger

/-! ### Enqueue -/

/-- A series of pushes below the limit. -/
inductive Pushes (limit : ℕ) : GradientQueue → List Pushed → GradientQueue → Prop
  | nil (gq : GradientQueue) : Pushes limit gq [] gq
  | cons {gq gq' : GradientQueue} {ps : List Pushed} (skb : SkBuff)
      (hroom : gq.numOfElements < limit) (h : Pushes limit (gqPush gq skb).1 ps gq') :
      Pushes limit gq ((gqPush gq skb).2 :: ps) gq'

namespace Pushes

variable {limit : ℕ} {gq gq' : GradientQueue} {ps : List Pushed}

lemma singleton (skb : SkBuff) (hroom : gq.numOfElements < limit) :
    Pushes limit gq [(gqPush gq skb).2] (gqPush gq skb).1 :=
  .cons skb hroom (.nil _)

/-- **The invariant rule** for a series of pushes. -/
theorem invariant {I : GradientQueue → List Stored → ℕ → Prop} (h : Pushes limit gq ps gq')
    (hpush : ∀ gq held count skb, gq.numOfElements < limit → I gq held count →
      I (gqPush gq skb).1 (held ++ [{ (gqPush gq skb).2 with seq := count }]) (count + 1)) :
    ∀ {held : List Stored} {count : ℕ}, I gq held count →
      I gq' (held ++ numbered count ps) (count + ps.length) := by
  induction h with
  | nil gq =>
      intro held count hI
      rw [numbered, List.append_nil]
      exact hI
  | @cons gq gq' ps skb hroom hrest ih =>
      intro held count hI
      have hall := ih (hpush gq held count skb hroom hI)
      rw [List.append_assoc] at hall
      rw [List.length_cons, show count + (ps.length + 1) = count + 1 + ps.length by omega]
      exact hall

end Pushes

lemma segmentLoop_pushes {segs : List SkBuff} :
    ∀ {sch : Qdisc}, Pushes sch.limit sch.gq (segmentLoop segs sch).2 (segmentLoop segs sch).1.gq ∧
      (segmentLoop segs sch).1.limit = sch.limit := by
  induction segs with
  | nil => exact fun {sch} => ⟨.nil sch.gq, rfl⟩
  | cons seg segs ih =>
      intro sch
      rw [segmentLoop]
      split
      · exact @ih { sch with qlen := (sch.qlen + 1) % 2 ^ 32 }
      · rename_i hroom
        exact ⟨.cons seg (not_le.mp hroom) (@ih (pushOne sch seg).1).1, (@ih (pushOne sch seg).1).2⟩

/-- The wheel on which an enqueue starts. -/
def opened (gq : GradientQueue) (now : ℕ) : GradientQueue :=
  if gq.numOfElements = 0 then restart gq now else gq

/-- **Enqueue** is a series of pushes. -/
lemma enqueue_pushes (P : Params) (sch : Qdisc) (now : ℕ) (skb : SkBuff) (segs : List SkBuff) :
    Pushes sch.limit (opened sch.gq now) (gqEnqueue P sch now skb segs).pushed
        (gqEnqueue P sch now skb segs).sch.gq ∧
      (gqEnqueue P sch now skb segs).sch.limit = sch.limit := by
  rw [gqEnqueue]
  set sch₀ : Qdisc :=
    if sch.gq.numOfElements = 0 then { sch with gq := restart sch.gq now } else sch
    with hsch₀
  obtain ⟨hgq, hlimit⟩ : sch₀.gq = opened sch.gq now ∧ sch₀.limit = sch.limit := by
    rw [hsch₀, opened]
    split <;> exact ⟨rfl, rfl⟩
  rw [← hgq, ← hlimit]
  dsimp only
  split
  · exact ⟨.nil _, rfl⟩
  rename_i hroom
  have hone : Pushes sch₀.limit sch₀.gq [(pushOne sch₀ skb).2] (pushOne sch₀ skb).1.gq :=
    .singleton skb (not_le.mp hroom)
  split
  · rw [gqSegment]
    split
    · exact ⟨hone, rfl⟩
    · split
      · exact ⟨.nil _, rfl⟩
      · exact segmentLoop_pushes
  · exact ⟨hone, rfl⟩

/-! ### The packets in the wheel -/

/-- The wheel holds exactly the packets `held`. -/
structure Filled (gq : GradientQueue) (held : List Stored) : Prop where
  fifo : Shelf.Fifo (fun e : Stored => e.index) (fun e => e.skb) (shelf gq.mainBuckets) held
  counted : ∀ i, (gq.mainBuckets i).Counted
  total : gq.numOfElements = held.length
  buckets_pos : 0 < gq.numOfBuckets
  index_lt : ∀ e ∈ held, e.index < gq.numOfBuckets

namespace Filled

variable {gq gq' : GradientQueue} {held : List Stored} {count now limit : ℕ}

/-- The packets are in the buckets, whatever the times of the wheel. -/
lemma congr (h : Filled gq held) (hbuckets : gq'.mainBuckets = gq.mainBuckets)
    (htotal : gq'.numOfElements = gq.numOfElements) (hnum : gq'.numOfBuckets = gq.numOfBuckets) :
    Filled gq' held := by
  refine ⟨hbuckets ▸ h.fifo, hbuckets ▸ h.counted, htotal.trans h.total, hnum ▸ h.buckets_pos, ?_⟩
  rw [hnum]
  exact h.index_lt

lemma restart (h : Filled gq held) (now : ℕ) : Filled (restart gq now) held := h.congr rfl rfl rfl

lemma turn (h : Filled gq held) (t : ℕ) : Filled (gq.turn t) held := h.congr rfl rfl rfl

lemma opened (h : Filled gq held) (now : ℕ) : Filled (opened gq now) held := by
  rw [Carousel.opened]
  split
  · exact h.restart now
  · exact h

/-- A bucket has packets exactly when some held packet is placed there. -/
lemma qlen_eq (h : Filled gq held) (i : ℕ) :
    (gq.mainBuckets i).qlen = (slot (fun e : Stored => e.index) held i).length := by
  have hslot := congrArg List.length (h.fifo i)
  rw [List.length_map] at hslot
  exact (h.counted i).trans hslot

/-- A push appends its packet. -/
lemma push (h : Filled gq held) (skb : SkBuff) (seq : ℕ) :
    Filled (gqPush gq skb).1 (held ++ [{ (gqPush gq skb).2 with seq := seq }]) := by
  refine ⟨?_, ?_, ?_, h.buckets_pos, fun e he => ?_⟩
  · have hpush := h.fifo.push { (gqPush gq skb).2 with seq := seq }
    rw [gqPush]
    dsimp only
    rw [shelf_update]
    exact hpush
  · exact (Function.forall_update_iff gq.mainBuckets fun _ b => b.Counted).mpr
      ⟨(h.counted _).add _, fun j _ => h.counted j⟩
  · rw [List.length_append, ← h.total]
    rfl
  · rcases List.mem_append.mp he with he | he
    · exact h.index_lt e he
    · obtain rfl := List.mem_singleton.mp he
      exact Nat.mod_lt _ h.buckets_pos

end Filled

/-! ### Dequeue -/

/-- What a dequeue of a filled wheel can do. -/
inductive Dequeued (sch : Qdisc) (now : ℕ) (r : DequeueResult) : Prop
  /-- The queue is empty. -/
  | restarted (hnum : sch.gq.numOfElements = 0)
      (hsch : r.sch = { sch with gq := restart sch.gq now }) (hskb : r.skb = none)
  /-- The bucket at the new head is empty. -/
  | idle (t : ℕ) (hnum : sch.gq.numOfElements ≠ 0)
      (hseek : Loop.seek now sch.gq.grnlrty (occupied sch.gq) (2 ^ 64) sch.gq.headTs = some t)
      (hfree : occupied sch.gq t = false) (hsch : r.sch = { sch with gq := sch.gq.turn t })
      (hskb : r.skb = none)
  /-- The first packet of the bucket at the new head is taken. -/
  | taken (t : ℕ) (skb : SkBuff) (rest : List SkBuff)
      (hseek : Loop.seek now sch.gq.grnlrty (occupied sch.gq) (2 ^ 64) sch.gq.headTs = some t)
      (hshelf : shelf sch.gq.mainBuckets (timeToIndex sch.gq t) = skb :: rest)
      (hsch : r.sch = { sch with
        gq := { sch.gq.turn t with
          numOfElements := sch.gq.numOfElements - 1
          mainBuckets := Function.update sch.gq.mainBuckets (timeToIndex sch.gq t)
            { packets := rest, qlen := (sch.gq.mainBuckets (timeToIndex sch.gq t)).qlen - 1 } }
        qlen := (sch.qlen + 2 ^ 32 - 1) % 2 ^ 32 })
      (hskb : r.skb = some (skb, timeToIndex sch.gq t))

/-- **Dequeue** of a filled wheel. -/
theorem dequeue_cases {sch : Qdisc} {held : List Stored} {now : ℕ} {r : DequeueResult}
    (h : Filled sch.gq held) (hrun : gqDequeue sch now = some r) : Dequeued sch now r := by
  rw [gqDequeue, Option.map_eq_some_iff] at hrun
  obtain ⟨⟨gq', out⟩, hext, rfl⟩ := hrun
  rw [gqExtract] at hext
  split at hext
  · rename_i hnum
    obtain ⟨rfl, rfl⟩ := Prod.mk.inj (Option.some.inj hext)
    exact .restarted hnum rfl rfl
  · rename_i hnum
    rw [Option.map_eq_some_iff] at hext
    obtain ⟨⟨gq₁, index⟩, hmin, hext⟩ := hext
    rw [getMinIndex, Option.map_eq_some_iff] at hmin
    obtain ⟨t, hseek, hmin⟩ := hmin
    obtain ⟨rfl, rfl⟩ := Prod.mk.inj hmin
    dsimp only at hext
    split at hext
    · rename_i hzero
      obtain ⟨rfl, rfl⟩ := Prod.mk.inj hext
      have hfree : occupied sch.gq t = false := decide_eq_false (not_not.mpr hzero)
      exact .idle t hnum hseek hfree rfl rfl
    · rename_i hqlen
      have hqlen' : (sch.gq.mainBuckets (timeToIndex sch.gq t)).qlen ≠ 0 := hqlen
      cases hshelf : shelf sch.gq.mainBuckets (timeToIndex sch.gq t) with
      | nil =>
          rw [h.counted, ← shelf, hshelf] at hqlen'
          exact absurd rfl hqlen'
      | cons skb rest =>
          have hhead : gqBucketDequeueHead ((sch.gq.turn t).mainBuckets (timeToIndex sch.gq t))
              = (some skb, { packets := rest
                             qlen := (sch.gq.mainBuckets (timeToIndex sch.gq t)).qlen - 1 }) := by
            rw [shelf] at hshelf
            rw [gqBucketDequeueHead, GradientQueue.turn]
            dsimp only
            rw [hshelf]
          rw [hhead] at hext
          obtain ⟨rfl, rfl⟩ := Prod.mk.inj hext
          exact .taken t skb rest hseek hshelf rfl rfl

/-- A dequeue returns when its scan ends. -/
lemma dequeue_isSome {sch : Qdisc} {now t : ℕ}
    (hseek : Loop.seek now sch.gq.grnlrty (occupied sch.gq) (2 ^ 64) sch.gq.headTs = some t) :
    ∃ r, gqDequeue sch now = some r := by
  rw [gqDequeue, gqExtract]
  by_cases hnum : sch.gq.numOfElements = 0
  · rw [if_pos hnum]
    exact ⟨_, rfl⟩
  · rw [if_neg hnum, getMinIndex, hseek]
    exact ⟨_, rfl⟩

namespace Filled

variable {sch : Qdisc} {held : List Stored} {now : ℕ} {r : DequeueResult}

/-- What is left after the first packet of a bucket is taken. -/
lemma take {gq : GradientQueue} (h : Filled gq held) (hnd : (held.map Stored.seq).Nodup)
    {i : ℕ} {skb : SkBuff} {rest : List SkBuff} (hshelf : shelf gq.mainBuckets i = skb :: rest) :
    ∃ e tl, slot (fun e : Stored => e.index) held i = e :: tl ∧ e.skb = skb ∧
      Filled { gq with
        numOfElements := gq.numOfElements - 1
        mainBuckets := Function.update gq.mainBuckets i
          { packets := rest, qlen := (gq.mainBuckets i).qlen - 1 } }
        (without Stored.seq held [e.seq]) := by
  obtain ⟨e, tl, hslot, hval, hfifo⟩ := h.fifo.pop hnd hshelf
  refine ⟨e, tl, hslot, hval, ⟨?_, ?_, ?_, h.buckets_pos, fun x hx =>
    h.index_lt x (mem_without.mp hx).1⟩⟩
  · dsimp only
    rw [shelf_update]
    exact hfifo
  · exact (Function.forall_update_iff gq.mainBuckets fun _ b => b.Counted).mpr
      ⟨(h.counted i).tail hshelf, fun j _ => h.counted j⟩
  · have he : e ∈ held := (mem_slot.mp (hslot ▸ List.mem_cons_self)).1
    have hlen := (perm_named_without Stored.seq held [e.seq]).length_eq
    rw [List.length_append, named_singleton hnd he, List.length_singleton] at hlen
    dsimp only
    rw [h.total]
    omega

end Filled

/-! ### Runs -/

/-- The wheel is filled, and the packets are numbered in the order of arrival. -/
structure Queued (gq : GradientQueue) (sent held : List Stored) (count : ℕ) : Prop where
  filled : Filled gq held
  sorted : held.Pairwise fun a b => a.seq < b.seq
  seq_lt : ∀ e ∈ sent ++ held, e.seq < count

namespace Queued

variable {sch : Qdisc} {gq gq' : GradientQueue} {sent held : List Stored} {count now limit : ℕ}

/-- The queue of `gq_init`, when its loop comes to all buckets. -/
lemma init (hint : numBuckets P ≤ 2 ^ 31) (now : ℕ) {memory : ℕ → GqBucket} :
    Queued (initQdisc P now memory).gq [] [] 0 := by
  have hempty : ∀ i, (initQdisc P now memory).gq.mainBuckets i = .empty := fun i =>
    if_neg fun h => absurd (h.1.trans_lt h.2) (not_lt.mpr hint)
  refine ⟨⟨fun i => ?_, fun i => ?_, rfl, Nat.add_pos_left Nat.one_pos _, by simp⟩, .nil, by simp⟩
  · rw [shelf, hempty]
    rfl
  · rw [hempty]
    rfl

lemma nodup (h : Queued gq sent held count) : (held.map Stored.seq).Nodup := by
  rw [List.Nodup, List.pairwise_map]
  exact h.sorted.imp fun hlt => hlt.ne

lemma push (h : Queued gq sent held count) (skb : SkBuff) :
    Queued (gqPush gq skb).1 sent (held ++ [{ (gqPush gq skb).2 with seq := count }])
      (count + 1) := by
  refine ⟨h.filled.push skb count, ?_, fun e he => ?_⟩
  · refine List.pairwise_append.mpr ⟨h.sorted, List.pairwise_singleton _ _, fun a ha b hb => ?_⟩
    obtain rfl := List.mem_singleton.mp hb
    exact h.seq_lt a (List.mem_append_right _ ha)
  · rw [← List.append_assoc] at he
    rcases List.mem_append.mp he with he | he
    · exact Nat.lt_succ_of_lt (h.seq_lt e he)
    · obtain rfl := List.mem_singleton.mp he
      exact Nat.lt_succ_self count

/-- An enqueue. -/
lemma enqueue {ps : List Pushed} (h : Queued gq sent held count)
    (hps : Pushes limit (opened gq now) ps gq') :
    Queued gq' sent (held ++ numbered count ps) (count + ps.length) :=
  hps.invariant (I := fun gq held count => Queued gq sent held count)
    (fun _ _ _ skb _ hI => hI.push skb) ⟨h.filled.opened now, h.sorted, h.seq_lt⟩

/-- A packet that leaves. -/
lemma leave {e : Stored} (h : Queued gq sent held count) (he : e ∈ held)
    (hfilled : Filled gq' (without Stored.seq held [e.seq])) :
    Queued gq' (sent ++ [e]) (without Stored.seq held [e.seq]) count := by
  refine ⟨hfilled, h.sorted.sublist List.filter_sublist, fun x hx => ?_⟩
  rw [List.append_assoc] at hx
  rcases List.mem_append.mp hx with hx | hx
  · exact h.seq_lt x (List.mem_append_left _ hx)
  · refine h.seq_lt x (List.mem_append_right _ ?_)
    rcases List.mem_append.mp hx with hx | hx
    · exact List.mem_singleton.mp hx ▸ he
    · exact (mem_without.mp hx).1

/-- **What a dequeue returns**: nothing, or the first packet of the bucket at the new head. -/
lemma popped_eq (h : Queued sch.gq sent held count) {r : DequeueResult}
    (hrun : gqDequeue sch now = some r) :
    (r.skb = none ∧ popped held r.skb = [] ∧ Queued r.sch.gq sent held count) ∨
      ∃ t e tl, Loop.seek now sch.gq.grnlrty (occupied sch.gq) (2 ^ 64) sch.gq.headTs = some t ∧
        slot (fun e : Stored => e.index) held (timeToIndex sch.gq t) = e :: tl ∧
        r.skb = some (e.skb, timeToIndex sch.gq t) ∧ popped held r.skb = [e] ∧
        r.sch.gq.headTs = t ∧ r.sch.gq.maxTs = (t + sch.gq.horizon) % 2 ^ 64 ∧
        Queued r.sch.gq (sent ++ [e]) (without Stored.seq held [e.seq]) count := by
  cases dequeue_cases h.filled hrun with
  | restarted hnum hsch hskb =>
      rw [hskb, hsch]
      exact .inl ⟨rfl, rfl, h.filled.restart now, h.sorted, h.seq_lt⟩
  | idle t hnum hseek hfree hsch hskb =>
      rw [hskb, hsch]
      exact .inl ⟨rfl, rfl, h.filled.turn t, h.sorted, h.seq_lt⟩
  | taken t skb rest hseek hshelf hsch hskb =>
      obtain ⟨e, tl, hslot, hval, hfilled⟩ := (h.filled.turn t).take h.nodup hshelf
      have he : e ∈ held := (mem_slot.mp (hslot ▸ List.mem_cons_self)).1
      refine .inr ⟨t, e, tl, hseek, hslot, by rw [hskb, hval], ?_, by rw [hsch]; rfl,
        by rw [hsch]; rfl, ?_⟩
      · rw [hskb, popped, hslot]
        rfl
      · rw [hsch]
        exact h.leave he hfilled

end Queued

end Carousel
