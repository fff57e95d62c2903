import FlowBundler.Kernel.Eiffel.Sched
import FlowBundler.Lib.Shelf
import Mathlib.Data.List.MinMax

/-!
What `sch_eiffel.c` is for: a stable priority queue with a horizon, without buckets and trees.

* `PQueue`: the packets with their keys, and the time where the keys begin.  The keys are on a grid
  of `2 * num_of_buckets` places that begins at `main_ts`.
* `PQueue.place`, `PQueue.push`, `PQueue.enqueue`, `PQueue.dequeue`: its operations.  The packet
  that leaves is the first of the least key, which `List.argmin` finds (`firstLeast_of_least`).
* `PQueue.Ok`: what holds of it in every run: the keys are on the grid, a key is not after the time
  that its packet asked for unless that was past, and a packet was returned before one that had
  arrived before it only with an earlier time.
* `Ok.enqueue`, `Ok.dequeue`: the operations keep it.  A packet that asks for a time before the grid
  is put at its start, one that asks for a time beyond it at its end; still a packet that asks for a
  time that is not earlier gets a key that is not earlier (`le_place`).  A dequeue may move the
  start of the grid on by a horizon, when that is past and no key is before it.
-/

namespace Eiffel

open Gq Ledger

/-- The queue without its arrays. -/
structure PQueue where
  /-- Where the keys begin. -/
  mainTs : ℕ
  /-- What is in the queue, in the order of arrival. -/
  held : List Stored
  /-- What was returned, in order. -/
  sent : List Stored
  count : ℕ

namespace PQueue

/-! ### Operations -/

/-- A packet with its key: its time rounded down to the grid, and not beyond the grid. -/
def place (P : Params) (q : PQueue) (skb : SkBuff) : Pushed :=
  { requested := skb.skbMstampNs
    skb := { skb with
      skbMstampNs := max q.mainTs (min skb.skbMstampNs (q.mainTs + 2 * P.horizonNs)) }
    key := q.mainTs
      + min ((skb.skbMstampNs - q.mainTs) / P.granularity) (2 * numBuckets P - 1) * P.granularity }

def push (P : Params) (q : PQueue) (skb : SkBuff) : PQueue :=
  { q with held := q.held ++ [{ q.place P skb with seq := q.count }], count := q.count + 1 }

/-- An empty queue starts at the clock. -/
def opened (q : PQueue) (now : ℕ) : PQueue := if q.held = [] then { q with mainTs := now } else q

/-- Pushing packets as long as there is room. -/
def pushAll (P : Params) : List SkBuff → PQueue → PQueue × List Pushed
  | [], q => (q, [])
  | skb :: skbs, q =>
      if q.held.length ≥ schLimit then pushAll P skbs q
      else
        let (q', ps) := pushAll P skbs (q.push P skb)
        (q', q.place P skb :: ps)

/-- The packets that an enqueue is about: the segments of a paced packet that is split, or the
packet. -/
def arrivals (P : Params) (skb : SkBuff) (segs : List SkBuff) : List SkBuff :=
  if (P.gsoSplit && skb.isGso) = true ∧ pacingRate skb ≠ 0 then
    segmentTimes (hdrLen skb) (pacingRate skb) segs skb.skbMstampNs
  else [skb]

def enqueue (P : Params) (q : PQueue) (now : ℕ) (skb : SkBuff) (segs : List SkBuff) :
    PQueue × List Pushed :=
  pushAll P (arrivals P skb segs) (q.opened now)

/-- The first packet of the least key. -/
def least (q : PQueue) : Option Stored := q.held.argmin fun e => e.key

/-- The queue after a packet left.  The keys begin a horizon later when that time is past and no
key is before it. -/
def leave (P : Params) (q : PQueue) (now : ℕ) (e : Stored) : PQueue :=
  let held := without Stored.seq q.held [e.seq]
  let bufferTs := q.mainTs + P.horizonNs
  { q with
    mainTs := if bufferTs < now ∧ ∀ x ∈ held, bufferTs ≤ x.key then bufferTs else q.mainTs
    held := held, sent := q.sent ++ [e] }

@[simp] lemma leave_held (P : Params) (q : PQueue) (now : ℕ) (e : Stored) :
    (q.leave P now e).held = without Stored.seq q.held [e.seq] := by
  rw [leave]

@[simp] lemma leave_sent (P : Params) (q : PQueue) (now : ℕ) (e : Stored) :
    (q.leave P now e).sent = q.sent ++ [e] := by
  rw [leave]

@[simp] lemma leave_count (P : Params) (q : PQueue) (now : ℕ) (e : Stored) :
    (q.leave P now e).count = q.count := by
  rw [leave]

/-- The queue after a dequeue, the packet that is returned, and the time to wait for. -/
def dequeue (P : Params) (q : PQueue) (now : ℕ) : PQueue × Option Stored × Option ℕ :=
  match q.least with
  | none => ({ q with mainTs := now }, none, none)
  | some e => if e.key > now then (q, none, some e.key) else (q.leave P now e, some e, none)

/-! ### The invariant -/

/-- What holds in every run. -/
structure Ok (P : Params) (q : PQueue) : Prop where
  keyed : ∀ e ∈ q.held, ∃ j < 2 * numBuckets P, e.key = q.mainTs + j * P.granularity
  stamp : ∀ e ∈ q.held, e.skb.skbMstampNs ≤ e.key + P.granularity
  /-- A key is not after the time asked for, unless that time was past. -/
  raised : ∀ e ∈ q.held, e.key ≤ max e.requested q.mainTs
  mono : q.held.Pairwise fun a b => a.requested ≤ b.requested → a.key ≤ b.key
  sorted : q.held.Pairwise fun a b => a.seq < b.seq
  seq_lt : ∀ e ∈ q.sent ++ q.held, e.seq < q.count
  fair : Shelf.Fair Stored.seq (fun e => e.requested) (q.sent ++ q.held)

/-- A queue at the start. -/
def blank : PQueue := { mainTs := 0, held := [], sent := [], count := 0 }

namespace Ok

variable {P : Params} {q : PQueue}

lemma blank (P : Params) : blank.Ok P :=
  ⟨by simp [PQueue.blank], by simp [PQueue.blank], by simp [PQueue.blank], .nil, .nil,
    by simp [PQueue.blank], .nil⟩

lemma nodup (h : q.Ok P) : (q.held.map Stored.seq).Nodup := by
  rw [List.Nodup, List.pairwise_map]
  exact h.sorted.imp fun hlt => hlt.ne

lemma opened (h : q.Ok P) (now : ℕ) : (q.opened now).Ok P := by
  rw [PQueue.opened]
  split
  · rename_i hnil
    exact ⟨by simp [hnil], by simp [hnil], by simp [hnil], h.mono, h.sorted, h.seq_lt, h.fair⟩
  · exact h

section

variable (hdvd : P.granularity ∣ P.horizonNs) (hnb : 0 < numBuckets P)

include hnb in
lemma granularity_pos : 0 < P.granularity :=
  Nat.pos_of_ne_zero fun hzero => by simp [numBuckets, hzero] at hnb

include hdvd in
lemma horizon_eq : P.horizonNs = numBuckets P * P.granularity := (Nat.div_mul_cancel hdvd).symm

include hdvd hnb in
/-- The stored time of a packet is at most a granule after its key. -/
lemma place_stamp (q : PQueue) (skb : SkBuff) :
    (q.place P skb).skb.skbMstampNs ≤ (q.place P skb).key + P.granularity := by
  have hg := granularity_pos hnb
  rw [place]
  dsimp only
  rcases le_total ((skb.skbMstampNs - q.mainTs) / P.granularity) (2 * numBuckets P - 1)
    with hle | hle
  · rw [min_eq_left hle]
    have hlt : skb.skbMstampNs - q.mainTs
        < (skb.skbMstampNs - q.mainTs) / P.granularity * P.granularity + P.granularity := by
      have := Nat.lt_mul_of_div_lt
        (Nat.lt_succ_self ((skb.skbMstampNs - q.mainTs) / P.granularity)) hg
      rwa [Nat.succ_mul] at this
    omega
  · rw [min_eq_right hle]
    have hend : (2 * numBuckets P - 1) * P.granularity + P.granularity = 2 * P.horizonNs := by
      rw [← Nat.succ_mul, show (2 * numBuckets P - 1).succ = 2 * numBuckets P by omega,
        horizon_eq hdvd, Nat.mul_assoc]
    omega

/-- The key of a packet is not after its time, unless that was past. -/
lemma place_raised (P : Params) (q : PQueue) (skb : SkBuff) :
    (q.place P skb).key ≤ max skb.skbMstampNs q.mainTs := by
  rw [place]
  dsimp only
  have hle : min ((skb.skbMstampNs - q.mainTs) / P.granularity) (2 * numBuckets P - 1)
      * P.granularity ≤ skb.skbMstampNs - q.mainTs :=
    (Nat.mul_le_mul_right _ (min_le_left _ _)).trans (Nat.div_mul_le_self _ _)
  omega

include hnb in
/-- A packet that asks for a time that is not earlier gets a key that is not earlier. -/
lemma le_place {skb : SkBuff} {e : Stored} (h : q.Ok P) (he : e ∈ q.held)
    (hreq : e.requested ≤ skb.skbMstampNs) : e.key ≤ (q.place P skb).key := by
  obtain ⟨j, hj, hkey⟩ := h.keyed e he
  have hraised := h.raised e he
  rw [hkey, place]
  refine Nat.add_le_add_left (Nat.mul_le_mul_right _ (le_min ?_ (by omega))) _
  rw [Nat.le_div_iff_mul_le (granularity_pos hnb)]
  omega

include hdvd hnb in
/-- **A push** keeps the invariant. -/
lemma push (h : q.Ok P) (skb : SkBuff) : (q.push P skb).Ok P := by
  have hforall : ∀ {p : Stored → Prop}, (∀ e ∈ q.held, p e) →
      p { q.place P skb with seq := q.count } → ∀ e ∈ (q.push P skb).held, p e := by
    intro p hold hnew e he
    rcases List.mem_append.mp he with he | he
    · exact hold e he
    · exact List.mem_singleton.mp he ▸ hnew
  refine ⟨hforall h.keyed ?_, hforall h.stamp ?_, hforall h.raised ?_, ?_, ?_, ?_, ?_⟩
  · exact ⟨min _ _, (min_le_right _ _).trans_lt (by omega), rfl⟩
  · exact place_stamp hdvd hnb q skb
  · exact place_raised P q skb
  · refine List.pairwise_append.mpr ⟨h.mono, List.pairwise_singleton _ _, fun a ha b hb hreq => ?_⟩
    obtain rfl := List.mem_singleton.mp hb
    exact h.le_place hnb ha hreq
  · refine List.pairwise_append.mpr ⟨h.sorted, List.pairwise_singleton _ _, fun a ha b hb => ?_⟩
    obtain rfl := List.mem_singleton.mp hb
    exact h.seq_lt a (List.mem_append_right _ ha)
  · intro e he
    rw [PQueue.push, ← List.append_assoc] at he
    rcases List.mem_append.mp he with he | he
    · exact Nat.lt_succ_of_lt (h.seq_lt e he)
    · obtain rfl := List.mem_singleton.mp he
      exact Nat.lt_succ_self q.count
  · rw [PQueue.push, ← List.append_assoc]
    exact h.fair.arrive h.seq_lt

include hdvd hnb in
/-- **A packet that leaves.** -/
lemma leave {e : Stored} (h : q.Ok P) (hfirst : FirstLeast (fun e : Stored => e.key) q.held e)
    (now : ℕ) : (q.leave P now e).Ok P := by
  have hsub : ∀ x ∈ without Stored.seq q.held [e.seq], x ∈ q.held := fun x hx =>
    (mem_without.mp hx).1
  refine ⟨fun x hx => ?_, fun x hx => h.stamp x (hsub x hx), fun x hx => ?_,
    h.mono.sublist List.filter_sublist, h.sorted.sublist List.filter_sublist, fun x hx => ?_,
    h.fair.serve h.sorted h.mono hfirst⟩
  · obtain ⟨j, hj, hkey⟩ := h.keyed x (hsub x hx)
    rw [PQueue.leave]
    dsimp only
    split
    · -- the key is in the second half of the grid
      rename_i hturn
      have hle := hturn.2 x hx
      rw [hkey, horizon_eq hdvd] at hle
      have hnj : numBuckets P ≤ j :=
        Nat.le_of_mul_le_mul_right (Nat.le_of_add_le_add_left hle)
          (granularity_pos hnb)
      obtain ⟨i, rfl⟩ := Nat.exists_eq_add_of_le hnj
      refine ⟨i, by omega, ?_⟩
      rw [hkey, horizon_eq hdvd]
      ring
    · exact ⟨j, hj, hkey⟩
  · refine (h.raised x (hsub x hx)).trans (max_le_max le_rfl ?_)
    rw [PQueue.leave]
    dsimp only
    split
    · exact Nat.le_add_right _ _
    · exact le_rfl
  · rw [leave_sent, leave_held, List.append_assoc] at hx
    rw [leave_count]
    refine h.seq_lt x ?_
    rcases List.mem_append.mp hx with hx | hx
    · exact List.mem_append_left _ hx
    · refine List.mem_append_right _ ?_
      rcases List.mem_append.mp hx with hx | hx
      · exact List.mem_singleton.mp hx ▸ hfirst.mem
      · exact hsub x hx

include hdvd hnb in
lemma pushAll : ∀ (skbs : List SkBuff) {q : PQueue}, q.Ok P → (pushAll P skbs q).1.Ok P := by
  intro skbs
  induction skbs with
  | nil => exact fun h => h
  | cons skb skbs ih =>
      intro q h
      rw [PQueue.pushAll]
      split
      · exact ih h
      · exact ih (h.push hdvd hnb skb)

include hdvd hnb in
/-- **An enqueue** keeps the invariant. -/
lemma enqueue (h : q.Ok P) (now : ℕ) (skb : SkBuff) (segs : List SkBuff) :
    (q.enqueue P now skb segs).1.Ok P := pushAll hdvd hnb _ (h.opened now)

end

end Ok

/-! ### Dequeue -/

section Dequeue

variable {P : Params} {q : PQueue} {now : ℕ}

lemma least_eq_none : q.least = none ↔ q.held = [] := List.argmin_eq_none

lemma firstLeast_of_least {e : Stored} (h : q.least = some e) :
    FirstLeast (fun e : Stored => e.key) q.held e := firstLeast_of_argmin h

/-- A dequeue of an empty queue. -/
lemma dequeue_of_nil (h : q.held = []) :
    q.dequeue P now = ({ q with mainTs := now }, none, none) := by
  rw [dequeue, least_eq_none.mpr h]

/-- A dequeue before the least key. -/
lemma dequeue_of_lt {e : Stored} (h : q.least = some e) (hlt : now < e.key) :
    q.dequeue P now = (q, none, some e.key) := by
  rw [dequeue, h]
  exact if_pos hlt

/-- A dequeue from the least key on. -/
lemma dequeue_of_le {e : Stored} (h : q.least = some e) (hle : e.key ≤ now) :
    q.dequeue P now = (q.leave P now e, some e, none) := by
  rw [dequeue, h]
  exact if_neg (not_lt.mpr hle)

/-- **A dequeue** keeps the invariant. -/
lemma Ok.dequeue (hdvd : P.granularity ∣ P.horizonNs) (hnb : 0 < numBuckets P) (h : q.Ok P)
    (now : ℕ) : (q.dequeue P now).1.Ok P := by
  cases hleast : q.least with
  | none =>
      have hnil := least_eq_none.mp hleast
      rw [dequeue_of_nil hnil]
      exact ⟨by simp [hnil], by simp [hnil], by simp [hnil], h.mono, h.sorted, h.seq_lt, h.fair⟩
  | some e =>
      rcases Nat.lt_or_ge now e.key with hlt | hle
      · rw [dequeue_of_lt hleast hlt]
        exact h
      · rw [dequeue_of_le hleast hle]
        exact h.leave hdvd hnb (firstLeast_of_least hleast) now

end Dequeue

/-! ### What the operations do to the history -/

section History

variable {P : Params}

/-- Pushing adds what was pushed. -/
lemma pushAll_fst (skbs : List SkBuff) : ∀ q : PQueue, (pushAll P skbs q).1
    = { q with
        held := q.held ++ numbered q.count (pushAll P skbs q).2
        count := q.count + (pushAll P skbs q).2.length } := by
  induction skbs with
  | nil =>
      intro q
      rw [pushAll, numbered, List.append_nil]
      rfl
  | cons skb skbs ih =>
      intro q
      rw [pushAll]
      split
      · exact ih q
      · dsimp only
        rw [ih, numbered, push, List.append_assoc, List.length_cons, Nat.add_assoc, Nat.add_comm 1]
        rfl

lemma enqueue_fst (q : PQueue) (now : ℕ) (skb : SkBuff) (segs : List SkBuff) :
    ∃ t, (q.enqueue P now skb segs).1
      = { mainTs := t, held := q.held ++ numbered q.count (q.enqueue P now skb segs).2
          sent := q.sent, count := q.count + (q.enqueue P now skb segs).2.length } := by
  refine ⟨(q.opened now).mainTs, ?_⟩
  obtain ⟨hheld, hsent, hcount⟩ : (q.opened now).held = q.held ∧ (q.opened now).sent = q.sent ∧
      (q.opened now).count = q.count := by
    rw [opened]
    split <;> exact ⟨rfl, rfl, rfl⟩
  rw [enqueue, pushAll_fst, hheld, hsent, hcount]

lemma dequeue_fst (q : PQueue) (now : ℕ) :
    ∃ t, (q.dequeue P now).1
      = { mainTs := t
          held := without Stored.seq q.held ((q.dequeue P now).2.1.toList.map Stored.seq)
          sent := q.sent ++ (q.dequeue P now).2.1.toList, count := q.count } := by
  have hnone : without Stored.seq q.held [] = q.held := without_eq_self (by simp)
  cases hleast : q.least with
  | none =>
      rw [dequeue_of_nil (least_eq_none.mp hleast)]
      refine ⟨now, ?_⟩
      simp only [Option.toList_none, List.map_nil, List.append_nil, hnone]
  | some e =>
      rcases Nat.lt_or_ge now e.key with hlt | hle
      · rw [dequeue_of_lt hleast hlt]
        refine ⟨q.mainTs, ?_⟩
        simp only [Option.toList_none, List.map_nil, List.append_nil, hnone]
      · rw [dequeue_of_le hleast hle, leave]
        exact ⟨_, rfl⟩

/-- The entry of the packet that is returned is the first of its bucket. -/
lemma popped_dequeue (q : PQueue) (now : ℕ) :
    popped q.held ((q.dequeue P now).2.1.map fun e => (e.skb, e.key))
      = (q.dequeue P now).2.1.toList := by
  cases hleast : q.least with
  | none =>
      rw [dequeue_of_nil (least_eq_none.mp hleast)]
      rfl
  | some e =>
      rcases Nat.lt_or_ge now e.key with hlt | hle
      · rw [dequeue_of_lt hleast hlt]
        rfl
      · obtain ⟨tl, hslot⟩ := (firstLeast_of_least hleast).slot_eq
        rw [dequeue_of_le hleast hle]
        dsimp only [Option.map_some]
        rw [popped, hslot]
        rfl

end History

end PQueue

end Eiffel
