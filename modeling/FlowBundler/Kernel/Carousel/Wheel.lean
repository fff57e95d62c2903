import FlowBundler.Kernel.Carousel.Operations
import FlowBundler.Lib.Wheel

/-!
`sch_carousel.c` as a timing wheel.

* `Window P gq held clock`: the slots of the held packets lie between the slot of the head and
  one horizon later, and packets stored later are not stored earlier than they asked for.
* `Window.push`, `Window.restart`, `Window.turn`: how pushes and dequeues move the window.
* `Window.dequeue`: a dequeue returns the first packet of the least slot, or every packet is due
  after the clock.  The scan passes empty buckets only, a bucket of the window belongs to one slot
  (the granularity divides the horizon), and so the bucket it stops at is that of the least slot.
* `reach_stable`: one step keeps the window and the order of service, so every run does; packets
  are returned in the order of their times.
* `exists_unstable`: with more than `2^31` buckets the loop of `gq_init` leaves some of them as they
  were, and a packet that is put there comes after what the memory held.
* `stable_wheel_iff`: both together.
-/

namespace Carousel

open Gq Ledger

variable {P : Params} {gq : GradientQueue} {held : List Stored} {clock now : ℕ}

/-- The number of the granule of a stored packet. -/
def slotOf (P : Params) (e : Stored) : ℕ := e.skb.skbMstampNs / P.granularity

/-- The wheel has the shape that `gq_init` gave it. -/
structure Shaped (P : Params) (gq : GradientQueue) : Prop where
  gran_pos : 0 < P.granularity
  grnlrty : gq.grnlrty = P.granularity
  horizon : gq.horizon = P.horizonNs
  buckets : gq.numOfBuckets = 1 + P.horizonNs / P.granularity

/-- The packets are within one turn of the head. -/
structure Window (P : Params) (gq : GradientQueue) (held : List Stored) (clock : ℕ) : Prop where
  shaped : Shaped P gq
  head_lt : gq.headTs < clock + P.granularity
  max_eq : gq.maxTs = gq.headTs + P.horizonNs
  index_eq : ∀ e ∈ held, e.index = timeToIndex gq e.skb.skbMstampNs
  ahead : ∀ e ∈ held, gq.headTs / P.granularity ≤ slotOf P e
  within : ∀ e ∈ held, e.skb.skbMstampNs ≤ gq.headTs + P.horizonNs
  raised : ∀ e ∈ held, e.skb.skbMstampNs ≤ max e.requested gq.headTs
  mono : held.Pairwise fun a b => a.requested ≤ b.requested →
    a.skb.skbMstampNs ≤ b.skb.skbMstampNs

namespace Window

/-- An empty wheel restarted at the clock. -/
lemma restart (hshaped : Shaped P gq) (hclock : clock < 2 ^ 63) :
    Window P (restart gq clock) [] clock where
  shaped := ⟨hshaped.gran_pos, hshaped.grnlrty, hshaped.horizon, hshaped.buckets⟩
  head_lt := Nat.lt_add_of_pos_right hshaped.gran_pos
  max_eq := by
    have hH := horizonNs_lt P
    rw [Carousel.restart]
    dsimp only
    rw [hshaped.horizon, Nat.mod_eq_of_lt (by omega)]
  index_eq := by simp
  ahead := by simp
  within := by simp
  raised := by simp
  mono := .nil

lemma mono_clock (h : Window P gq held clock) (hle : clock ≤ now) : Window P gq held now where
  shaped := h.shaped
  head_lt := Nat.lt_of_lt_of_le h.head_lt (Nat.add_le_add_right hle _)
  max_eq := h.max_eq
  index_eq := h.index_eq
  ahead := h.ahead
  within := h.within
  raised := h.raised
  mono := h.mono

/-- The time at which a packet is stored. -/
lemma clampTs_eq (h : Window P gq held clock) (ts : ℕ) :
    clampTs gq ts = min (max ts gq.headTs) (gq.headTs + P.horizonNs) := by
  rw [clampTs, h.max_eq]
  split_ifs <;> omega

/-- A push keeps the window. -/
lemma push (h : Window P gq held clock) (skb : SkBuff) (seq : ℕ) :
    Window P (gqPush gq skb).1 (held ++ [{ (gqPush gq skb).2 with seq := seq }]) clock := by
  set e : Stored := { (gqPush gq skb).2 with seq := seq } with he
  have hreq : e.requested = skb.skbMstampNs := rfl
  have hts : e.skb.skbMstampNs
      = min (max e.requested gq.headTs) (gq.headTs + P.horizonNs) := h.clampTs_eq skb.skbMstampNs
  have hhead : gq.headTs ≤ e.skb.skbMstampNs := by omega
  have hnew : ∀ {p : Stored → Prop}, (∀ x ∈ held, p x) → p e → ∀ x ∈ held ++ [e], p x := by
    intro p hold hp x hx
    rcases List.mem_append.mp hx with hx | hx
    · exact hold x hx
    · exact List.mem_singleton.mp hx ▸ hp
  exact
    { shaped := ⟨h.shaped.gran_pos, h.shaped.grnlrty, h.shaped.horizon, h.shaped.buckets⟩
      head_lt := h.head_lt
      max_eq := h.max_eq
      index_eq := hnew h.index_eq rfl
      ahead := hnew h.ahead (Nat.div_le_div_right hhead)
      within := hnew h.within (by rw [hts]; exact min_le_right _ _)
      raised := hnew h.raised (by rw [hts]; exact min_le_left _ _)
      mono := List.pairwise_append.mpr ⟨h.mono, List.pairwise_singleton _ _, fun a ha b hb hle => by
        obtain rfl := List.mem_singleton.mp hb
        have hwithin := h.within a ha
        have hraised := h.raised a ha
        omega⟩ }

end Window

/-! ### Turning the wheel -/

namespace Window

/-- The slots of the times that a scan looks at. -/
lemma slot_step (h : Window P gq held clock) (i : ℕ) :
    (gq.headTs + i * P.granularity) / P.granularity = gq.headTs / P.granularity + i :=
  Nat.add_mul_div_right _ _ h.shaped.gran_pos

lemma index_step (h : Window P gq held clock) (i : ℕ) :
    timeToIndex gq (gq.headTs + i * P.granularity)
      = (gq.headTs / P.granularity + i) % (1 + P.horizonNs / P.granularity) := by
  rw [timeToIndex, h.shaped.grnlrty, h.shaped.buckets, h.slot_step]

/-- The bucket of a slot is empty when no held packet has that slot. -/
lemma slot_ne (h : Window P gq held clock) (hfilled : Filled gq held) {i : ℕ}
    (hfree : occupied gq (gq.headTs + i * P.granularity) = false) {e : Stored} (he : e ∈ held) :
    slotOf P e ≠ gq.headTs / P.granularity + i := by
  intro heq
  have hzero : (gq.mainBuckets (timeToIndex gq (gq.headTs + i * P.granularity))).qlen = 0 := by
    simpa [occupied] using hfree
  rw [hfilled.qlen_eq, List.length_eq_zero_iff] at hzero
  have hmem : e ∈ slot (fun e : Stored => e.index) held
      (timeToIndex gq (gq.headTs + i * P.granularity)) := by
    rw [mem_slot, h.index_eq e he, h.index_step, timeToIndex, h.shaped.grnlrty, h.shaped.buckets]
    exact ⟨he, by rw [← heq]; rfl⟩
  rw [hzero] at hmem
  simp at hmem

/-- A scan that met only empty buckets has every slot ahead. -/
lemma ahead_of_idle (h : Window P gq held clock) (hfilled : Filled gq held) {i : ℕ}
    (hidle : ∀ j < i, occupied gq (gq.headTs + j * P.granularity) = false) {e : Stored}
    (he : e ∈ held) : gq.headTs / P.granularity + i ≤ slotOf P e := by
  induction i with
  | zero => exact h.ahead e he
  | succ i ih =>
      have hle := ih fun j hj => hidle j (by omega)
      have hne := h.slot_ne hfilled (hidle i (by omega)) he
      omega

/-- A slot is at most one horizon ahead of the head. -/
lemma slot_le (h : Window P gq held clock) (hdvd : P.granularity ∣ P.horizonNs) {e : Stored}
    (he : e ∈ held) : slotOf P e ≤ gq.headTs / P.granularity + P.horizonNs / P.granularity := by
  obtain ⟨k, hk⟩ := hdvd
  have hle := Nat.div_le_div_right (c := P.granularity) (h.within e he)
  rw [hk, Nat.mul_comm, Nat.add_mul_div_right _ _ h.shaped.gran_pos] at hle
  rw [hk, Nat.mul_div_cancel_left _ h.shaped.gran_pos]
  exact hle

/-- The packets in the bucket of the new head have its slot. -/
lemma slot_eq (h : Window P gq held clock) (hdvd : P.granularity ∣ P.horizonNs) {i : ℕ}
    (hahead : ∀ e ∈ held, gq.headTs / P.granularity + i ≤ slotOf P e) {e : Stored} (he : e ∈ held)
    (hindex : e.index = timeToIndex gq (gq.headTs + i * P.granularity)) :
    slotOf P e = gq.headTs / P.granularity + i := by
  rw [h.index_eq e he, h.index_step, timeToIndex, h.shaped.grnlrty, h.shaped.buckets] at hindex
  have hle := h.slot_le hdvd he
  exact Wheel.eq_of_mod_eq (hahead e he) (by omega) le_rfl
    (Nat.lt_add_of_pos_right (Nat.add_pos_left Nat.one_pos _)) hindex

/-- Turning the wheel to a head that no packet is behind. -/
lemma turn (h : Window P gq held clock) {i : ℕ} (hclock : now < 2 ^ 63)
    (hlt : gq.headTs + i * P.granularity < now + P.granularity) {gq' : GradientQueue}
    {held' : List Stored} (hsub : held'.Sublist held)
    (hahead : ∀ e ∈ held, gq.headTs / P.granularity + i ≤ slotOf P e)
    (hhead : gq'.headTs = gq.headTs + i * P.granularity)
    (hmax : gq'.maxTs = (gq.headTs + i * P.granularity + gq.horizon) % 2 ^ 64)
    (hgran : gq'.grnlrty = gq.grnlrty) (hhor : gq'.horizon = gq.horizon)
    (hbuckets : gq'.numOfBuckets = gq.numOfBuckets) : Window P gq' held' now := by
  have hH := horizonNs_lt P
  have hg := P.granularity_lt
  have hmem : ∀ e ∈ held', e ∈ held := fun e he => hsub.subset he
  exact
    { shaped := ⟨h.shaped.gran_pos, hgran.trans h.shaped.grnlrty, hhor.trans h.shaped.horizon,
        hbuckets.trans h.shaped.buckets⟩
      head_lt := by rw [hhead]; exact hlt
      max_eq := by rw [hmax, h.shaped.horizon, hhead, Nat.mod_eq_of_lt (by omega)]
      index_eq := fun e he => by
        rw [h.index_eq e (hmem e he), timeToIndex, timeToIndex, hgran, hbuckets]
      ahead := fun e he => by
        rw [hhead, h.slot_step]
        exact hahead e (hmem e he)
      within := fun e he => by
        have := h.within e (hmem e he)
        rw [hhead]
        omega
      raised := fun e he => by
        have := h.raised e (hmem e he)
        rw [hhead]
        omega
      mono := h.mono.sublist hsub }

end Window

/-! ### Runs -/

/-- What a dequeue returns: the first packet of the least slot, within two granules of the
clock, or nothing when every packet is due after the clock. -/
def Serves (P : Params) (held : List Stored) (now : ℕ) (r : DequeueResult) : Prop :=
  match r.skb with
  | none => ∀ e ∈ held, now < e.skb.skbMstampNs
  | some (skb, _) => ∃ e, popped held r.skb = [e] ∧ FirstLeast (slotOf P) held e ∧ e.skb = skb ∧
      skb.skbMstampNs < now + 2 * P.granularity

/-- **A dequeue of a wheel** in its window returns, serves as `Serves` says, and leaves a
window. -/
theorem Window.dequeue {sch : Qdisc} {sent : List Stored} {count : ℕ}
    (h : Window P sch.gq held clock) (hqueued : Queued sch.gq sent held count)
    (hdvd : P.granularity ∣ P.horizonNs) (hle : clock ≤ now) (hnow : now < 2 ^ 63) :
    ∃ r, gqDequeue sch now = some r ∧ Serves P held now r ∧
      Window P r.sch.gq (without Stored.seq held ((popped held r.skb).map Stored.seq)) now := by
  have hg := P.granularity_lt
  have hgran := h.shaped.gran_pos
  have hheadlt := h.head_lt
  -- the scan ends, after rounds that found nothing
  obtain ⟨i, hseek, hidle, hend⟩ := @Loop.seek_spec now sch.gq.grnlrty (occupied sch.gq)
    (by rw [h.shaped.grnlrty]; exact hgran) (by rw [h.shaped.grnlrty]; omega) (2 ^ 64 - 1)
    sch.gq.headTs (by omega)
  rw [show 2 ^ 64 - 1 + 1 = 2 ^ 64 by norm_num] at hseek
  rw [h.shaped.grnlrty] at hidle hend
  have hahead : ∀ e ∈ held, sch.gq.headTs / P.granularity + i ≤ slotOf P e := fun e he =>
    h.ahead_of_idle hqueued.filled (fun j hj => (hidle j hj).1) he
  have hlt : sch.gq.headTs + i * P.granularity < now + P.granularity := by
    cases i with
    | zero => omega
    | succ i =>
        have hround := (hidle i (by omega)).2
        rw [Nat.succ_mul]
        omega
  obtain ⟨r, hrun⟩ := dequeue_isSome hseek
  refine ⟨r, hrun, ?_⟩
  rw [h.shaped.grnlrty] at hseek
  cases dequeue_cases hqueued.filled hrun with
  | restarted hnum hsch hskb =>
      have hheld : held = [] := List.length_eq_zero_iff.mp (hqueued.filled.total ▸ hnum)
      rw [Serves, hskb, hsch, hheld]
      exact ⟨by simp, Window.restart h.shaped hnow⟩
  | idle t hnum hseek' hfree hsch hskb =>
      rw [h.shaped.grnlrty, hseek, Option.some.injEq] at hseek'
      subst hseek'
      rw [Serves, hskb, hsch, popped, List.map_nil, without_eq_self (by simp)]
      refine ⟨fun e he => ?_, h.turn hnow hlt (List.Sublist.refl _) hahead rfl rfl rfl rfl rfl⟩
      -- the bucket of the new head is empty, and the new head is not before the clock
      have hdue : now ≤ sch.gq.headTs + i * P.granularity :=
        hend.resolve_left (by rw [hfree]; simp)
      have hslot := hahead e he
      have hne := h.slot_ne hqueued.filled hfree he
      rw [← h.slot_step] at hslot hne
      calc now ≤ sch.gq.headTs + i * P.granularity := hdue
        _ < ((sch.gq.headTs + i * P.granularity) / P.granularity + 1) * P.granularity :=
            Nat.lt_mul_of_div_lt (Nat.lt_succ_self _) hgran
        _ ≤ slotOf P e * P.granularity := Nat.mul_le_mul_right _ (by omega)
        _ ≤ e.skb.skbMstampNs := Nat.div_mul_le_self _ _
  | taken t skb rest hseek' hshelf hsch hskb =>
      rw [h.shaped.grnlrty, hseek, Option.some.injEq] at hseek'
      subst hseek'
      obtain ⟨e, tl, hslot, hval, -⟩ := hqueued.filled.take hqueued.nodup hshelf
      obtain ⟨he, hindex⟩ := mem_slot.mp (hslot ▸ List.mem_cons_self : e ∈ _)
      have hkey := h.slot_eq hdvd hahead he hindex
      rw [Serves, hskb, hsch]
      refine ⟨⟨e, by rw [popped, hslot]; rfl,
        firstLeast_of_slot hslot (fun x hx => ?_) (fun x hx hxe => ?_), hval, ?_⟩,
        h.turn hnow hlt List.filter_sublist hahead rfl rfl rfl rfl rfl⟩
      · rw [hkey]
        exact hahead x hx
      · -- the packets of one slot are in one bucket
        rw [h.index_eq x hx, ← hindex, h.index_eq e he, timeToIndex, timeToIndex, h.shaped.grnlrty]
        exact congrArg (· % sch.gq.numOfBuckets) hxe
      · rw [← hval]
        calc e.skb.skbMstampNs < (slotOf P e + 1) * P.granularity :=
              Nat.lt_mul_of_div_lt (Nat.lt_succ_self _) hgran
          _ = (sch.gq.headTs + i * P.granularity) / P.granularity * P.granularity
                + P.granularity := by rw [hkey, h.slot_step, Nat.succ_mul]
          _ ≤ sch.gq.headTs + i * P.granularity + P.granularity :=
              Nat.add_le_add_right (Nat.div_mul_le_self _ _) _
          _ < now + 2 * P.granularity := by omega

namespace World

variable {w w' : World} {op : Op}

/-- The callbacks other than a reset, under a clock that does not go back; `ktime_get_ns` is
below `2^63`. -/
def Admits (w : World) : Op → Prop
  | .enqueue now _ _ => w.clock ≤ now ∧ now < 2 ^ 63
  | .dequeue now => w.clock ≤ now ∧ now < 2 ^ 63
  | .reset => False

instance (w : World) : (op : Op) → Decidable (w.Admits op)
  | .enqueue _ _ _ => inferInstanceAs (Decidable (_ ∧ _))
  | .dequeue _ => inferInstanceAs (Decidable (_ ∧ _))
  | .reset => inferInstanceAs (Decidable False)

/-- The invariant of every run. -/
structure Inv (P : Params) (w : World) : Prop where
  queued : Queued w.sch.gq w.sent w.held w.count
  window : Window P w.sch.gq w.held w.clock
  fair : Shelf.Fair Stored.seq (fun e => e.requested) (w.sent ++ w.held)

lemma Inv.initial (hint : numBuckets P ≤ 2 ^ 31) (h : w.Initial P) : w.Inv P := by
  obtain ⟨now, memory, sch, hclock, hinit, rfl⟩ := h
  obtain ⟨hgran, rfl⟩ := gqInit_eq_some_iff.mp hinit
  have hqueued : Queued (initQdisc P now memory).gq [] [] 0 := .init hint now
  have hshaped : Shaped P (initQdisc P now memory).gq := ⟨hgran, rfl, rfl, rfl⟩
  exact ⟨hqueued, Window.restart hshaped hclock, .nil⟩

/-- An enqueue keeps the invariant: one push after another. -/
lemma Inv.enqueue {now : ℕ} {skb : SkBuff} {segs : List SkBuff} (h : w.Inv P)
    (hok : w.Admits (.enqueue now skb segs))
    (hstep : w.step P (.enqueue now skb segs) = some w') : w'.Inv P := by
  rw [World.step, Option.some.injEq] at hstep
  subst hstep
  have hps := (enqueue_pushes P w.sch now skb segs).1
  have hqueued := h.queued.enqueue hps
  have hopened : Window P (opened w.sch.gq now) w.held now := by
    rw [opened]
    split
    · rename_i hnum
      have hheld : w.held = [] := List.length_eq_zero_iff.mp (h.queued.filled.total ▸ hnum)
      rw [hheld]
      exact Window.restart h.window.shaped hok.2
    · exact h.window.mono_clock hok.1
  refine ⟨hqueued, ?_, ?_⟩
  · exact (hps.invariant (I := fun gq held _ => Window P gq held now)
      (fun _ _ count skb _ hI => hI.push skb count) hopened :)
  · -- what arrives last is behind everything
    have hfair := hps.invariant (I := fun _ held count =>
        Shelf.Fair Stored.seq (fun e => e.requested) (w.sent ++ held) ∧
          ∀ e ∈ w.sent ++ held, e.seq < count)
      (fun gq held count skb _ hI => by
        obtain ⟨hI, hlt⟩ := hI
        rw [← List.append_assoc]
        refine ⟨hI.arrive hlt, fun e he => ?_⟩
        rcases List.mem_append.mp he with he | he
        · exact Nat.lt_succ_of_lt (hlt e he)
        · obtain rfl := List.mem_singleton.mp he
          exact Nat.lt_succ_self count) ⟨h.fair, h.queued.seq_lt⟩
    exact hfair.1

/-- A dequeue keeps the invariant, and serves. -/
lemma Inv.dequeue {now : ℕ} (h : w.Inv P) (hdvd : P.granularity ∣ P.horizonNs)
    (hok : w.Admits (.dequeue now)) :
    ∃ r w', gqDequeue w.sch now = some r ∧ Serves P w.held now r ∧
      w.step P (.dequeue now) = some w' ∧ w'.Inv P := by
  obtain ⟨r, hrun, hserves, hwindow⟩ := h.window.dequeue h.queued hdvd hok.1 hok.2
  refine ⟨r, _, hrun, hserves, by rw [World.step, hrun]; rfl, ?_⟩
  dsimp only
  rcases h.queued.popped_eq hrun with
    ⟨-, hpop, hqueued⟩ | ⟨t, e, tl, -, hslot, hskb, hpop, -, -, hqueued⟩
  · rw [hpop, List.map_nil, without_eq_self (by simp)] at hwindow ⊢
    rw [List.append_nil]
    exact ⟨hqueued, hwindow, h.fair⟩
  · rw [hpop] at hwindow ⊢
    refine ⟨hqueued, hwindow, ?_⟩
    rw [Serves, hskb] at hserves
    obtain ⟨e', hpop', hfirst, -⟩ := hserves
    rw [← hskb, hpop, List.cons.injEq] at hpop'
    rw [← hpop'.1] at hfirst
    refine h.fair.serve h.queued.sorted (h.window.mono.imp fun hle hreq => ?_) hfirst
    exact Nat.div_le_div_right (hle hreq)

lemma Inv.step (h : w.Inv P) (hdvd : P.granularity ∣ P.horizonNs) (hok : w.Admits op)
    (hstep : w.step P op = some w') : w'.Inv P := by
  cases op with
  | enqueue now skb segs => exact h.enqueue hok hstep
  | dequeue now =>
      obtain ⟨-, w'', -, -, hstep', hinv⟩ := h.dequeue hdvd hok
      rw [hstep, Option.some.injEq] at hstep'
      exact hstep' ▸ hinv
  | reset => exact hok.elim

end World

/-- What a stable timing wheel does: a dequeue returns; it returns the first packet of the least
slot, within two granules of the clock, or nothing when every packet is due after the clock; and a
packet was returned before one that arrived before it only with an earlier time. -/
def World.Stable (P : Params) (w : World) : Prop :=
  (∀ now, w.Admits (.dequeue now) →
      ∃ r, gqDequeue w.sch now = some r ∧ Serves P w.held now r) ∧
    Shelf.Fair Stored.seq (fun e => e.requested) (w.sent ++ w.held)

/-- A wheel that `gq_init` cleared stays stable. -/
lemma reach_stable {w : World} (hint : numBuckets P ≤ 2 ^ 31) (hdvd : P.granularity ∣ P.horizonNs)
    (hw : Reach P World.Admits w) : w.Stable P := by
  have hinv : w.Inv P := hw.invariant (fun w hinit => .initial hint hinit)
    fun w w' op _ ih hok hstep => ih.step hdvd hok hstep
  refine ⟨fun now hok => ?_, hinv.fair⟩
  obtain ⟨r, -, hrun, hserves, -⟩ := hinv.dequeue hdvd hok
  exact ⟨r, hrun, hserves⟩

/-! ### Buckets that are not cleared -/

/-- A bucket with something in it, at the head of the wheel. -/
lemma dequeue_front {sch : Qdisc} {skb : SkBuff} {rest : List SkBuff} {n : ℕ}
    (hnum : sch.gq.numOfElements ≠ 0) (hbucket : sch.gq.mainBuckets
      (timeToIndex sch.gq sch.gq.headTs) = { packets := skb :: rest, qlen := n + 1 }) (now : ℕ) :
    ∃ r, gqDequeue sch now = some r ∧
      r.skb = some (skb, timeToIndex sch.gq sch.gq.headTs) := by
  have hseek : Loop.seek now sch.gq.grnlrty (occupied sch.gq) (2 ^ 64 - 1 + 1) sch.gq.headTs
      = some sch.gq.headTs :=
    Loop.seek_stop _ (.inl (by rw [occupied, hbucket]; simp))
  rw [show 2 ^ 64 - 1 + 1 = 2 ^ 64 by norm_num] at hseek
  have hturn : (sch.gq.turn sch.gq.headTs).mainBuckets (timeToIndex sch.gq sch.gq.headTs)
      = { packets := skb :: rest, qlen := n + 1 } := hbucket
  rw [gqDequeue, gqExtract, if_neg hnum, getMinIndex, hseek]
  refine ⟨_, rfl, ?_⟩
  dsimp only
  rw [hturn, if_neg (Nat.succ_ne_zero n), gqBucketDequeueHead]
  rfl

/-- What the memory of the buckets may hold. -/
def staleMemory (_ : ℕ) : GqBucket := { packets := [packetAt 1 0], qlen := 1 }

/-- The time of the first bucket that the loop of `gq_init` does not come to. -/
def staleTime (P : Params) : ℕ := 2 ^ 31 * P.granularity

/-- The discipline that has just been set up, opened for a packet at that time. -/
def staleQueue (P : Params) : GradientQueue :=
  restart (initQdisc P (staleTime P) staleMemory).gq (staleTime P)

lemma staleTime_lt (P : Params) : staleTime P < 2 ^ 63 := by
  have hg := P.granularity_lt
  rw [staleTime]
  omega

lemma staleQueue_index (hgran : 0 < P.granularity) (hint : 2 ^ 31 < numBuckets P) :
    timeToIndex (staleQueue P) (staleTime P) = 2 ^ 31 := by
  have hdiv : staleTime P / P.granularity = 2 ^ 31 := Nat.mul_div_cancel _ hgran
  have hdef : timeToIndex (staleQueue P) (staleTime P)
      = staleTime P / P.granularity % numBuckets P := rfl
  rw [hdef, hdiv, Nat.mod_eq_of_lt hint]

/-- A push at that time: the packet is behind what its bucket held. -/
lemma staleQueue_push (hgran : 0 < P.granularity) (hint : 2 ^ 31 < numBuckets P) :
    (gqPush (staleQueue P) (packetAt 2 (staleTime P))).2
        = { requested := staleTime P, skb := packetAt 2 (staleTime P), index := 2 ^ 31 } ∧
      (gqPush (staleQueue P) (packetAt 2 (staleTime P))).1.mainBuckets (2 ^ 31)
        = { packets := [packetAt 1 0, packetAt 2 (staleTime P)], qlen := 2 } := by
  have hH := horizonNs_lt P
  have hc := staleTime_lt P
  have hclamp : clampTs (staleQueue P) (staleTime P) = staleTime P := by
    have hhead : (staleQueue P).headTs = staleTime P := rfl
    have hmax : (staleQueue P).maxTs = (staleTime P + P.horizonNs) % 2 ^ 64 := rfl
    rw [clampTs, hhead, hmax, Nat.mod_eq_of_lt (by omega), if_neg (lt_irrefl _), if_neg (by omega)]
  have hbucket : (staleQueue P).mainBuckets (2 ^ 31) = staleMemory (2 ^ 31) :=
    if_pos ⟨le_refl _, hint⟩
  have hts : (packetAt 2 (staleTime P)).skbMstampNs = staleTime P := rfl
  have hsame : { packetAt 2 (staleTime P) with skbMstampNs := staleTime P }
      = packetAt 2 (staleTime P) := rfl
  rw [gqPush, hts, hclamp, hsame, hts, staleQueue_index hgran hint]
  refine ⟨rfl, ?_⟩
  dsimp only
  rw [Function.update_self, hbucket]
  rfl

/-- **A wheel with more buckets** returns what it did not get. -/
lemma exists_unstable (hgran : 0 < P.granularity) (hint : 2 ^ 31 < numBuckets P) :
    ∃ w, Reach P World.Admits w ∧ ¬ w.Stable P := by
  set c := staleTime P with hc
  obtain ⟨hpushed, hbucket⟩ := staleQueue_push hgran hint
  have hclock := staleTime_lt P
  have hstart : Reach P World.Admits (World.start (initQdisc P c staleMemory) c) :=
    .start ⟨c, _, _, hclock, gqInit_eq_some_iff.mpr ⟨hgran, rfl⟩, rfl⟩
  -- the enqueue is one push on the queue that is opened at its clock
  obtain ⟨sch, henqueue, hgq⟩ : ∃ sch : Qdisc,
      gqEnqueue P (initQdisc P c staleMemory) c (packetAt 2 c) []
        = { sch := sch, ret := .success, pushed := [(gqPush (staleQueue P) (packetAt 2 c)).2] } ∧
      sch.gq = (gqPush (staleQueue P) (packetAt 2 c)).1 := by
    refine ⟨{ gq := (gqPush (staleQueue P) (packetAt 2 c)).1, qlen := 1, limit := schLimit }, ?_,
      rfl⟩
    have hgso : (P.gsoSplit && (packetAt 2 c).isGso) = false := Bool.and_false _
    have hempty : (initQdisc P c staleMemory).gq.numOfElements = 0 := rfl
    have hroom : ¬ (restart (initQdisc P c staleMemory).gq c).numOfElements
        ≥ (initQdisc P c staleMemory).limit := Nat.not_le.mpr (by decide : 0 < schLimit)
    rw [gqEnqueue, if_pos hempty]
    dsimp only
    rw [if_neg hroom, hgso]
    rfl
  have hadmits :
      (World.start (initQdisc P c staleMemory) c).Admits (.enqueue c (packetAt 2 c) []) :=
    ⟨le_refl c, hclock⟩
  have hstep : (World.start (initQdisc P c staleMemory) c).step P (.enqueue c (packetAt 2 c) [])
      = some
        { sch := sch, held := numbered 0 [(gqPush (staleQueue P) (packetAt 2 c)).2]
          sent := [], count := 1, clock := c } := by
    have hsch : (World.start (initQdisc P c staleMemory) c).sch = initQdisc P c staleMemory := rfl
    rw [World.step, hsch, henqueue]
    rfl
  refine ⟨_, hstart.step hadmits hstep, fun hstable => ?_⟩
  obtain ⟨r, hrun, hserves⟩ := hstable.1 c ⟨le_refl c, hclock⟩
  have hindex : timeToIndex sch.gq sch.gq.headTs = 2 ^ 31 := by
    rw [hgq]
    exact staleQueue_index hgran hint
  have hfront : sch.gq.mainBuckets (timeToIndex sch.gq sch.gq.headTs)
      = { packets := [packetAt 1 0, packetAt 2 c], qlen := 1 + 1 } := by
    rw [hindex, hgq]
    exact hbucket
  have hnum : sch.gq.numOfElements ≠ 0 := by
    rw [hgq]
    exact Nat.succ_ne_zero 0
  obtain ⟨r', hrun', hskb⟩ := dequeue_front hnum hfront c
  dsimp only at hrun
  rw [hrun', Option.some.injEq] at hrun
  rw [← hrun, Serves, hskb] at hserves
  obtain ⟨e, hpopped, -, hval, -⟩ := hserves
  -- the only packet that is held is the second one
  rw [hpushed] at hpopped
  have he : e ∈ [({ requested := c, skb := packetAt 2 c, index := 2 ^ 31, seq := 0 } : Stored)] :=
    (mem_slot.mp (List.mem_of_mem_take (hpopped ▸ List.mem_singleton_self e))).1
  rw [List.mem_singleton.mp he] at hval
  exact absurd (congrArg SkBuff.ptr hval) (by decide : (2 : ℕ) ≠ 1)

/-- **A stable timing wheel**: the wheel of `gq_init` stays stable in every run of enqueues and
dequeues, whatever the memory of its buckets held, exactly when it has at most `2^31` buckets. -/
theorem stable_wheel_iff (hgran : 0 < P.granularity) (hdvd : P.granularity ∣ P.horizonNs) :
    (∀ w, Reach P World.Admits w → w.Stable P) ↔ numBuckets P ≤ 2 ^ 31 := by
  refine ⟨fun hall => ?_, fun hint w hw => reach_stable hint hdvd hw⟩
  by_contra hint
  obtain ⟨w, hw, hunstable⟩ := exists_unstable hgran (not_le.mp hint)
  exact hunstable (hall w hw)

/-- The defaults of the module. -/
def defaultParams : Params :=
  { gsoSplit := false, granularity := 1000, horizon := 10
    granularity_lt := default_granularity_lt, horizon_lt := default_horizon_lt }

/-- The defaults, three packets and one dequeue: the packets in the wheel came later, or with
later times, than the packet that was returned. -/
theorem stable_wheel_iff_run :
    defaultParams.granularity ∣ defaultParams.horizonNs ∧
      ∃ w, Reach defaultParams World.Admits w ∧ w.sent.length = 1 ∧ w.held.length = 2 ∧
        w.Stable defaultParams := by
  obtain ⟨w, hw, hsent, hheld⟩ := exists_reach defaultParams World.Admits
    [.enqueue 0 (packetAt 1 2500) [], .enqueue 0 (packetAt 2 1200) [],
      .enqueue 10 (packetAt 3 1300) [], .dequeue 2000]
    (fun w => w.sent.length = 1 ∧ w.held.length = 2) (by decide +kernel)
  have hdvd : defaultParams.granularity ∣ defaultParams.horizonNs := by decide
  exact ⟨hdvd, w, hw, hsent, hheld, (stable_wheel_iff (by decide) hdvd).mpr (by decide) w hw⟩

/-- A granularity of one nanosecond and a horizon of three seconds: three billion buckets. -/
def threeBillion : Params :=
  { gsoSplit := false, granularity := 1, horizon := 3
    granularity_lt := by norm_num, horizon_lt := by norm_num }

/-- The wheel with them returns what the memory of a bucket held. -/
theorem wheel_unstable :
    ¬ ∀ (P : Params) (w : World), 0 < P.granularity → P.granularity ∣ P.horizonNs →
      Reach P World.Admits w → w.Stable P := by
  intro hall
  obtain ⟨w, hw, hunstable⟩ := exists_unstable (P := threeBillion) (by decide) (by decide)
  exact hunstable (hall threeBillion w (by decide) (one_dvd _) hw)

end Carousel
