import FlowBundler.Bess.Carousel.Sched
import FlowBundler.Lib.Wheel

/-!
`carousel.cc` as a timing wheel.

* `insert_spec`, `enqueueOne_spec`: a round of `Enqueue` drops the packet, or stores it in the
  window.
* `Loaded cfg c held count`: the buckets hold the packets of `held`, whose slot numbers lie in
  the window of the wheel, and `packets_num` is not below their number.
* `Loaded.enqueueOne`, `Loaded.dequeue`: the two operations keep that.
* `Call.Served`, `wheel_correct`: every `Dequeue` of every run removes packets of the least slot
  number, none of them early, and nothing only when nothing is due.

A slot number is a send time divided by the granularity.  The window of the wheel is the slot
numbers from the head on, as many as there are buckets, and a round of `Enqueue` drops what lies
beyond it and raises what lies before it; so two packets in one bucket have one slot number.  A
`Dequeue` moves the head to the slot where it stops, which is not behind the least slot number of a
held packet, and the window moves with it.  The count enters only through the test for an empty
wheel, for which `packets_num` must not be too small.
-/

namespace Bess

namespace Carousel

open Ledger

variable {cfg : SlotConfig} {c : Carousel} {held : List Placed} {count now : ℕ}

/-! ### Enqueue -/

/-- What `Insert` does to the packet that it takes: a late packet goes to the head, with its
send time raised to it. -/
structure Inserted (cfg : SlotConfig) (c : Carousel) (packet : Packet) (sendTime flowId : ℕ)
    (r : InsertResult) (store : ListBucket.Store) : Prop where
  ret : r.ret = 0
  slot : (sendTime / cfg.granularity < c.headerTs ∧ r.grn = c.headerTs ∧
      r.sendTime = c.headerTs * cfg.granularity % 2 ^ 64) ∨
    (c.headerTs ≤ sendTime / cfg.granularity ∧ r.grn = sendTime / cfg.granularity ∧
      r.sendTime = sendTime)
  lt : r.grn < c.headerTs + cfg.slots
  carousel : r.carousel = { c with
    store := store
    queue := Function.update c.queue (r.grn % cfg.slots)
      { nodes := { packet := packet, flowId := flowId } :: (c.queue (r.grn % cfg.slots)).nodes
        nodeNum := (c.queue (r.grn % cfg.slots)).nodeNum + 1 } }

lemma Inserted.le {packet : Packet} {sendTime flowId : ℕ} {r : InsertResult}
    {store : ListBucket.Store} (h : Inserted cfg c packet sendTime flowId r store) :
    c.headerTs ≤ r.grn := by
  rcases h.slot with ⟨-, hgrn, -⟩ | ⟨hle, hgrn, -⟩ <;> omega

/-- **Insert** refuses the packet, or puts it in front of the bucket of a slot number in the
window. -/
lemma insert_spec (cfg : SlotConfig) (c : Carousel) (packet : Packet) (sendTime flowId : ℕ) :
    ((c.insert cfg packet sendTime flowId).ret < 0 ∧
        (c.insert cfg packet sendTime flowId).carousel = c) ∨
      ∃ store, Inserted cfg c packet sendTime flowId
        (c.insert cfg packet sendTime flowId) store := by
  rw [insert]
  dsimp only
  by_cases hfar : sendTime / cfg.granularity > (c.headerTs + cfg.slots - 1) % 2 ^ 64
  · rw [if_pos hfar]
    exact .inl ⟨by norm_num, rfl⟩
  rw [if_neg hfar]
  have hslots := cfg.slots_pos
  have hmod := Nat.mod_le (c.headerTs + cfg.slots - 1) (2 ^ 64)
  by_cases hlate : sendTime / cfg.granularity < c.headerTs
  · simp only [if_pos hlate]
    rcases ListBucket.enqueuePacket_spec c.store (c.queue (c.headerTs % cfg.slots)) packet flowId
      with ⟨-, heq⟩ | ⟨store, heq⟩
    · rw [heq]
      exact .inl ⟨by norm_num, by simp⟩
    · rw [heq]
      exact .inr ⟨store, rfl, .inl ⟨hlate, rfl, rfl⟩, by dsimp only; omega, rfl⟩
  · simp only [if_neg hlate]
    rcases ListBucket.enqueuePacket_spec c.store
      (c.queue (sendTime / cfg.granularity % cfg.slots)) packet flowId with ⟨-, heq⟩ | ⟨store, heq⟩
    · rw [heq]
      exact .inl ⟨by norm_num, by simp⟩
    · rw [heq]
      exact .inr ⟨store, rfl, .inr ⟨not_lt.mp hlate, rfl, rfl⟩, by dsimp only; omega, rfl⟩

/-- The module on which a round of `Enqueue` calls `Insert`. -/
def opened (cfg : SlotConfig) (c : Carousel) (now : ℕ) (pkt : Packet) : Carousel :=
  { c with flowInfo := Function.update c.flowInfo pkt.src ((c.flowInfo pkt.src).orDefault now)
           headerTs := if c.packetsNum = 0 then now / cfg.granularity else c.headerTs }

/-- The send time that a round of `Enqueue` asks for. -/
def stampOf (c : Carousel) (now : ℕ) (pkt : Packet) : ℕ :=
  FlowBundler.newStamp ((c.flowInfo pkt.src).orDefault now) pkt.totalLen now

/-- **A round of `Enqueue`** drops the packet, or it stores the packet, counts it and keeps the
send time that `Insert` left. -/
lemma enqueueOne_spec (cfg : SlotConfig) (c : Carousel) (now : ℕ) (pkt : Packet) :
    ((c.enqueueOne cfg now pkt).ret < 0 ∧
        (c.enqueueOne cfg now pkt).carousel = c.opened cfg now pkt) ∨
      ∃ r store, Inserted cfg (c.opened cfg now pkt) pkt (c.stampOf now pkt) pkt.src r store ∧
        (c.enqueueOne cfg now pkt).ret = 0 ∧ (c.enqueueOne cfg now pkt).grn = r.grn ∧
        (c.enqueueOne cfg now pkt).sendTime = r.sendTime ∧
        (c.enqueueOne cfg now pkt).carousel = { r.carousel with
          flowInfo := Function.update r.carousel.flowInfo pkt.src
            { (c.flowInfo pkt.src).orDefault now with lastStamp := r.sendTime }
          packetsNum := r.carousel.packetsNum + 1 } := by
  have hopen : ({ c with
      flowInfo := Function.update c.flowInfo pkt.src ((c.flowInfo pkt.src).orDefault now) } :
      Carousel).restart cfg now = c.opened cfg now pkt := by
    rw [restart, opened]
    split <;> rfl
  rw [enqueueOne]
  dsimp only
  rw [hopen]
  rcases insert_spec cfg (c.opened cfg now pkt) pkt (c.stampOf now pkt) pkt.src with
    ⟨hret, hsame⟩ | ⟨store, hins⟩
  · rw [stampOf] at hret hsame
    rw [if_pos hret]
    exact .inl ⟨hret, hsame⟩
  · have hret := hins.ret
    rw [stampOf] at hret
    rw [if_neg (by rw [hret]; exact lt_irrefl 0)]
    exact .inr ⟨_, store, hins, hret, rfl, rfl, rfl⟩

/-- The packets `held` are in the wheel. -/
structure Loaded (cfg : SlotConfig) (c : Carousel) (held : List Placed) (count : ℕ) : Prop where
  lifo : Shelf.Lifo (Placed.index cfg) (fun e => e.node) (ListBucket.nodes ∘ c.queue) held
  counted : ∀ i, (c.queue i).Counted
  nodup : (held.map Placed.seq).Nodup
  seq_lt : ∀ e ∈ held, e.seq < count
  /-- The wheel is restarted only when it is empty. -/
  num : held.length ≤ c.packetsNum
  header_lt : c.headerTs < 2 ^ 64
  grn_lt : ∀ e ∈ held, e.grn < 2 ^ 64
  ahead : ∀ e ∈ held, c.headerTs ≤ e.grn
  within : ∀ e ∈ held, e.grn < c.headerTs + cfg.slots

namespace Loaded

lemma nil (hqueue : ∀ i, c.queue i = ListBucket.empty) (hlt : c.headerTs < 2 ^ 64) :
    Loaded cfg c [] count where
  lifo := fun i => by rw [Function.comp_apply, hqueue]; rfl
  counted := fun i => by rw [hqueue]; rfl
  nodup := List.nodup_nil
  seq_lt := by simp
  num := Nat.zero_le _
  header_lt := hlt
  grn_lt := by simp
  ahead := by simp
  within := by simp

/-- Flows, store and generator do not matter. -/
lemma congr {c' : Carousel} (h : Loaded cfg c held count) (hqueue : c'.queue = c.queue)
    (hheader : c'.headerTs = c.headerTs) (hnum : held.length ≤ c'.packetsNum) :
    Loaded cfg c' held count where
  lifo := hqueue ▸ h.lifo
  counted := hqueue ▸ h.counted
  nodup := h.nodup
  seq_lt := h.seq_lt
  num := hnum
  header_lt := hheader ▸ h.header_lt
  grn_lt := h.grn_lt
  ahead := hheader ▸ h.ahead
  within := hheader ▸ h.within

/-- The buckets of an empty wheel. -/
lemma queue_nil (h : Loaded cfg c [] count) (i : ℕ) : c.queue i = ListBucket.empty := by
  have hnodes : (c.queue i).nodes = [] := h.lifo i
  have hnum : (c.queue i).nodeNum = 0 := by rw [h.counted i, hnodes]; rfl
  rw [ListBucket.empty, ← hnodes, ← hnum]

lemma opened (h : Loaded cfg c held count) (hnow : now < 2 ^ 64) (pkt : Packet) :
    Loaded cfg (c.opened cfg now pkt) held count := by
  by_cases hnum : c.packetsNum = 0
  · obtain rfl : held = [] := List.length_eq_zero_iff.mp (Nat.le_zero.mp (hnum ▸ h.num))
    refine .nil h.queue_nil ?_
    rw [Carousel.opened]
    dsimp only
    rw [if_pos hnum]
    exact lt_of_le_of_lt (Nat.div_le_self _ _) hnow
  · exact h.congr rfl (if_neg hnum) h.num

/-- A packet stored in the window. -/
lemma push (h : Loaded cfg c held count) (node : PacketNode) {grn : ℕ} (hlt : grn < 2 ^ 64)
    (hhead : c.headerTs ≤ grn) (hlast : grn < c.headerTs + cfg.slots) {c' : Carousel}
    (hqueue : c'.queue = Function.update c.queue (grn % cfg.slots)
      { nodes := node :: (c.queue (grn % cfg.slots)).nodes
        nodeNum := (c.queue (grn % cfg.slots)).nodeNum + 1 })
    (hheader : c'.headerTs = c.headerTs) (hnum : c'.packetsNum = c.packetsNum + 1) :
    Loaded cfg c' (held ++ [{ seq := count, node := node, grn := grn }]) (count + 1) := by
  set e : Placed := { seq := count, node := node, grn := grn } with he
  have hall : ∀ {p : Placed → Prop}, (∀ x ∈ held, p x) → p e → ∀ x ∈ held ++ [e], p x := by
    intro p hold hp x hx
    rcases List.mem_append.mp hx with hx | hx
    · exact hold x hx
    · exact List.mem_singleton.mp hx ▸ hp
  have hlifo := h.lifo.push e
  refine ⟨?_, ?_, ?_, hall (fun x hx => Nat.lt_succ_of_lt (h.seq_lt x hx)) (Nat.lt_succ_self _),
    ?_, hheader ▸ h.header_lt, hall h.grn_lt hlt, ?_, ?_⟩
  · rw [hqueue, Function.comp_update]
    exact hlifo
  · rw [hqueue]
    refine (Function.forall_update_iff c.queue fun _ b => b.Counted).mpr
      ⟨?_, fun i _ => h.counted i⟩
    rw [ListBucket.Counted, List.length_cons, h.counted]
  · rw [List.map_append, List.nodup_append]
    refine ⟨h.nodup, by simp, fun a ha b hb hab => ?_⟩
    obtain ⟨x, hx, rfl⟩ := List.mem_map.mp ha
    have hlt := h.seq_lt x hx
    have hb' : b = count := by simpa using hb
    omega
  · rw [hnum, List.length_append]
    exact Nat.succ_le_succ h.num
  · rw [hheader]
    exact hall h.ahead hhead
  · rw [hheader]
    exact hall h.within hlast

/-! ### Dequeue -/

/-- A bucket is empty when no packet is placed there. -/
lemma occupied_eq_none (h : Loaded cfg c held count) (t : ℕ) :
    c.occupied cfg t = none ↔ slot (Placed.index cfg) held (t % cfg.slots) = [] := by
  have hnodes := h.lifo (t % cfg.slots)
  rw [Function.comp_apply] at hnodes
  rw [occupied, ListBucket.isEmpty, h.counted, hnodes, List.length_map, List.length_reverse]
  simp

lemma mem_slot_index {e : Placed} (he : e ∈ held) :
    e ∈ slot (Placed.index cfg) held (e.grn % cfg.slots) := mem_slot.mpr ⟨he, rfl⟩

lemma occupied_ne_none (h : Loaded cfg c held count) {e : Placed} (he : e ∈ held) :
    c.occupied cfg e.grn ≠ none := by
  intro hnone
  rw [h.occupied_eq_none] at hnone
  have hmem := @mem_slot_index cfg _ _ he
  rw [hnone] at hmem
  simp at hmem

/-- A scan that met only empty buckets has every packet ahead of it. -/
lemma ahead_of_idle (h : Loaded cfg c held count) {i : ℕ}
    (hidle : ∀ j < i, c.occupied cfg (c.headerTs + j) = none) {e : Placed} (he : e ∈ held) :
    c.headerTs + i ≤ e.grn := by
  induction i with
  | zero => exact h.ahead e he
  | succ i ih =>
      have hle := ih fun j hj => hidle j (by omega)
      have hne : e.grn ≠ c.headerTs + i := fun heq =>
        h.occupied_ne_none he (heq ▸ hidle i (by omega))
      omega

/-- **The scan** of a loaded wheel ends at an occupied bucket that is due, with no packet behind
it, or behind the clock, or the wheel is empty. -/
lemma scan_cases (h : Loaded cfg c held count) {out : Unit × ℕ ⊕ ℕ}
    (hscan : Loop.whileDue (now / cfg.granularity) 1 (c.occupied cfg) (2 ^ 64) c.headerTs
      = some out) :
    (∃ t, out = .inl ((), t) ∧ t ≤ now / cfg.granularity ∧ c.occupied cfg t ≠ none ∧
        c.headerTs ≤ t ∧ ∀ e ∈ held, t ≤ e.grn) ∨
      ∃ t, out = .inr t ∧ t < 2 ^ 64 ∧ ∀ e ∈ held, c.headerTs ≤ t ∧ t ≤ e.grn ∧
        now / cfg.granularity < e.grn := by
  cases hheld : held with
  | nil =>
      cases out with
      | inl p =>
          have hbody := (Loop.whileDue_inl hscan).2
          have hnone : c.occupied cfg p.2 = none := by
            rw [h.occupied_eq_none, hheld]
            rfl
          rw [hnone] at hbody
          simp at hbody
      | inr t => exact .inr ⟨t, rfl, Loop.whileDue_lt h.header_lt hscan, by simp⟩
  | cons e₀ rest =>
      rw [← hheld]
      have he₀ : e₀ ∈ held := by rw [hheld]; exact List.mem_cons_self
      have hlt₀ := h.grn_lt e₀ he₀
      have heq₀ : c.headerTs + (e₀.grn - c.headerTs) * 1 = e₀.grn := by
        have := h.ahead e₀ he₀
        omega
      obtain ⟨out', hscan', hout⟩ := @Loop.whileDue_of_hit _ (now / cfg.granularity) 1
        (c.occupied cfg) (e₀.grn - c.headerTs) (2 ^ 64) c.headerTs (by omega)
        (by rw [heq₀]; exact hlt₀) (by rw [heq₀]; exact h.occupied_ne_none he₀)
      rw [hscan, Option.some.injEq] at hscan'
      subst hscan'
      cases hout with
      | hit i b hidle hdue hbody =>
          refine .inl ⟨_, rfl, hdue, by rw [hbody]; simp, Nat.le_add_right _ _, fun e he => ?_⟩
          rw [Nat.mul_one]
          exact h.ahead_of_idle (fun j hj => by simpa using (hidle j hj).2) he
      | past i hidle hpast =>
          have hahead : ∀ e ∈ held, c.headerTs + i * 1 ≤ e.grn := fun e he => by
            rw [Nat.mul_one]
            exact h.ahead_of_idle (fun j hj => by simpa using (hidle j hj).2) he
          exact .inr ⟨_, rfl, lt_of_le_of_lt (hahead e₀ he₀) hlt₀, fun e he =>
            ⟨Nat.le_add_right _ _, hahead e he, lt_of_lt_of_le hpast (hahead e he)⟩⟩

/-- The scan ends when there is a packet ahead, or when the clock is not at the end of its
range. -/
lemma scan_isSome (h : Loaded cfg c held count)
    (hends : held ≠ [] ∨ now / cfg.granularity + 1 < 2 ^ 64) :
    ∃ out, Loop.whileDue (now / cfg.granularity) 1 (c.occupied cfg) (2 ^ 64) c.headerTs
      = some out := by
  cases hheld : held with
  | nil =>
      have hlt : now / cfg.granularity + 1 < 2 ^ 64 := hends.resolve_left (by simp [hheld])
      obtain ⟨out, hout, -⟩ := @Loop.whileDue_spec _ (now / cfg.granularity) 1 (c.occupied cfg)
        Nat.one_pos hlt (2 ^ 64 - 1) c.headerTs (by omega)
      exact ⟨out, hout⟩
  | cons e rest =>
      have he : e ∈ held := by rw [hheld]; exact List.mem_cons_self
      obtain ⟨n, hn⟩ := Nat.exists_eq_add_of_le (h.ahead e he)
      have hlt := h.grn_lt e he
      obtain ⟨out, hout, -⟩ := @Loop.whileDue_of_hit _ (now / cfg.granularity) 1
        (c.occupied cfg) n (2 ^ 64) c.headerTs (by omega) (by omega)
        (by rw [Nat.mul_one, ← hn]; exact h.occupied_ne_none he)
      exact ⟨out, hout⟩

/-- Different slot numbers never share a bucket. -/
lemma eq_of_index_eq (h : Loaded cfg c held count) {e e' : Placed} (he : e ∈ held)
    (he' : e' ∈ held) (hindex : e.index cfg = e'.index cfg) : e.grn = e'.grn :=
  Wheel.eq_of_mod_eq (h.ahead e he) (h.within e he) (h.ahead e' he') (h.within e' he') hindex

end Loaded

/-- What a call of `Dequeue` has to do: the batch is made of the packets it removed; these have
the least slot number of all queued packets, and one that is due; and with a positive burst
nothing is removed only when nothing is due. -/
structure Call.Served (cfg : SlotConfig) (d : Call) : Prop where
  batch : d.batch = d.removed.map Placed.node
  least : ∀ e ∈ d.removed, e ∈ d.queued ∧ ∀ x ∈ d.queued, e.grn ≤ x.grn
  due : ∀ e ∈ d.removed, e.grn ≤ d.now / cfg.granularity
  idle : 0 < d.burst → d.removed = [] → ∀ x ∈ d.queued, d.now / cfg.granularity < x.grn

/-- The call that a result of `Dequeue` makes. -/
def callOf (cfg : SlotConfig) (c : Carousel) (held : List Placed) (now : ℕ) (r : DequeueResult) :
    Call :=
  { now := now, burst := c.maxDequeueBurst, queued := held
    removed := removed cfg held r.index r.taken.length, batch := r.taken }

/-- What a call leaves in the wheel. -/
def Call.left (d : Call) : List Placed := without Placed.seq d.queued (d.removed.map Placed.seq)

/-- A call that removes nothing leaves everything. -/
lemma Call.left_of_nil {d : Call} (h : d.removed = []) : d.left = d.queued := by
  rw [Call.left, h]
  exact without_eq_self (by simp)

namespace Loaded

/-- What is left after some packets of one bucket are removed. -/
lemma remove (h : Loaded cfg c held count) {t n : ℕ} (hhead : c.headerTs ≤ t) (hlt : t < 2 ^ 64)
    (hahead : ∀ e ∈ held, t ≤ e.grn) {b : ListBucket} {c' : Carousel}
    (hnodes : b.nodes = (c.queue (t % cfg.slots)).nodes.drop n) (hcounted : b.Counted)
    (hqueue : c'.queue = Function.update c.queue (t % cfg.slots) b)
    (hheader : c'.headerTs = if b.isEmpty then (t + 1) % 2 ^ 64 else t)
    (hnum : c'.packetsNum = c.packetsNum) :
    Loaded cfg c' (without Placed.seq held ((removed cfg held (some (t % cfg.slots)) n).map
      Placed.seq)) count := by
  set left := without Placed.seq held ((removed cfg held (some (t % cfg.slots)) n).map Placed.seq)
    with hleft
  have hsub : ∀ e ∈ left, e ∈ held := fun e he => (mem_without.mp he).1
  have hlifo :
      Shelf.Lifo (Placed.index cfg) (fun e => e.node) (ListBucket.nodes ∘ c'.queue) left := by
    have hfront := (h.lifo.front h.nodup n (k := t % cfg.slots)).2
    rw [hqueue, Function.comp_update, hnodes]
    exact hfront
  -- the head moves on only when no packet is left in its bucket
  have hmoves : b.isEmpty = true → ∀ e ∈ left, t + 1 ≤ e.grn := by
    intro hempty e he
    have hnil : b.nodes = [] := by
      rw [ListBucket.isEmpty, hcounted] at hempty
      simpa using hempty
    have hslot := hlifo (t % cfg.slots)
    rw [Function.comp_apply, hqueue, Function.update_self, hnil] at hslot
    have hne : e.grn ≠ t := by
      rintro rfl
      have hmem := @mem_slot_index cfg _ _ he
      rw [List.map_eq_nil_iff.mp hslot.symm |> List.reverse_eq_nil_iff.mp] at hmem
      simp at hmem
    have := hahead e (hsub e he)
    omega
  have hwindow : c'.headerTs < 2 ^ 64 ∧
      ∀ e ∈ left, c'.headerTs ≤ e.grn ∧ e.grn < c'.headerTs + cfg.slots := by
    rw [hheader]
    split
    · rename_i hempty
      refine ⟨Nat.mod_lt _ (by norm_num), fun e he => ?_⟩
      have h1 := hmoves hempty e he
      have h2 := h.within e (hsub e he)
      have h3 := h.grn_lt e (hsub e he)
      rw [Nat.mod_eq_of_lt (by omega)]
      omega
    · refine ⟨hlt, fun e he => ⟨hahead e (hsub e he), ?_⟩⟩
      have h2 := h.within e (hsub e he)
      omega
  exact
    { lifo := hlifo
      counted := by
        rw [hqueue]
        exact (Function.forall_update_iff c.queue fun _ b => b.Counted).mpr
          ⟨hcounted, fun i _ => h.counted i⟩
      nodup := nodup_without h.nodup
      seq_lt := fun e he => h.seq_lt e (hsub e he)
      num := by
        rw [hnum]
        exact (List.length_filter_le _ _).trans h.num
      header_lt := hwindow.1
      grn_lt := fun e he => h.grn_lt e (hsub e he)
      ahead := fun e he => (hwindow.2 e he).1
      within := fun e he => (hwindow.2 e he).2 }

/-- The packets in the bucket of the head have its slot number. -/
lemma grn_eq (h : Loaded cfg c held count) {t : ℕ} (hhead : c.headerTs ≤ t)
    (hahead : ∀ e ∈ held, t ≤ e.grn) {e : Placed}
    (he : e ∈ slot (Placed.index cfg) held (t % cfg.slots)) : e.grn = t := by
  obtain ⟨hmem, hindex⟩ := mem_slot.mp he
  have hwithin := h.within e hmem
  exact Wheel.eq_of_mod_eq (hahead e hmem) (by omega) le_rfl
    (Nat.lt_add_of_pos_right cfg.slots_pos) hindex

/-- **Serving the bucket of the head**: a bulk removal takes its latest packets, at least one
of them. -/
lemma serve (h : Loaded cfg c held count) {t : ℕ} {quota : ℤ} (hquota : 0 < quota)
    (hburst : quota ≤ kMaxBurst) (hocc : c.occupied cfg t ≠ none) {r : ListBucket.BulkResult}
    (hr : ListBucket.dequeuePacketBulk cfg.maxBytesPerFlow c.store (c.queue (t % cfg.slots)) quota
      = r) :
    r.taken = (removed cfg held (some (t % cfg.slots)) r.taken.length).map Placed.node ∧
      removed cfg held (some (t % cfg.slots)) r.taken.length ≠ [] ∧
      r.bucket.nodes = (c.queue (t % cfg.slots)).nodes.drop r.taken.length ∧
      r.bucket.Counted := by
  obtain ⟨htaken, -, hleft, hcounted⟩ :=
    ListBucket.dequeuePacketBulk_spec cfg.maxBytesPerFlow c.store (h.counted (t % cfg.slots)) quota
  rw [hr] at htaken hleft hcounted
  set n := ListBucket.bulkNum (c.queue (t % cfg.slots)) quota with hn
  have hnodes := h.lifo (t % cfg.slots)
  rw [Function.comp_apply] at hnodes
  have hlen : (c.queue (t % cfg.slots)).nodes.length
      = (slot (Placed.index cfg) held (t % cfg.slots)).length := by
    rw [hnodes, List.length_map, List.length_reverse]
  have hslot : slot (Placed.index cfg) held (t % cfg.slots) ≠ [] := fun hnil =>
    hocc ((h.occupied_eq_none t).mpr hnil)
  have hpos : 0 < (c.queue (t % cfg.slots)).nodes.length :=
    hlen ▸ List.length_pos_of_ne_nil hslot
  have hnum : n = min (quota % 2 ^ 32).toNat (c.queue (t % cfg.slots)).nodes.length := rfl
  have htl : r.taken.length = n := by
    rw [htaken, List.length_take]
    omega
  have hnpos : 0 < n := by
    have hmax : quota ≤ 32 := hburst
    omega
  rw [htl]
  refine ⟨?_, ?_, hleft, hcounted⟩
  · rw [htaken, hnodes, removed, List.map_take]
  · rw [removed, ← List.length_pos_iff, List.length_take, List.length_reverse, ← hlen]
    omega

/-- **Dequeue** of a loaded wheel serves as it should and leaves a loaded wheel. -/
theorem dequeue (h : Loaded cfg c held count) (hburst : c.maxDequeueBurst ≤ kMaxBurst)
    {r : DequeueResult} (hrun : c.dequeue cfg now = some r) :
    (callOf cfg c held now r).Served cfg ∧
      Loaded cfg r.carousel (callOf cfg c held now r).left count ∧
      (callOf cfg c held now r).left.length + r.taken.length = held.length ∧
      r.carousel.packetsNum = c.packetsNum ∧
      r.carousel.maxDequeueBurst = c.maxDequeueBurst := by
  cases dequeue_returned cfg hrun with
  | idle hquota hr =>
      subst hr
      rw [Call.left_of_nil rfl]
      exact ⟨⟨rfl, by simp [callOf, removed], by simp [callOf, removed],
        fun hpos => absurd hpos (not_lt.mpr hquota)⟩, h, rfl, rfl, rfl⟩
  | passed t hquota hscan hr =>
      subst hr
      rw [Call.left_of_nil rfl]
      rcases h.scan_cases hscan with ⟨_, hout, -⟩ | ⟨t', hout, hlt, hpast⟩
      · simp at hout
      obtain rfl := Sum.inr.inj hout
      refine ⟨⟨rfl, by simp [callOf, removed], by simp [callOf, removed],
        fun _ _ x hx => (hpast x hx).2.2⟩, ?_, rfl, rfl, rfl⟩
      exact ⟨h.lifo, h.counted, h.nodup, h.seq_lt, h.num, hlt, h.grn_lt,
        fun e he => (hpast e he).2.1, fun e he =>
          lt_of_lt_of_le (h.within e he) (Nat.add_le_add_right (hpast e he).1 _)⟩
  | served t b hquota hscan hb hr =>
      subst hr
      rcases h.scan_cases hscan with ⟨t', hout, hdue, hocc, hhead, hahead⟩ | ⟨_, hout, -⟩
      swap
      · simp at hout
      obtain rfl := (Prod.mk.inj (Sum.inl.inj hout)).2
      obtain ⟨hbatch, hne, hleft, hcounted⟩ := h.serve hquota hburst hocc hb
      set k := t % cfg.slots with hk
      have hmem : ∀ e ∈ removed cfg held (some k) b.taken.length,
          e ∈ slot (Placed.index cfg) held k :=
        fun e he => List.mem_reverse.mp (List.mem_of_mem_take he)
      have hgrn : ∀ e ∈ removed cfg held (some k) b.taken.length, e.grn = t := fun e he =>
        h.grn_eq hhead hahead (hmem e he)
      have hlt : t < 2 ^ 64 := by
        obtain ⟨e, he⟩ := List.exists_mem_of_ne_nil _ hne
        exact hgrn e he ▸ h.grn_lt e (mem_slot.mp (hmem e he)).1
      refine ⟨⟨hbatch, fun e he => ⟨(mem_slot.mp (hmem e he)).1, fun x hx => ?_⟩, fun e he => ?_,
        fun _ hnil => absurd hnil hne⟩, ?_, ?_, rfl, rfl⟩
      · exact (hgrn e he).trans_le (hahead x hx)
      · exact (hgrn e he).trans_le hdue
      · exact h.remove hhead hlt hahead hleft hcounted rfl rfl rfl
      · have hnd : (removed cfg held (some k) b.taken.length).Nodup :=
          ((List.nodup_reverse.mpr ((nodup_slot h.nodup).of_map)).sublist (List.take_sublist _ _))
        have hperm := (perm_append_without h.nodup hnd
          fun e he => (mem_slot.mp (hmem e he)).1).length_eq
        have hlen := congrArg List.length hbatch
        rw [List.length_map] at hlen
        rw [List.length_append, ← hlen] at hperm
        rw [Call.left]
        dsimp only [callOf]
        omega

end Loaded

/-! ### Runs -/

lemma newStamp_lt (info : FlowInfo) (bytes : ℕ) (hnow : now < 2 ^ 64) :
    FlowBundler.newStamp info bytes now < 2 ^ 64 := by
  rw [FlowBundler.newStamp]
  split
  · exact Nat.mod_lt _ (by norm_num)
  · exact hnow

namespace World

variable {w w' : World} {op : Op}

/-- Clock readings are 64-bit numbers. -/
def Admits (w : World) : Op → Prop
  | .enqueue batch => ∀ p ∈ batch, p.1 < 2 ^ 64
  | .dequeue now => now < 2 ^ 64
  | .runTask env => env.dequeueNow < 2 ^ 64 ∧ ∀ batch ∈ w.generated env, ∀ p ∈ batch, p.1 < 2 ^ 64
  | .setMaxDequeueBurst _ => True

instance (w : World) : (op : Op) → Decidable (w.Admits op)
  | .enqueue batch => inferInstanceAs (Decidable (∀ p ∈ batch, _))
  | .dequeue _ => inferInstanceAs (Decidable (_ < _))
  | .runTask _ => inferInstanceAs (Decidable (_ ∧ _))
  | .setMaxDequeueBurst _ => inferInstanceAs (Decidable True)

/-- The invariant of every run. -/
structure Inv (cfg : SlotConfig) (w : World) : Prop where
  loaded : Loaded cfg w.carousel w.held w.count
  burst_le : w.carousel.maxDequeueBurst ≤ kMaxBurst
  served : ∀ d ∈ w.calls, d.Served cfg

namespace Inv

lemma initial (h : w.Initial cfg) : w.Inv cfg := by
  obtain ⟨now, pktsNum, flowToGen, flowInfo, pktgen, hnow, rfl⟩ := h
  exact ⟨.nil (fun _ => rfl) (lt_of_le_of_lt (Nat.div_le_self _ _) hnow), Int.natCast_nonneg _,
    by simp⟩

/-- A round of `Enqueue` keeps the invariant. -/
lemma enqueueOne (h : w.Inv cfg) {p : ℕ × Packet} (hnow : p.1 < 2 ^ 64) :
    (w.enqueueOne cfg p).Inv cfg := by
  have hload := h.loaded.opened hnow p.2
  rw [World.enqueueOne]
  rcases enqueueOne_spec cfg w.carousel p.1 p.2 with
    ⟨hret, hsame⟩ | ⟨r, store, hins, hret, hgrn, -, hc⟩
  · rw [if_pos hret, hsame, List.append_nil]
    exact ⟨hload, h.burst_le, h.served⟩
  · rw [if_neg (by rw [hret]; exact lt_irrefl 0), hgrn, hc]
    refine ⟨hload.push { packet := p.2, flowId := p.2.src } ?_ hins.le hins.lt ?_ ?_ ?_, ?_,
      h.served⟩
    · rcases hins.slot with ⟨-, heq, -⟩ | ⟨-, heq, -⟩
      · exact heq ▸ hload.header_lt
      · rw [heq]
        exact lt_of_le_of_lt (Nat.div_le_self _ _) (newStamp_lt _ _ hnow)
    all_goals rw [hins.carousel]
    exact h.burst_le

/-- A call of `Enqueue` is one round after another. -/
lemma enqueue {batch : List (ℕ × Packet)} (hnow : ∀ p ∈ batch, p.1 < 2 ^ 64) :
    ∀ {w : World}, w.Inv cfg → (w.enqueue cfg batch).Inv cfg := by
  induction batch with
  | nil => exact fun h => h
  | cons p batch ih =>
      intro w h
      exact ih (fun q hq => hnow q (List.mem_cons_of_mem p hq))
        (h.enqueueOne (hnow p List.mem_cons_self))

/-- A call of `Dequeue` keeps the invariant. -/
lemma dequeue (h : w.Inv cfg) {now cnt : ℕ} (hrun : w.dequeue cfg now = some (w', cnt)) :
    w'.Inv cfg ∧ w'.held.length + cnt ≤ w'.carousel.packetsNum := by
  rw [World.dequeue, Option.map_eq_some_iff] at hrun
  obtain ⟨r, hr, heq⟩ := hrun
  obtain ⟨rfl, rfl⟩ := Prod.mk.inj heq
  obtain ⟨hserved, hload, hlen, hnum, hburst⟩ := h.loaded.dequeue h.burst_le hr
  refine ⟨⟨hload, hburst ▸ h.burst_le, fun d hd => ?_⟩, ?_⟩
  · rcases List.mem_append.mp hd with hd | hd
    · exact h.served d hd
    · exact List.mem_singleton.mp hd ▸ hserved
  · have := h.loaded.num
    rw [hnum]
    exact (hlen.trans_le this :)

/-- The count stays above the number of queued packets, whatever the port accepts. -/
lemma sendPackets (h : w.Inv cfg) (env : SlotEnv) {cnt : ℕ}
    (hnum : w.held.length + cnt ≤ w.carousel.packetsNum) : (w.sendPackets env cnt).Inv cfg := by
  rw [World.sendPackets]
  split
  · refine ⟨h.loaded.congr rfl rfl ?_, h.burst_le, h.served⟩
    dsimp only
    omega
  · exact h

lemma step (h : w.Inv cfg) (hok : w.Admits op) (hstep : w.step cfg op = some w') : w'.Inv cfg := by
  cases op with
  | enqueue batch =>
      obtain rfl := Option.some.inj hstep
      exact h.enqueue hok
  | dequeue now =>
      rw [World.step, Option.map_eq_some_iff] at hstep
      obtain ⟨⟨w₁, cnt⟩, hrun, rfl⟩ := hstep
      exact (h.dequeue hrun).1
  | runTask env =>
      rcases World.runTask_cases cfg hstep with ⟨rfl, -⟩ | ⟨batch, w₁, cnt, -, hgen, hrun, rfl⟩
      · exact h
      · obtain ⟨hinv, hnum⟩ := (h.enqueue (hok.2 batch hgen)).dequeue hrun
        exact hinv.sendPackets env hnum
  | setMaxDequeueBurst arg =>
      obtain rfl := Option.some.inj hstep
      refine ⟨h.loaded.congr rfl rfl h.loaded.num, ?_, h.served⟩
      dsimp only [setMaxDequeueBurst]
      split <;> omega

end Inv

end World

/-- **The wheel is correct**: in every run, whatever the clock reads and the ports accept, the
bucket of index `i` holds the packets whose slot number is `i` modulo the number of slots, with
the slot numbers in one turn from the head on; every call of `Dequeue` removes packets of the
least slot number, all of them due, and nothing only when nothing is due; and `Dequeue` returns,
unless it scans an empty wheel at the end of the range of the clock. -/
theorem wheel_correct {w : World} (hw : Reach cfg World.Admits w) :
    (∀ i, (w.carousel.queue i).nodes
        = ((w.held.filter fun e => e.grn % cfg.slots = i).reverse.map Placed.node)) ∧
      (∀ e ∈ w.held, w.carousel.headerTs ≤ e.grn ∧
        e.grn ≤ w.carousel.headerTs + cfg.slots - 1) ∧
      (∀ e ∈ w.held, ∀ e' ∈ w.held, e.grn ≠ e'.grn → e.grn % cfg.slots ≠ e'.grn % cfg.slots) ∧
      (∀ d ∈ w.calls, d.Served cfg) ∧
      ∀ now, w.held ≠ [] ∨ now / cfg.granularity + 1 < 2 ^ 64 →
        ∃ r, w.carousel.dequeue cfg now = some r := by
  have hinv : w.Inv cfg := hw.invariant (fun w hinit => .initial hinit)
    fun w w' op _ ih hok hstep => ih.step hok hstep
  refine ⟨hinv.loaded.lifo, fun e he => ?_, fun e he e' he' hne hindex => ?_, hinv.served,
    fun now hends => ?_⟩
  · have hahead := hinv.loaded.ahead e he
    have hwithin := hinv.loaded.within e he
    omega
  · exact hne (hinv.loaded.eq_of_index_eq he he' hindex)
  · obtain ⟨out, hout⟩ := hinv.loaded.scan_isSome hends
    rw [Carousel.dequeue, hout]
    dsimp only
    split
    · exact ⟨_, rfl⟩
    · cases out with
      | inl p => exact ⟨_, rfl⟩
      | inr t => exact ⟨_, rfl⟩

/-- A small wheel: of three packets the first two have left, one in a task whose port accepted
nothing. -/
theorem wheel_correct_run :
    ∃ w, Reach smallSlots World.Admits w ∧ w.held.length = 1 ∧ w.calls.length = 2 ∧
      w.carousel.packetsNum = 3 ∧
      (∀ i, (w.carousel.queue i).nodes
        = ((w.held.filter fun e => e.grn % smallSlots.slots = i).reverse.map Placed.node)) ∧
      (∀ e ∈ w.held, w.carousel.headerTs ≤ e.grn ∧
        e.grn ≤ w.carousel.headerTs + smallSlots.slots - 1) ∧
      (∀ e ∈ w.held, ∀ e' ∈ w.held, e.grn ≠ e'.grn →
        e.grn % smallSlots.slots ≠ e'.grn % smallSlots.slots) ∧
      (∀ d ∈ w.calls, d.Served smallSlots) ∧
      ∀ now, w.held ≠ [] ∨ now / smallSlots.granularity + 1 < 2 ^ 64 →
        ∃ r, w.carousel.dequeue smallSlots now = some r := by
  obtain ⟨w, hw, hheld, hcalls, hnum⟩ := exists_reach smallSlots 1000000000 World.Admits
    [.setMaxDequeueBurst 1,
      .enqueue [(0, packetOfLen 1 1500), (1, packetOfLen 1 1500), (2, packetOfLen 2 900)],
      .dequeue 20, .runTask (quietTask 30 0)]
    (fun w => w.held.length = 1 ∧ w.calls.length = 2 ∧ w.carousel.packetsNum = 3)
    (by decide +kernel)
  exact ⟨w, hw, hheld, hcalls, hnum, wheel_correct hw⟩

end Carousel

end Bess
