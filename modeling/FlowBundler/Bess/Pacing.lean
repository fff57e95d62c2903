import FlowBundler.Bess.Service
import FlowBundler.Bess.Carousel.Wheel
import FlowBundler.Bess.Eiffel.Sched
import FlowBundler.Lib.Pacing

/-!
Rate conformance of the send times that the three modules assign.

* `Accepted`: a packet that was accepted, with the `last_stamp` of its flow after it;
  `Conforms`: the stamps of two packets of a flow are as far apart as the rate of the flow asks.
* `StampFits`: the arithmetic of a new stamp does not overflow.
* `Round`: what a round of `Enqueue` does to flows and log, in all three modules;
  `FlowsPaced.round`: with a stamp that fits, it keeps the flows paced.
* `rate_conformance`: in every run without overflow, of any of the modules, stamps conform.

A new stamp is the last one plus the time of the packet at the rate of the flow, or the clock when
that is later; so the stamps of a flow are paced as `Lib.Pacing` has it, as long as the sum and the
product fit.  A stamp may be raised further, to the head of a wheel or to a base time, which does no
harm.  The three modules differ only in which packets a round accepts, so that each of them has a
lemma that its round is a `Round`, and shares the rest.
-/

namespace Bess

/-! ### Rounds -/

/-- A packet that was accepted. -/
structure Accepted where
  flow : ℕ
  bytes : ℕ
  /-- `last_stamp` of the flow after the packet. -/
  stamp : ℕ
  deriving DecidableEq

def effectiveRate (info : FlowInfo) : ℕ := if info.rate = 0 then defaultFlowRate else info.rate

/-- The time that a packet takes at a rate. -/
def spacing (rate bytes : ℕ) : ℕ := 8 * bytes * rateScale / rate

/-- For two accepted packets of a flow, the stamps are at least the times of the packets after
the first, up to the second, apart. -/
def Conforms (flowInfo : ℕ → FlowInfo) (log : List Accepted) : Prop :=
  ∀ (f : ℕ) (pre mid post : List Accepted) (a b : Accepted),
    log.filter (fun k => k.flow = f) = pre ++ a :: (mid ++ b :: post) →
      a.stamp + ((mid ++ [b]).map fun k => spacing (effectiveRate (flowInfo f)) k.bytes).sum
        ≤ b.stamp

/-- The new stamp of a packet is computed without overflow. -/
def StampFits (info : FlowInfo) (bytes : ℕ) : Prop :=
  8 * bytes < 2 ^ 32 ∧ info.lastStamp + spacing info.rate bytes < 2 ^ 64

instance (info : FlowInfo) (bytes : ℕ) : Decidable (StampFits info bytes) :=
  inferInstanceAs (Decidable (_ ∧ _))

/-- A stamp that fits is at least the time of its packet after the last one. -/
lemma le_newStamp {info : FlowInfo} {bytes : ℕ} (h : StampFits info bytes) (now : ℕ) :
    info.lastStamp + spacing info.rate bytes ≤ FlowBundler.newStamp info bytes now := by
  have hshift : bytes <<< 3 % 2 ^ 32 = 8 * bytes := by
    rw [Nat.shiftLeft_eq, Nat.mod_eq_of_lt (by have := h.1; omega)]
    ring
  have hstamp : (info.lastStamp + (bytes <<< 3 % 2 ^ 32) * rateScale / info.rate) % 2 ^ 64
      = info.lastStamp + spacing info.rate bytes := by
    rw [hshift]
    exact Nat.mod_eq_of_lt h.2
  rw [FlowBundler.newStamp, hstamp]
  split <;> omega

lemma orDefault_rate_ne (info : FlowInfo) (now : ℕ) : (info.orDefault now).rate ≠ 0 := by
  rw [FlowInfo.orDefault]
  split
  · exact (by decide : defaultFlowRate ≠ 0)
  · assumption

lemma orDefault_of_rate_ne {info : FlowInfo} (h : info.rate ≠ 0) (now : ℕ) :
    info.orDefault now = info := if_neg h

lemma effectiveRate_orDefault (info : FlowInfo) (now : ℕ) :
    (info.orDefault now).rate = effectiveRate info := by
  rw [FlowInfo.orDefault, effectiveRate]
  split <;> rfl

/-- **A round of `Enqueue`**, as it changes the flows and adds to the log. -/
inductive Round (flowInfo : ℕ → FlowInfo) (p : ℕ × Packet) (flowInfo' : ℕ → FlowInfo)
    (log : List Accepted) : Prop
  /-- Only the default rate is filled in. -/
  | dropped (hlog : log = [])
      (hinfo : flowInfo' = Function.update flowInfo p.2.src ((flowInfo p.2.src).orDefault p.1))
  /-- The stamp may have been raised. -/
  | accepted (stamp : ℕ) (hlog : log = [{ flow := p.2.src, bytes := p.2.totalLen, stamp := stamp }])
      (hinfo : flowInfo' = Function.update flowInfo p.2.src
        { (flowInfo p.2.src).orDefault p.1 with lastStamp := stamp })
      (hstamp : FlowBundler.newStamp ((flowInfo p.2.src).orDefault p.1) p.2.totalLen p.1 ≤ stamp)

/-- The log is paced at the rates of the flows, and the flows in it have a rate. -/
structure FlowsPaced (flowInfo : ℕ → FlowInfo) (log : List Accepted) : Prop where
  paced : Pacing.Paced Accepted.flow Accepted.stamp
    (fun a => spacing (effectiveRate (flowInfo a.flow)) a.bytes)
    (fun f => (flowInfo f).lastStamp) log
  rated : ∀ a ∈ log, (flowInfo a.flow).rate ≠ 0

namespace FlowsPaced

variable {flowInfo flowInfo' : ℕ → FlowInfo} {log new : List Accepted} {p : ℕ × Packet}

lemma nil (flowInfo : ℕ → FlowInfo) : FlowsPaced flowInfo [] := ⟨.nil _ _ _ _, by simp⟩

/-- A change of one flow to an information with its effective rate. -/
lemma effectiveRate_update {f : ℕ} (info : FlowInfo) (h : info.rate = effectiveRate (flowInfo f))
    (g : ℕ) : effectiveRate (Function.update flowInfo f info g) = effectiveRate (flowInfo g) := by
  by_cases hg : g = f
  · subst hg
    rw [Function.update_self]
    have hne : info.rate ≠ 0 := by
      rw [h, effectiveRate]
      split
      · decide
      · assumption
    rw [effectiveRate, if_neg hne, h]
  · rw [Function.update_of_ne hg]

/-- **A round keeps the flows paced** when its stamp fits. -/
theorem round (h : FlowsPaced flowInfo log) (hround : Round flowInfo p flowInfo' new)
    (hfits : StampFits ((flowInfo p.2.src).orDefault p.1) p.2.totalLen) :
    FlowsPaced flowInfo' (log ++ new) := by
  have hsame : ∀ a ∈ log, a.flow = p.2.src →
      (flowInfo p.2.src).orDefault p.1 = flowInfo p.2.src := fun a ha hf =>
    orDefault_of_rate_ne (hf ▸ h.rated a ha) p.1
  have hrated : ∀ info : FlowInfo, info.rate ≠ 0 → ∀ a ∈ log,
      (Function.update flowInfo p.2.src info a.flow).rate ≠ 0 := by
    intro info hinfo a ha
    by_cases hf : a.flow = p.2.src
    · rw [hf, Function.update_self]
      exact hinfo
    · rw [Function.update_of_ne hf]
      exact h.rated a ha
  cases hround with
  | dropped hlog hinfo =>
      subst hlog hinfo
      rw [List.append_nil]
      have hrate := effectiveRate_update _ (effectiveRate_orDefault (flowInfo p.2.src) p.1)
      refine ⟨?_, hrated _ (orDefault_rate_ne _ _)⟩
      simp only [hrate]
      refine h.paced.congr fun a ha => ?_
      by_cases hf : a.flow = p.2.src
      · rw [hf, Function.update_self, hsame a ha hf]
      · rw [Function.update_of_ne hf]
  | accepted stamp hlog hinfo hstamp =>
      subst hlog hinfo
      set info := (flowInfo p.2.src).orDefault p.1 with hdef
      have hrate := effectiveRate_update { info with lastStamp := stamp }
        (effectiveRate_orDefault (flowInfo p.2.src) p.1)
      refine ⟨?_, fun a ha => ?_⟩
      · simp only [hrate]
        refine h.paced.accept ?_ ?_ fun f hf => ?_
        · -- the flow has a stamp already, and the new one comes after it
          rintro ⟨a, ha, hf⟩
          have hle := (le_newStamp hfits p.1).trans hstamp
          rw [hdef, effectiveRate_orDefault, ← hdef, hsame a ha hf] at hle
          exact hle
        · rw [Function.update_self]
        · rw [Function.update_of_ne hf]
      · rcases List.mem_append.mp ha with ha | ha
        · exact hrated { info with lastStamp := stamp } (orDefault_rate_ne _ p.1) a ha
        · obtain rfl := List.mem_singleton.mp ha
          rw [Function.update_self]
          exact orDefault_rate_ne _ p.1

/-- Paced flows conform. -/
lemma conforms (h : FlowsPaced flowInfo log) : Conforms flowInfo log := by
  intro f pre mid post a b hsplit
  have hsum := h.paced.spaced.sum_le (k := f) hsplit
  have hflow : ∀ k ∈ mid ++ [b], k.flow = f := by
    intro k hk
    have hmem : k ∈ log.filter fun k => k.flow = f := by
      rw [hsplit]
      rcases List.mem_append.mp hk with hk | hk
      · simp [hk]
      · simp [List.mem_singleton.mp hk]
    simpa using (List.mem_filter.mp hmem).2
  rw [List.map_congr_left fun k hk => by rw [← hflow k hk]]
  exact hsum

end FlowsPaced

/-! ### FlowBundler -/

namespace FlowBundler

variable {cfg : Config}

lemma insert_flowInfo (fb : FlowBundler) (packet : Packet) (queueId sendTime flowId hashId : ℕ) :
    (fb.insert cfg packet queueId sendTime flowId hashId).fb.flowInfo = fb.flowInfo := by
  have hfirst : (fb.firstPacket queueId sendTime).flowInfo = fb.flowInfo := by
    rw [firstPacket]
    split <;> rfl
  have hbucket : ∀ (fb : FlowBundler) (loc : Location),
      (fb.enqueuePacket loc packet flowId sendTime hashId).2.2.flowInfo = fb.flowInfo := by
    intro fb loc
    rw [enqueuePacket]
    split <;> rfl
  rw [insert]
  dsimp only
  split
  · exact (hbucket _ _).trans hfirst
  · exact (hbucket _ _).trans hfirst

/-- A round of `Enqueue`. -/
lemma enqueueOne_round (fb : FlowBundler) (now : ℕ) (pkt : Packet) (aggreRate hashId : ℕ) :
    Round fb.flowInfo (now, pkt) (fb.enqueueOne cfg now pkt aggreRate hashId).fb.flowInfo
      (if (fb.enqueueOne cfg now pkt aggreRate hashId).ret < 0 then []
        else [{ flow := pkt.src, bytes := pkt.totalLen
                stamp := ((fb.enqueueOne cfg now pkt aggreRate hashId).fb.flowInfo
                  pkt.src).lastStamp }]) := by
  rw [enqueueOne]
  dsimp only
  split
  · rw [insert_flowInfo]
    exact .dropped rfl rfl
  · dsimp only
    rw [insert_flowInfo, Function.update_idem, Function.update_self]
    exact .accepted (fb.stampOf pkt now) rfl rfl le_rfl

lemma dequeueLoop_flowInfo (maxBytes : ℕ) : ∀ (quota : ℕ) (fb : FlowBundler) (head : Option ℕ),
    (dequeueLoop maxBytes quota fb head).fb.flowInfo = fb.flowInfo := by
  intro quota
  induction quota with
  | zero => exact fun _ _ => rfl
  | succ quota ih =>
      intro fb head
      cases head with
      | none => rfl
      | some pkt =>
          rw [dequeueLoop]
          exact ih _ _

lemma dequeuePacketBulk_flowInfo (fb : FlowBundler) (loc : Location) :
    (fb.dequeuePacketBulk cfg loc).1.fb.flowInfo = fb.flowInfo := by
  rw [dequeuePacketBulk]
  dsimp only
  split
  · rfl
  · exact dequeueLoop_flowInfo _ _ _ _

lemma afterBulk_flowInfo (fb : FlowBundler) (level dequeueNum : ℕ) :
    (fb.afterBulk level dequeueNum).flowInfo = fb.flowInfo := by
  rw [afterBulk]
  dsimp only
  split <;> rfl

lemma scanRound_flowInfo {fb : FlowBundler} {t : ℕ} {b : BulkResult × ℕ}
    (h : fb.scanRound cfg t = some b) : b.1.fb.flowInfo = fb.flowInfo := by
  rw [scanRound] at h
  dsimp only at h
  split at h
  · split at h
    · obtain rfl := Option.some.inj h
      exact (afterBulk_flowInfo _ _ _).trans (dequeuePacketBulk_flowInfo _ _)
    · simp at h
  · simp at h

/-- A `Dequeue` leaves the flows alone. -/
lemma dequeue_flowInfo {fb : FlowBundler} {now garbage : ℕ} {r : DequeueResult}
    (h : fb.dequeue cfg now garbage = some r) : r.fb.flowInfo = fb.flowInfo := by
  cases dequeue_returned h with
  | empty _ hr => rw [hr]
  | hit b num t _ hround hr =>
      rw [hr]
      exact scanRound_flowInfo hround
  | miss t num hr => rw [hr]

end FlowBundler

namespace World

/-- The packet that an operation accepts. -/
def accepted (cfg : Config) (w : World) : Op → List Accepted
  | .enqueue now pkt aggreRate hashId =>
      let r := w.fb.enqueueOne cfg now pkt aggreRate hashId
      if r.ret < 0 then []
      else [{ flow := pkt.src, bytes := pkt.totalLen, stamp := (r.fb.flowInfo pkt.src).lastStamp }]
  | .dequeue _ _ => []

/-- The stamps of an operation fit. -/
def Fits (w : World) : Op → Prop
  | .enqueue now pkt _ _ => StampFits (w.fb.infoOf pkt.src now) pkt.totalLen
  | .dequeue _ _ => True

instance (w : World) : (op : Op) → Decidable (w.Fits op)
  | .enqueue _ _ _ _ => inferInstanceAs (Decidable (StampFits _ _))
  | .dequeue _ _ => inferInstanceAs (Decidable True)

lemma flowsPaced_step {cfg : Config} {w w' : World} {log : List Accepted} {op : Op}
    (h : FlowsPaced w.fb.flowInfo log) (hok : w.Fits op) (hstep : w.step cfg op = some w') :
    FlowsPaced w'.fb.flowInfo (log ++ w.accepted cfg op) := by
  cases op with
  | enqueue now pkt aggreRate hashId =>
      obtain rfl := Option.some.inj hstep
      exact h.round (FlowBundler.enqueueOne_round w.fb now pkt aggreRate hashId) hok
  | dequeue now garbage =>
      rw [World.step, Option.map_eq_some_iff] at hstep
      obtain ⟨r, hr, rfl⟩ := hstep
      rw [World.accepted, List.append_nil]
      dsimp only
      rw [FlowBundler.dequeue_flowInfo hr]
      exact h

end World

/-! ### Batches -/

section Batch

variable {σ : Type*}

/-- The packets of a batch that are accepted, when `round` makes a round and `emit` says what it
accepts. -/
def acceptedIn (round : σ → ℕ × Packet → σ) (emit : σ → ℕ × Packet → List Accepted) :
    σ → List (ℕ × Packet) → List Accepted
  | _, [] => []
  | s, p :: batch => emit s p ++ acceptedIn round emit (round s p) batch

/-- The rounds of a batch fit, each in the state where it is made. -/
def BatchFits (round : σ → ℕ × Packet → σ) (fits : σ → ℕ × Packet → Prop) :
    σ → List (ℕ × Packet) → Prop
  | _, [] => True
  | s, p :: batch => fits s p ∧ BatchFits round fits (round s p) batch

instance decidableBatchFits (round : σ → ℕ × Packet → σ) (fits : σ → ℕ × Packet → Prop)
    [∀ s p, Decidable (fits s p)] :
    (s : σ) → (batch : List (ℕ × Packet)) → Decidable (BatchFits round fits s batch)
  | _, [] => inferInstanceAs (Decidable True)
  | s, p :: batch =>
      have := decidableBatchFits round fits (round s p) batch
      inferInstanceAs (Decidable (fits s p ∧ BatchFits round fits (round s p) batch))

/-- A batch keeps the flows paced, by induction on its rounds. -/
lemma flowsPaced_batch {round : σ → ℕ × Packet → σ} {emit : σ → ℕ × Packet → List Accepted}
    {fits : σ → ℕ × Packet → Prop} (info : σ → ℕ → FlowInfo)
    (hround : ∀ s p, fits s p → StampFits ((info s p.2.src).orDefault p.1) p.2.totalLen ∧
      Round (info s) p (info (round s p)) (emit s p)) {batch : List (ℕ × Packet)} :
    ∀ {s : σ} {log : List Accepted}, FlowsPaced (info s) log → BatchFits round fits s batch →
      FlowsPaced (info (batch.foldl round s)) (log ++ acceptedIn round emit s batch) := by
  induction batch with
  | nil =>
      intro s log h _
      rw [acceptedIn, List.append_nil]
      exact h
  | cons p batch ih =>
      intro s log h hfits
      obtain ⟨hstamp, hp⟩ := hround s p hfits.1
      rw [acceptedIn, ← List.append_assoc, List.foldl_cons]
      exact ih (h.round hp hstamp) hfits.2

end Batch

/-! ### Carousel -/

namespace Carousel

variable {cfg : SlotConfig}

/-- The stamp of a round fits, also when it is raised to the head of the wheel. -/
def RoundFits (cfg : SlotConfig) (c : Carousel) (p : ℕ × Packet) : Prop :=
  StampFits ((c.flowInfo p.2.src).orDefault p.1) p.2.totalLen ∧
    (c.opened cfg p.1 p.2).headerTs * cfg.granularity < 2 ^ 64

instance (c : Carousel) (p : ℕ × Packet) : Decidable (RoundFits cfg c p) :=
  inferInstanceAs (Decidable (_ ∧ _))

/-- A late packet is stamped with the start of the granule at the head, which is later than
its send time. -/
lemma Inserted.le_sendTime {c : Carousel} {packet : Packet} {sendTime flowId : ℕ} {r : InsertResult}
    {store : ListBucket.Store} (h : Inserted cfg c packet sendTime flowId r store)
    (hfits : c.headerTs * cfg.granularity < 2 ^ 64) : sendTime ≤ r.sendTime := by
  rcases h.slot with ⟨hlate, -, hsend⟩ | ⟨-, -, hsend⟩
  · rw [hsend, Nat.mod_eq_of_lt hfits]
    calc sendTime ≤ (sendTime / cfg.granularity + 1) * cfg.granularity :=
          (Nat.lt_mul_of_div_lt (Nat.lt_succ_self _) cfg.granularity_pos).le
      _ ≤ c.headerTs * cfg.granularity := Nat.mul_le_mul_right _ hlate
  · exact hsend.ge

namespace World

/-- What a round accepts. -/
def acceptedOne (cfg : SlotConfig) (w : World) (p : ℕ × Packet) : List Accepted :=
  let r := w.carousel.enqueueOne cfg p.1 p.2
  if r.ret < 0 then []
  else [{ flow := p.2.src, bytes := p.2.totalLen
          stamp := (r.carousel.flowInfo p.2.src).lastStamp }]

/-- A round of `Enqueue`. -/
lemma enqueueOne_round {w : World} {p : ℕ × Packet} (hfits : RoundFits cfg w.carousel p) :
    Round w.carousel.flowInfo p (w.enqueueOne cfg p).carousel.flowInfo (w.acceptedOne cfg p) := by
  rw [acceptedOne, World.enqueueOne]
  dsimp only
  rcases enqueueOne_spec cfg w.carousel p.1 p.2 with
    ⟨hret, hsame⟩ | ⟨r, store, hins, hret, -, -, hc⟩
  · rw [if_pos hret, hsame]
    exact .dropped rfl rfl
  · have hinfo : (w.carousel.enqueueOne cfg p.1 p.2).carousel.flowInfo
        = Function.update w.carousel.flowInfo p.2.src
          { (w.carousel.flowInfo p.2.src).orDefault p.1 with lastStamp := r.sendTime } := by
      rw [hc, hins.carousel]
      exact Function.update_idem _ _ _
    rw [if_neg (by rw [hret]; exact lt_irrefl 0), hinfo, Function.update_self]
    exact .accepted r.sendTime rfl rfl (hins.le_sendTime hfits.2)

/-- The packets that an operation hands to `Enqueue`. -/
def batchOf (w : World) : Op → List (ℕ × Packet)
  | .enqueue batch => batch
  | .runTask env => if env.childrenOverload > 0 then [] else (w.generated env).getD []
  | .dequeue _ => []
  | .setMaxDequeueBurst _ => []

def accepted (cfg : SlotConfig) (w : World) (op : Op) : List Accepted :=
  acceptedIn (World.enqueueOne cfg) (acceptedOne cfg) w (w.batchOf op)

/-- The rounds of an operation fit. -/
def Fits (cfg : SlotConfig) (w : World) (op : Op) : Prop :=
  BatchFits (World.enqueueOne cfg) (fun w p => RoundFits cfg w.carousel p) w (w.batchOf op)

instance (w : World) (op : Op) : Decidable (w.Fits cfg op) := decidableBatchFits _ _ _ _

/-- A `Dequeue` leaves the flows alone. -/
lemma dequeue_flowInfo {w w' : World} {now cnt : ℕ} (h : w.dequeue cfg now = some (w', cnt)) :
    w'.carousel.flowInfo = w.carousel.flowInfo := by
  rw [World.dequeue, Option.map_eq_some_iff] at h
  obtain ⟨r, hr, heq⟩ := h
  obtain ⟨rfl, -⟩ := Prod.mk.inj heq
  cases dequeue_returned cfg hr with
  | idle _ hr => rw [hr]
  | passed t _ _ hr => rw [hr]
  | served t b _ _ _ hr => rw [hr]

/-- Only the rounds of an operation change the flows. -/
lemma step_flowInfo {w w' : World} {op : Op} (h : w.step cfg op = some w') :
    w'.carousel.flowInfo = ((w.batchOf op).foldl (World.enqueueOne cfg) w).carousel.flowInfo := by
  cases op with
  | enqueue batch =>
      obtain rfl := Option.some.inj h
      rfl
  | dequeue now =>
      rw [World.step, Option.map_eq_some_iff] at h
      obtain ⟨⟨w₁, cnt⟩, hrun, rfl⟩ := h
      exact dequeue_flowInfo hrun
  | runTask env =>
      rw [batchOf]
      rcases World.runTask_cases cfg h with ⟨rfl, hnone⟩ | ⟨batch, w₁, cnt, hover, hgen, hrun, rfl⟩
      · rcases hnone with hover | hgen
        · rw [if_pos hover]
          rfl
        · rw [hgen, Option.getD_none, ite_self]
          rfl
      · have hsend : (w₁.sendPackets env cnt).carousel.flowInfo = w₁.carousel.flowInfo := by
          rw [World.sendPackets]
          split <;> rfl
        rw [if_neg (by omega), hgen, Option.getD_some]
        exact hsend.trans (dequeue_flowInfo hrun)
  | setMaxDequeueBurst arg =>
      obtain rfl := Option.some.inj h
      rfl

lemma flowsPaced_step {w w' : World} {log : List Accepted} {op : Op}
    (h : FlowsPaced w.carousel.flowInfo log) (hok : w.Fits cfg op)
    (hstep : w.step cfg op = some w') :
    FlowsPaced w'.carousel.flowInfo (log ++ w.accepted cfg op) := by
  rw [step_flowInfo hstep]
  exact flowsPaced_batch (fun w : World => w.carousel.flowInfo)
    (fun _ _ hfits => ⟨hfits.1, enqueueOne_round hfits⟩) h hok

end World

end Carousel

/-! ### Eiffel -/

namespace Eiffel

variable {cfg : SlotConfig}

def RoundFits (e : Eiffel) (p : ℕ × Packet) : Prop :=
  StampFits ((e.flowInfo p.2.src).orDefault p.1) p.2.totalLen

instance (e : Eiffel) (p : ℕ × Packet) : Decidable (e.RoundFits p) :=
  inferInstanceAs (Decidable (StampFits _ _))

/-- `DropPacketInsert` raises the send time of a late packet. -/
lemma le_dropPacketInsert (e : Eiffel) (packet : Packet) (sendTime flowId : ℕ) :
    sendTime ≤ (e.dropPacketInsert cfg packet sendTime flowId).sendTime := by
  rw [dropPacketInsert]
  split
  · split
    · rename_i hlate
      exact hlate.le
    · exact le_rfl
  · split <;> exact le_rfl

/-- What a round accepts. -/
def acceptedOne (cfg : SlotConfig) (e : Eiffel) (p : ℕ × Packet) : List Accepted :=
  let r := e.enqueueOne cfg p
  if r.ret < 0 then []
  else [{ flow := p.2.src, bytes := p.2.totalLen, stamp := (r.eiffel.flowInfo p.2.src).lastStamp }]

/-- A round of `Enqueue`. -/
lemma enqueueOne_round (e : Eiffel) (p : ℕ × Packet) :
    Round e.flowInfo p (e.enqueueOne cfg p).eiffel.flowInfo (e.acceptedOne cfg p) := by
  rw [acceptedOne, enqueueOne]
  dsimp only
  set e₀ : Eiffel := { e with
    flowInfo := Function.update e.flowInfo p.2.src ((e.flowInfo p.2.src).orDefault p.1) } with he₀
  obtain ⟨_, _, _, _, _, hframe⟩ := e₀.dropPacketInsert_frame cfg p.2
    (FlowBundler.newStamp ((e.flowInfo p.2.src).orDefault p.1) p.2.totalLen p.1) p.2.src
  have hsend := @le_dropPacketInsert cfg e₀ p.2
    (FlowBundler.newStamp ((e.flowInfo p.2.src).orDefault p.1) p.2.totalLen p.1) p.2.src
  split
  · rw [hframe]
    exact .dropped rfl rfl
  · dsimp only
    rw [hframe, he₀, Function.update_idem, Function.update_self]
    exact .accepted _ rfl rfl hsend

/-- A round, as a change of the module. -/
def round (cfg : SlotConfig) (e : Eiffel) (p : ℕ × Packet) : Eiffel := (e.enqueueOne cfg p).eiffel

/-- The packets that an operation hands to `Enqueue`. -/
def batchOf (e : Eiffel) : Op → List (ℕ × Packet)
  | .enqueue batch => batch
  | .runTask env =>
      if env.childrenOverload > 0 then []
      else (env.generated e.store.flowToGen e.pktgen).getD []
  | .dequeue _ => []
  | .setMaxDequeueBurst _ => []

lemma batchOf_runTask {e : Eiffel} {env : SlotEnv} {batch : List (ℕ × Packet)}
    (hover : env.childrenOverload = 0)
    (hgen : env.generated e.store.flowToGen e.pktgen = some batch) :
    e.batchOf (.runTask env) = batch := by
  rw [batchOf, if_neg (by omega), hgen, Option.getD_some]

def accepted (cfg : SlotConfig) (e : Eiffel) (op : Op) : List Accepted :=
  acceptedIn (round cfg) (acceptedOne cfg) e (e.batchOf op)

/-- The rounds of an operation fit. -/
def Fits (cfg : SlotConfig) (e : Eiffel) (op : Op) : Prop :=
  BatchFits (round cfg) RoundFits e (e.batchOf op)

instance (e : Eiffel) (op : Op) : Decidable (e.Fits cfg op) := decidableBatchFits _ _ _ _

/-- A `Dequeue` leaves the flows alone. -/
lemma dequeue_flowInfo (e : Eiffel) (now : ℕ) :
    (e.dequeue cfg now).eiffel.flowInfo = e.flowInfo := by
  rw [dequeue]
  split
  · rfl
  · dsimp only
    -- with or without a rotation, due or not
    split
    · split <;> rfl
    · split <;> rfl

/-- Only the rounds of an operation change the flows. -/
lemma step_flowInfo {e e' : Eiffel} {op : Op} (h : e.step cfg op = some e') :
    e'.flowInfo = ((e.batchOf op).foldl (round cfg) e).flowInfo := by
  cases op with
  | enqueue batch =>
      obtain rfl := Option.some.inj h
      rfl
  | dequeue now =>
      obtain rfl := Option.some.inj h
      exact dequeue_flowInfo e now
  | runTask env =>
      obtain rfl := Option.some.inj h
      rcases e.runTask_cases cfg env with ⟨hsame, hnone⟩ | ⟨batch, hover, hgen⟩
      · rw [hsame, batchOf]
        rcases hnone with hover | hgen
        · rw [if_pos hover]
          rfl
        · rw [hgen, Option.getD_none, ite_self]
          rfl
      · rw [batchOf_runTask hover hgen, runTask_of_generated cfg hover hgen]
        exact dequeue_flowInfo _ _
  | setMaxDequeueBurst arg =>
      obtain rfl := Option.some.inj h
      rfl

lemma flowsPaced_step {e e' : Eiffel} {log : List Accepted} {op : Op}
    (h : FlowsPaced e.flowInfo log) (hok : e.Fits cfg op) (hstep : e.step cfg op = some e') :
    FlowsPaced e'.flowInfo (log ++ e.accepted cfg op) := by
  rw [step_flowInfo hstep]
  exact flowsPaced_batch Eiffel.flowInfo
    (fun e p hfits => ⟨hfits, enqueueOne_round e p⟩) h hok

end Eiffel

/-! ### Runs -/

/-- The runs of a module from any state on, with the packets accepted since. -/
abbrev PacedRun {σ ι : Type} (step : σ → ι → Option σ) (accepted : σ → ι → List Accepted)
    (ok : σ → ι → Prop) : σ × List Accepted → Prop :=
  Machine.Reach (Machine.logged step accepted) (fun s => s.2 = []) (fun s op => ok s.1 op)

/-- A run from an empty log whose end satisfies `p` reaches such an end. -/
lemma exists_pacedRun {σ ι : Type} (step : σ → ι → Option σ) (accepted : σ → ι → List Accepted)
    (ok : σ → ι → Prop) [∀ s op, Decidable (ok s op)] (s : σ) (ops : List ι)
    (p : σ × List Accepted → Prop) [DecidablePred p]
    (h : (Machine.run (Machine.logged step accepted) (fun s op => ok s.1 op) (s, []) ops).any
      (fun s => p s) = true) : ∃ s, PacedRun step accepted ok s ∧ p s := by
  exact @Machine.exists_reach _ _ (Machine.logged step accepted) (fun s => s.2 = [])
    (fun s op => ok s.1 op) (s, []) _ rfl ops p _ h

/-- **Rate conformance**: in every run of FlowBundler, of Carousel and of Eiffel, from any state
on, in which the stamps fit, the stamps of the packets of a flow conform to its rate. -/
theorem rate_conformance (cfg : Config) (slotCfg : SlotConfig) :
    (∀ s, PacedRun (World.step cfg) (World.accepted cfg) World.Fits s →
        Conforms s.1.fb.flowInfo s.2) ∧
      (∀ s, PacedRun (Carousel.World.step slotCfg) (Carousel.World.accepted slotCfg)
        (Carousel.World.Fits slotCfg) s → Conforms s.1.carousel.flowInfo s.2) ∧
      (∀ s, PacedRun (Eiffel.step slotCfg) (Eiffel.accepted slotCfg) (Eiffel.Fits slotCfg) s →
        Conforms s.1.flowInfo s.2) := by
  refine ⟨fun s hs => ?_, fun s hs => ?_, fun s hs => ?_⟩
  · have hpaced := hs.logged (I := fun w log => FlowsPaced w.fb.flowInfo log)
      (fun w => .nil _) fun w w' log op h hok hstep => World.flowsPaced_step h hok hstep
    exact hpaced.conforms
  · have hpaced := hs.logged (I := fun w log => FlowsPaced w.carousel.flowInfo log)
      (fun w => .nil _) fun w w' log op h hok hstep => Carousel.World.flowsPaced_step h hok hstep
    exact hpaced.conforms
  · have hpaced := hs.logged (I := fun e log => FlowsPaced e.flowInfo log)
      (fun e => .nil _) fun e e' log op h hok hstep => Eiffel.flowsPaced_step h hok hstep
    exact hpaced.conforms

/-- Two packets of a flow in each module, with stamps that fit. -/
theorem rate_conformance_run :
    (∃ s, PacedRun (World.step sampleConfig) (World.accepted sampleConfig) World.Fits s ∧
        s.2.map Accepted.stamp = [512, 1024] ∧ Conforms s.1.fb.flowInfo s.2) ∧
      (∃ s, PacedRun (Carousel.World.step smallSlots) (Carousel.World.accepted smallSlots)
        (Carousel.World.Fits smallSlots) s ∧
        s.2.map Accepted.stamp = [12, 24] ∧ Conforms s.1.carousel.flowInfo s.2) ∧
      ∃ s, PacedRun (Eiffel.step smallSlots) (Eiffel.accepted smallSlots)
        (Eiffel.Fits smallSlots) s ∧
        s.2.map Accepted.stamp = [12, 24] ∧ Conforms s.1.flowInfo s.2 := by
  obtain ⟨hbundler, hcarousel, heiffel⟩ := rate_conformance sampleConfig smallSlots
  obtain ⟨s₁, hs₁, hlog₁⟩ := exists_pacedRun (World.step sampleConfig)
    (World.accepted sampleConfig) World.Fits (startAt sampleConfig 23437500)
    [.enqueue 0 (packetOf 1 100) 20000000 0, .enqueue 0 (packetOf 1 101) 20000000 0]
    (fun s => s.2.map Accepted.stamp = [512, 1024]) (by decide +kernel)
  obtain ⟨s₂, hs₂, hlog₂⟩ := exists_pacedRun (Carousel.World.step smallSlots)
    (Carousel.World.accepted smallSlots) (Carousel.World.Fits smallSlots)
    (Carousel.startAt smallSlots 1000000000)
    [.enqueue [(0, packetOfLen 1 1500)], .dequeue 5, .enqueue [(6, packetOfLen 1 1500)]]
    (fun s => s.2.map Accepted.stamp = [12, 24]) (by decide +kernel)
  obtain ⟨s₃, hs₃, hlog₃⟩ := exists_pacedRun (Eiffel.step smallSlots)
    (Eiffel.accepted smallSlots) (Eiffel.Fits smallSlots)
    (Eiffel.startAt 1000000000)
    [.enqueue [(0, packetOfLen 1 1500)], .dequeue 5, .enqueue [(6, packetOfLen 1 1500)]]
    (fun s => s.2.map Accepted.stamp = [12, 24]) (by decide +kernel)
  exact ⟨⟨s₁, hs₁, hlog₁, hbundler s₁ hs₁⟩, ⟨s₂, hs₂, hlog₂, hcarousel s₂ hs₂⟩,
    ⟨s₃, hs₃, hlog₃, heiffel s₃ hs₃⟩⟩

/-- Two packets of `2^29` bytes of one flow, enqueued at clock `0` after `Init`: the shift that
turns bytes into bits overflows, and both get the stamp `0`. -/
theorem rate_exceeded :
    ∃ w s, w.Initial smallSlots ∧
      Machine.exec (Machine.logged (Carousel.World.step smallSlots)
          (Carousel.World.accepted smallSlots)) (w, [])
        [.enqueue [(0, packetOfLen 1 (2 ^ 29)), (0, packetOfLen 1 (2 ^ 29))]] = some s ∧
      ¬ Conforms s.1.carousel.flowInfo s.2 := by
  set big : Accepted := { flow := 1, bytes := 2 ^ 29, stamp := 0 } with hbig
  have hrun : ((Machine.exec (Machine.logged (Carousel.World.step smallSlots)
      (Carousel.World.accepted smallSlots)) (Carousel.startAt smallSlots 1000000, [])
      [.enqueue [(0, packetOfLen 1 (2 ^ 29)), (0, packetOfLen 1 (2 ^ 29))]]).any fun s =>
        s.2 = [big, big] ∧ effectiveRate (s.1.carousel.flowInfo 1) = 1000000) = true := by
    decide +kernel
  cases hexec : Machine.exec (Machine.logged (Carousel.World.step smallSlots)
      (Carousel.World.accepted smallSlots)) (Carousel.startAt smallSlots 1000000, [])
      [.enqueue [(0, packetOfLen 1 (2 ^ 29)), (0, packetOfLen 1 (2 ^ 29))]] with
  | none => rw [hexec] at hrun; simp at hrun
  | some s =>
      rw [hexec, Option.any_some, decide_eq_true_eq] at hrun
      obtain ⟨hlog, hrate⟩ := hrun
      refine ⟨Carousel.startAt smallSlots 1000000, s, ⟨0, _, _, _, _, by norm_num, rfl⟩, hexec,
        fun hconf => ?_⟩
      have hle := hconf 1 [] [] [] big big (by rw [hlog]; rfl)
      rw [hrate] at hle
      exact absurd hle (by decide)

end Bess
