import FlowBundler.Bess.Service

/-!
The order in which the packets of one flow leave.

* `Placed.Follows`: a packet of the same flow, accepted later and with a later send time.
* `World.InOrder f`: no packet of `f` leaves before one it follows, neither in an earlier batch
  nor earlier in the same batch.
* `World.SpacesFlow f`: a packet of `f` is placed at a later deadline than every held packet of
  `f` it follows, and no scan can meet a packet of `f` one rotation too soon.
* `flow_leaves_in_order`: then the flow is in order; `flow_leaves_reversed`: two packets of one
  granule share a bucket, which is served from the front, where the later one is.

The invariant (`Ordered`) is that of the held packets of `f` those with a later send time have a
later deadline.  Then a `Dequeue` takes, of the packets of `f`, some of one deadline only, the
least one held (no packet of `f` shares a bucket with a later rotation), and none of these follows
another.  So spacing the deadlines suffices although a bucket is served from the front.
-/

namespace Bess

open Ledger Dyadic FlowBundler

variable {cfg : Config} {w w' : World} {f : ℕ}

/-- The packet `x` is of the flow of `y`, was accepted after it and has a later send time. -/
def Placed.Follows (x y : Placed) : Prop :=
  x.flowId = y.flowId ∧ y.seq < x.seq ∧ y.sendTime < x.sendTime

instance (x y : Placed) : Decidable (x.Follows y) := inferInstanceAs (Decidable (_ ∧ _ ∧ _))

/-- The time at which a round of `Enqueue` with queue index `q` and send time `s` places its
packet. -/
def FlowBundler.placedAt (cfg : Config) (fb : FlowBundler) (q s : ℕ) : ℕ :=
  ceilTo (finalQueueId cfg q (headFor fb q s) (actualTime (headFor fb q s) s) + cfg.minGranScale)
    (actualTime (headFor fb q s) s)

namespace World

/-- No packet of `f` that left follows one that left after it or is still held. -/
structure InOrder (f : ℕ) (w : World) : Prop where
  sent : (w.sent.map Prod.fst).Pairwise fun x y => x.flowId = f → ¬ x.Follows y
  held : ∀ x ∈ w.sent.map Prod.fst, x.flowId = f → ∀ y ∈ w.held, ¬ x.Follows y

/-- A packet of `f` with room in the pool is placed later than every held packet of `f` with an
earlier send time, and every held packet of `f` is less than one rotation ahead of the first
bucket of a scan. -/
def SpacesFlow (cfg : Config) (f : ℕ) (w : World) : Op → Prop
  | .enqueue now pkt aggreRate _ =>
      pkt.src = f → w.fb.nPacketsTotal ≠ cfg.mempoolSize →
        ∀ e ∈ w.held, e.flowId = f → e.sendTime < w.fb.stampOf pkt now →
          e.deadline cfg
            < w.fb.placedAt cfg (findQueueIndex cfg aggreRate) (w.fb.stampOf pkt now)
  | .dequeue _ _ =>
      ∀ e ∈ w.held, e.flowId = f → e.deadline cfg
        < w.fb.firstKey cfg + 2 ^ (e.loc.queueId + cfg.minGranScale + cfg.bucketNumScale)

instance (cfg : Config) (f : ℕ) (w : World) : (op : Op) → Decidable (w.SpacesFlow cfg f op)
  | .enqueue _ _ _ _ => inferInstanceAs (Decidable (_ → _ → ∀ e ∈ w.held, _))
  | .dequeue _ _ => inferInstanceAs (Decidable (∀ e ∈ w.held, _))

/-- The packets of `f` are numbered, and the held ones have deadlines in the order of those
they follow. -/
structure Ordered (cfg : Config) (f : ℕ) (w : World) : Prop where
  inOrder : w.InOrder f
  held_lt : ∀ e ∈ w.held, e.seq < w.count
  sent_lt : ∀ e ∈ w.sent.map Prod.fst, e.seq < w.count
  spaced : ∀ x ∈ w.held, x.flowId = f → ∀ y ∈ w.held, x.Follows y →
    y.deadline cfg < x.deadline cfg

lemma Places.deadline_eq {pkt : Packet} {q s : ℕ} {e : Placed} (h : w.Places cfg pkt q s e) :
    e.deadline cfg = w.fb.placedAt cfg q s := by
  rw [Placed.deadline, h.queueId, h.actual]
  rfl

/-- The order is one of the packets and their number only. -/
lemma Ordered.congr (h : w.Ordered cfg f) (hheld : w'.held = w.held) (hsent : w'.sent = w.sent)
    (hcount : w'.count = w.count) : w'.Ordered cfg f := by
  obtain ⟨⟨hs, hh⟩, hlt, hslt, hspaced⟩ := h
  rw [← hsent] at hs hh hslt
  rw [← hheld] at hh hlt hspaced
  rw [← hcount] at hlt hslt
  exact ⟨⟨hs, hh⟩, hlt, hslt, hspaced⟩

/-- A new packet behind all others, spaced from those it follows, keeps the order. -/
lemma Ordered.append {pkt : Packet} {q s : ℕ} {e : Placed} (h : w.Ordered cfg f)
    (hplaces : w.Places cfg pkt q s e) (hheld : w'.held = w.held ++ [e])
    (hsent : w'.sent = w.sent) (hcount : w'.count = w.count + 1)
    (hspaces : pkt.src = f → ∀ y ∈ w.held, y.flowId = f → y.sendTime < s →
      y.deadline cfg < w.fb.placedAt cfg q s) : w'.Ordered cfg f := by
  have hmem : ∀ x ∈ w'.held, x ∈ w.held ∨ x = e := fun x hx => by simpa [hheld] using hx
  have hseq := hplaces.seq
  refine ⟨⟨?_, ?_⟩, ?_, ?_, ?_⟩
  · rw [hsent]
    exact h.inOrder.sent
  · intro x hx hf y hy hfollows
    rw [hsent] at hx
    rcases hmem y hy with hy | rfl
    · exact h.inOrder.held x hx hf y hy hfollows
    · have := h.sent_lt x hx
      have := hfollows.2.1
      omega
  · intro x hx
    rcases hmem x hx with hx | rfl
    · have := h.held_lt x hx
      omega
    · omega
  · intro x hx
    rw [hsent] at hx
    have := h.sent_lt x hx
    omega
  · intro x hx hf y hy hfollows
    have hlt := hfollows.2.1
    rcases hmem x hx with hx | rfl <;> rcases hmem y hy with hy | rfl
    · exact h.spaced x hx hf y hy hfollows
    · -- the new packet is not followed by an older one
      have := h.held_lt x hx
      omega
    · rw [hplaces.deadline_eq]
      refine hspaces ?_ y hy (hfollows.1 ▸ hf) ?_
      · rw [← hplaces.flowId]
        exact hf
      · rw [← hplaces.sendTime]
        exact hfollows.2.2
    · omega

/-- A round of `Enqueue` that spaces the flow keeps the order. -/
lemma Ordered.enqueue {now : ℕ} {pkt : Packet} {aggreRate hashId : ℕ} (h : w.Ordered cfg f)
    (hinv : w.Inv cfg) (hspaces : w.SpacesFlow cfg f (.enqueue now pkt aggreRate hashId))
    (hstep : w.step cfg (.enqueue now pkt aggreRate hashId) = some w') : w'.Ordered cfg f := by
  have hround := step_enqueue hinv.repr hstep
  rcases hround.outcome with ⟨-, hheld, hcount⟩ | ⟨hroom, hcount, e, hplaces, hheld⟩
  · exact h.congr hheld hround.sent hcount
  · refine h.append hplaces hheld hround.sent hcount fun hf => hspaces hf ?_
    rw [hinv.repr.tally.total_eq]
    exact hroom

/-- A `Dequeue` of spaced packets keeps the order: all packets of `f` it takes have the least
held deadline. -/
lemma Ordered.dequeue {now garbage : ℕ} (h : w.Ordered cfg f) (hinv : w.Inv cfg)
    (ht : Timed cfg w.fb w.held) (hburst : 1 ≤ cfg.dequeueBurst) (hnow : now < 2 ^ 62)
    (hspaces : w.SpacesFlow cfg f (.dequeue now garbage))
    (hstep : w.step cfg (.dequeue now garbage) = some w') : w'.Ordered cfg f := by
  obtain ⟨r, hrun, rfl⟩ := step_dequeue hstep
  have hout := hinv.outcome ht hburst hnow hrun
  set taken := takenFrom w.held r.taken with htaken
  have hsub : ∀ e ∈ without Placed.node w.held r.taken, e ∈ w.held :=
    fun e he => (mem_without.mp he).1
  have hmem : ∀ e ∈ taken, e ∈ w.held := fun e he => by
    obtain ⟨-, -, hheld, -, -⟩ := hout.mem_taken hinv.repr he
    exact hheld
  -- a packet of `f` that is taken does not follow one that is held
  have hleast : ∀ x ∈ taken, x.flowId = f → ∀ y ∈ w.held, ¬ x.Follows y := by
    intro x hx hf y hy hfollows
    obtain ⟨i, -, hheld, hloc, hahead⟩ := hout.mem_taken hinv.repr hx
    have hD := ht.deadline_eq hheld hloc (hahead x hheld) (hspaces x hheld hf)
    have hlt := h.spaced x hheld hf y hy hfollows
    have hle := hahead y hy
    omega
  have hmap : (w.sent ++ taken.map fun e => (e, now)).map Prod.fst
      = w.sent.map Prod.fst ++ taken := by
    rw [List.map_append, List.map_map]
    exact congrArg _ (List.map_id _)
  refine ⟨⟨?_, ?_⟩, fun e he => h.held_lt e (hsub e he), ?_, ?_⟩
  · dsimp only
    rw [hmap]
    refine List.pairwise_append.mpr ⟨h.inOrder.sent, ?_, ?_⟩
    · exact List.pairwise_of_forall_mem_list fun x hx y hy hf => hleast x hx hf y (hmem y hy)
    · exact fun x hx y hy hf => h.inOrder.held x hx hf y (hmem y hy)
  · dsimp only
    rw [hmap]
    intro x hx hf y hy
    rcases List.mem_append.mp hx with hx | hx
    · exact h.inOrder.held x hx hf y (hsub y hy)
    · exact hleast x hx hf y (hsub y hy)
  · dsimp only
    rw [hmap]
    intro e he
    rcases List.mem_append.mp he with he | he
    · exact h.sent_lt e he
    · exact h.held_lt e (hmem e he)
  · exact fun x hx hf y hy => h.spaced x (hsub x hx) hf y (hsub y hy)

end World

/-- **Per-flow order**: along operations that space the packets of `f`, no packet of `f` leaves
before one it follows. -/
theorem flow_leaves_in_order (hcfg : cfg.ShiftsOk)
    (hw : Reach cfg (fun w op => w.Admits op ∧ w.SpacesFlow cfg f op) w) : w.InOrder f := by
  rcases Nat.eq_zero_or_pos cfg.dequeueBurst with hzero | hburst
  · have hnil := sent_eq_nil hzero hw
    exact ⟨by rw [hnil]; exact .nil, by rw [hnil]; simp⟩
  suffices h : w.Ordered cfg f from h.inOrder
  induction hw with
  | start hinit =>
      obtain ⟨now, uuid, nodes, pktsNum, flowToGen, flowInfo, rfl⟩ := hinit
      exact ⟨⟨.nil, by simp [World.start]⟩, by simp [World.start], by simp [World.start],
        by simp [World.start]⟩
  | @step w w' op hw hok hstep ih =>
      have hinv := reach_inv hw
      cases op with
      | enqueue now pkt aggreRate hashId => exact ih.enqueue hinv hok.2 hstep
      | dequeue now garbage =>
          have ht := reach_timed hcfg hburst (hw.mono fun _ _ h => h.1)
          exact ih.dequeue hinv ht hburst hok.1 hok.2 hstep

/-- Two packets of one flow, one granule apart, leave in order. -/
theorem flow_leaves_in_order_run :
    ∃ w, Reach sampleConfig (fun w op => w.Admits op ∧ w.SpacesFlow sampleConfig 1 op) w ∧
      w.sent.map (fun p => (p.1.seq, p.1.sendTime, p.2)) = [(0, 512, 600), (1, 1024, 1100)] ∧
      w.InOrder 1 := by
  obtain ⟨w, hw, hsent⟩ := exists_reach sampleConfig 23437500
    (fun w op => w.Admits op ∧ w.SpacesFlow sampleConfig 1 op)
    [.enqueue 0 (packetOf 1 100) 20000000 0, .enqueue 0 (packetOf 1 101) 20000000 0,
      .dequeue 600 77, .dequeue 1100 77]
    (fun w => w.sent.map (fun p => (p.1.seq, p.1.sendTime, p.2)) = [(0, 512, 600), (1, 1024, 1100)])
    (by decide +kernel)
  exact ⟨w, hw, hsent, flow_leaves_in_order sampleConfig_shiftsOk hw⟩

/-- Two packets of one flow due at `120` and `240` share the bucket of `512`, and the batch has
the second one first. -/
theorem flow_leaves_reversed :
    ¬ ∀ (cfg : Config) (f : ℕ) (w : World), cfg.ShiftsOk →
      Reach cfg (fun w op => w.Admits op ∧ w.Ticks op) w → w.InOrder f := by
  intro hall
  obtain ⟨w, hw, hreversed⟩ := exists_reach sampleConfig 100000000
    (fun w op => w.Admits op ∧ w.Ticks op)
    [.enqueue 0 (packetOf 1 100) 20000000 0, .enqueue 0 (packetOf 1 101) 20000000 0,
      .dequeue 600 77]
    (fun w => ¬ (w.sent.map Prod.fst).Pairwise fun x y => x.flowId = 1 → ¬ x.Follows y)
    (by decide +kernel)
  exact hreversed (hall sampleConfig 1 w sampleConfig_shiftsOk hw).sent

end Bess
