import FlowBundler.Kernel.Dequeue

/-!
The invariants of the kernel scheduler over whole runs.

* `DequeueCases`: what a `dfb_dequeue` can do, the unpaced packets of `sch->q` first;
  `dequeue_cases` and `dequeue_total`: it does one of these, and it returns.
* `World.Inv`: the calendar is represented and timed, and what was pushed is what was
  returned together with what is held.
* `reach_inv`: every reached world satisfies it, under `Admits` alone.  An enqueue appends
  what it stored to both lists, a dequeue moves one packet from what is held to what was
  returned, and the invariants of the calendar are those of the two calls.
* `World.NoRewindOf c`: a dequeue that finds the head time beyond the clock, and so moves
  it back, leaves every held deadline of the class `c` within one rotation;
  `World.NoRewind`: the same of all packets.
* `reach_windowed`: along such dequeues the window of the class survives too.  Only a miss
  moves the head time back, and it moves it to the clock.
-/

namespace Dfb

open Ledger Dyadic

/-! ### One dequeue -/

/-- What `dfb_dequeue` can do: serve `sch->q`, or end as the calendar does and then run the
estimator. -/
inductive DequeueCases (sch : Qdisc) (held : List Stored) (now : ℕ) (r : DequeueResult) : Prop
  | unpaced (p : ℕ) (rest : List ℕ) (hq : sch.q = p :: rest)
      (hsame : SameCalendar sch.priv r.sch.priv) (hmem : r.sch.mem = sch.mem)
  | calendar (hq : sch.q = []) (r₀ : DequeueResult)
      (hout : CalendarOutcome sch held now sch.priv.highestRateQid r₀)
      (hsame : SameCalendar r₀.sch.priv r.sch.priv) (hmem : r.sch.mem = r₀.sch.mem)
      (hsch : r.sch.q = r₀.sch.q) (hskb : r.skb = r₀.skb) (hwake : r.watchdog = r₀.watchdog)

/-- From a represented and timed calendar a dequeue returns, as one of `DequeueCases`. -/
lemma dequeue_total (P : Params) {sch : Qdisc} {held : List Stored} {now : ℕ} (tTime : ℕ)
    (hr : Repr sch held) (ht : Timed sch.priv held) (hnow : now < 2 ^ 62) :
    ∃ r, dfbDequeue P sch now tTime = some r ∧ DequeueCases sch held now r := by
  rw [dfbDequeue]
  cases hq : sch.q with
  | cons p rest =>
      obtain ⟨hsame, hmem, -⟩ :=
        sameCalendar_dequeueDone P { sch with q := rest } (some p) tTime
      exact ⟨_, rfl, .unpaced p rest hq hsame hmem⟩
  | nil =>
      obtain ⟨r₀, hrun, hout⟩ := calendar_spec hr ht hnow
      obtain ⟨hsame, hmem, hsch⟩ := sameCalendar_dequeueDone P r₀.sch r₀.skb tTime
      dsimp only
      rw [hrun]
      exact ⟨_, rfl, .calendar hq r₀ hout hsame hmem hsch rfl rfl⟩

/-- What a dequeue did. -/
lemma dequeue_cases {P : Params} {sch : Qdisc} {held : List Stored} {now tTime : ℕ}
    {r : DequeueResult} (hr : Repr sch held) (ht : Timed sch.priv held) (hnow : now < 2 ^ 62)
    (hrun : dfbDequeue P sch now tTime = some r) : DequeueCases sch held now r := by
  obtain ⟨r', hrun', hcases⟩ := dequeue_total P tTime hr ht hnow
  rw [hrun, Option.some.injEq] at hrun'
  exact hrun' ▸ hcases

/-- The packets that leave the calendar in a dequeue. -/
def popped (w : World) (r : DequeueResult) : List ℕ := if w.sch.q = [] then r.skb.toList else []

/-- The world after an enqueue. -/
lemma step_enqueue {P : Params} {w w' : World} {p : ℕ} {skb : SkBuff}
    {segs : List (ℕ × SkBuff)} (h : w.step P (.enqueue p skb segs) = some w') :
    w' = { w with
      sch := (dfbEnqueue P (w.sch.setSkb p skb) p segs).sch
      pushed := w.pushed ++ (dfbEnqueue P (w.sch.setSkb p skb) p segs).stored
      held := w.held ++ (dfbEnqueue P (w.sch.setSkb p skb) p segs).stored } := by
  rw [World.step, Option.some.injEq] at h
  exact h.symm

/-- The world after a dequeue. -/
lemma step_dequeue {P : Params} {w w' : World} {now tTime : ℕ}
    (h : w.step P (.dequeue now tTime) = some w') :
    ∃ r, dfbDequeue P w.sch now tTime = some r ∧
      w' = { w with
        sch := r.sch
        held := without Stored.ptr w.held (popped w r)
        returned := w.returned ++ named Stored.ptr w.held (popped w r)
        out := w.out ++ popped w r
        clock := tTime } := by
  rw [World.step, Option.map_eq_some_iff] at h
  obtain ⟨r, hrun, rfl⟩ := h
  exact ⟨r, hrun, rfl⟩

/-! ### The invariant of every run -/

namespace World

/-- The calendar is represented and timed, and nothing pushed was lost or duplicated. -/
structure Inv (w : World) : Prop where
  repr : Repr w.sch w.held
  timed : Timed w.sch.priv w.held
  pushed_perm : w.pushed.Perm (w.returned ++ w.held)
  out_eq : w.out = w.returned.map Stored.ptr

lemma Inv.start (sch : Qdisc) {now : ℕ} (hnow : now < 2 ^ 62) : (start sch now).Inv where
  repr := Repr.init sch now
  timed := ⟨by simp [World.start], by simp [World.start], by simp [World.start],
    by simp [World.start], hnow⟩
  pushed_perm := List.Perm.refl _
  out_eq := rfl

/-- An enqueue keeps the invariants of the calendar. -/
lemma Inv.enqueue_keeps {w : World} (h : w.Inv) (P : Params) {p : ℕ} {skb : SkBuff}
    {segs : List (ℕ × SkBuff)} (hok : w.Admits (.enqueue p skb segs)) :
    Keeps w.sch w.held (dfbEnqueue P (w.sch.setSkb p skb) p segs).sch
      (w.held ++ (dfbEnqueue P (w.sch.setSkb p skb) p segs).stored) := by
  obtain ⟨hs, hnd, hfresh⟩ := hok
  have hk := Keeps.setSkb h.repr h.timed (hfresh p (by simp)).1 skb
  refine hk.trans (Dfb.enqueue_keeps P hk.repr hk.timed ?_ hnd fun x hx => (hfresh x hx).1)
  rw [Qdisc.setSkb_mem_self]
  exact hs

/-- A dequeue removes from the represented list what it returns from the calendar. -/
lemma Inv.dequeue_keeps {w : World} (h : w.Inv) {now : ℕ} {r : DequeueResult}
    (hnow : now < 2 ^ 62) (hcases : DequeueCases w.sch w.held now r) :
    Repr r.sch (without Stored.ptr w.held (popped w r)) ∧
      Timed r.sch.priv (without Stored.ptr w.held (popped w r)) := by
  cases hcases with
  | unpaced p rest hq hsame hmem =>
      rw [popped, if_neg (by simp [hq]), without_eq_self (by simp)]
      exact ⟨hsame.repr hmem h.repr, hsame.timed h.timed⟩
  | calendar hq r₀ hout hsame hmem hsch hskb hwake =>
      rw [popped, if_pos hq, hskb]
      exact ⟨hsame.repr hmem (hout.repr h.repr), hsame.timed (hout.timed h.repr h.timed hnow)⟩

/-- The packets a dequeue takes from the calendar are held. -/
lemma Inv.popped_eq {w : World} (h : w.Inv) {now : ℕ} {r : DequeueResult}
    (hcases : DequeueCases w.sch w.held now r) :
    popped w r = (named Stored.ptr w.held (popped w r)).map Stored.ptr := by
  cases hcases with
  | unpaced p rest hq hsame hmem => simp [popped, hq, named]
  | calendar hq r₀ hout hsame hmem hsch hskb hwake =>
      rw [popped, if_pos hq, hskb]
      cases hout with
      | empty hnil => simp [named]
      | hit t e rest hdue hlow hahead hbucket =>
          have he : e ∈ w.held := (of_mem_bucketAt h.timed (hbucket ▸ List.mem_cons_self)).1
          dsimp only [Option.toList_some]
          rw [named_singleton h.repr.nodup he]
          rfl
      | miss wake hne hpast hdvd hahead hocc hidle => simp [named]

/-- One operation keeps the invariant. -/
lemma Inv.step {P : Params} {w w' : World} {op : Op} (h : w.Inv) (hok : w.Admits op)
    (hstep : w.step P op = some w') : w'.Inv := by
  cases op with
  | enqueue p skb segs =>
      obtain rfl := step_enqueue hstep
      have hk := h.enqueue_keeps P hok
      refine ⟨hk.repr, hk.timed, ?_, h.out_eq⟩
      dsimp only
      rw [← List.append_assoc]
      exact h.pushed_perm.append_right _
  | dequeue now tTime =>
      obtain ⟨r, hrun, rfl⟩ := step_dequeue hstep
      have hcases := dequeue_cases h.repr h.timed hok hrun
      obtain ⟨hr, ht⟩ := h.dequeue_keeps hok hcases
      refine ⟨hr, ht, ?_, ?_⟩
      · dsimp only
        rw [List.append_assoc]
        exact h.pushed_perm.trans ((perm_named_without _ _ _).symm.append_left _)
      · dsimp only
        rw [List.map_append, ← h.popped_eq hcases, h.out_eq]

end World

/-- **Every reached world** satisfies the invariant. -/
theorem reach_inv {P : Params} {w : World} (hw : Reach P World.Admits w) : w.Inv := by
  refine hw.invariant ?_ fun w w' op _ ih hok hstep => ih.step hok hstep
  rintro w ⟨sch, now, -, hnow, rfl⟩
  exact .start sch hnow

/-! ### The window -/

namespace World

/-- A dequeue that finds the masked head time beyond the clock leaves every held deadline of
the class `c` within one rotation of its level from the clock. -/
def NoRewindOf (c : Stored → Prop) (w : World) : Op → Prop
  | .enqueue _ _ _ => True
  | .dequeue now _ =>
      w.sch.q = [] → now < w.sch.priv.headTime &&& dfbHeadTimeMask w.sch.priv.highestRateQid →
        ∀ e ∈ w.held, c e → e.deadline ≤
          (now &&& dfbHeadTimeMask w.sch.priv.highestRateQid) + 2 ^ (e.loc.queueId + bucketNumScale)

instance (c : Stored → Prop) [DecidablePred c] (w : World) : (op : Op) →
    Decidable (w.NoRewindOf c op)
  | .enqueue _ _ _ => inferInstanceAs (Decidable True)
  | .dequeue _ _ => inferInstanceAs (Decidable (_ → _ → ∀ e ∈ w.held, c e → _))

/-- No dequeue moves the head time back so far that any held deadline falls out of the
window. -/
def NoRewind (w : World) (op : Op) : Prop := w.NoRewindOf (fun _ => True) op

instance (w : World) (op : Op) : Decidable (w.NoRewind op) :=
  inferInstanceAs (Decidable (w.NoRewindOf (fun _ => True) op))

/-- One operation that does not rewind over the class keeps its window. -/
lemma Inv.step_windowed {P : Params} {c : Stored → Prop} {w w' : World} {op : Op} (h : w.Inv)
    (hwin : Windowed c w.sch.priv w.held) (hok : w.Admits op) (hback : w.NoRewindOf c op)
    (hstep : w.step P op = some w') : Windowed c w'.sch.priv w'.held := by
  cases op with
  | enqueue p skb segs =>
      obtain rfl := step_enqueue hstep
      exact (h.enqueue_keeps P hok).windowed c hwin
  | dequeue now tTime =>
      obtain ⟨r, hrun, rfl⟩ := step_dequeue hstep
      have hhead := h.timed.head_lt
      have hnow : now < 2 ^ 62 := hok
      cases dequeue_cases h.repr h.timed hok hrun with
      | unpaced p rest hq hsame hmem =>
          dsimp only
          rw [popped, if_neg (by simp [hq]), without_eq_self (by simp)]
          exact hsame.windowed c hwin
      | calendar hq r₀ hout hsame hmem hsch hskb hwake =>
          dsimp only
          rw [popped, if_pos hq, hskb]
          refine hsame.windowed c (hout.windowed h.timed hwin fun hlt e he hc => ?_)
          have hle := hback hq
          rw [land_headTimeMask (by omega), land_headTimeMask (by omega)] at hle
          exact hle hlt e he hc

end World

/-- **Along operations that do not rewind over a class** the invariant and its window hold. -/
theorem reach_windowed {P : Params} {c : Stored → Prop} {w : World}
    (hw : Reach P (fun w op => w.Admits op ∧ w.NoRewindOf c op) w) :
    w.Inv ∧ Windowed c w.sch.priv w.held := by
  refine hw.invariant (I := fun w => w.Inv ∧ Windowed c w.sch.priv w.held) ?_
    fun w w' op _ ih hok hstep =>
      ⟨ih.1.step hok.1 hstep, ih.1.step_windowed ih.2 hok.1 hok.2 hstep⟩
  rintro w ⟨sch, now, -, hnow, rfl⟩
  exact ⟨.start sch hnow, by simp [Windowed, World.start]⟩

end Dfb
