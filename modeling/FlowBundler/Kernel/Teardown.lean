import FlowBundler.Kernel.Contents

/-!
The callbacks of `dfb_qdisc_ops` that reset, reconfigure and destroy the qdisc.

`.reset` is the kernel's `qdisc_reset_queue`, `.change` is `dfb_init` again and `.destroy`
only cancels the watchdog.  None of them looks into the calendar.

* `Callback`, `Qdisc.callback`: the three, with the packets each frees.
* `CalendarEmpty`: no packet in any bucket, and all counters zero.
* `World.LosesNothing`: every packet held was freed once, and a reset or changed calendar
  is empty; `callback_loses_nothing_iff`: when this is so.

The contents of a run tell what is held, so each callback is one comparison: a reset frees
the packets of `sch->q` and leaves the calendar as it is, hence it loses nothing exactly when
the calendar holds nothing; a change and a destruction free nothing, hence they lose nothing
exactly when nothing is held at all.
-/

namespace Dfb

open Ledger

inductive Callback where
  | reset | change | destroy
  deriving DecidableEq

/-- `qdisc_reset_queue`: the packets of `sch->q` are freed. -/
def qdiscResetQueue (sch : Qdisc) : Qdisc × List ℕ := ({ sch with q := [] }, sch.q)

/-- `dfb_destroy`, which cancels the watchdog. -/
def dfbDestroy (sch : Qdisc) : Qdisc := sch

/-- The callbacks as `dfb_qdisc_ops` sets them, with the packets they free; `now` is the
clock reading of `dfb_init`. -/
def Qdisc.callback (sch : Qdisc) (now : ℕ) : Callback → Qdisc × List ℕ
  | .reset => qdiscResetQueue sch
  | .change => (dfbInit sch now, [])
  | .destroy => (dfbDestroy sch, [])

/-- The calendar has no packet in any bucket, and its counters and bitmap are zero. -/
structure CalendarEmpty (q : DfbSchedData) : Prop where
  buckets : ∀ l i, (q.mlcq l i).head = none
  nPacketsTotal : q.nPacketsTotal = 0
  nPackets : ∀ l, q.nPackets l = 0
  bitmap : q.bitmap = 0

namespace World

variable {w : World} {now : ℕ}

/-- Every packet held is freed exactly once, and after a reset or a change the calendar is
empty. -/
structure LosesNothing (w : World) (now : ℕ) (cb : Callback) : Prop where
  freed : ∀ p ∈ w.packets, (w.sch.callback now cb).2.count p = 1
  empty : cb ≠ .destroy → CalendarEmpty (w.sch.callback now cb).1.priv

/-- When a callback can do without looking into the calendar. -/
def Drained (w : World) : Callback → Prop
  | .reset => CalendarEmpty w.sch.priv
  | .change => w.packets = []
  | .destroy => w.packets = []

/-- A calendar without packets in its buckets holds nothing. -/
lemma Contents.held_eq_nil (h : w.Contents) (hempty : CalendarEmpty w.sch.priv) :
    w.held = [] :=
  List.length_eq_zero_iff.mp (h.total.symm.trans hempty.nPacketsTotal)

/-- What is not freed at all was not held. -/
lemma packets_eq_nil (h : ∀ p ∈ w.packets, ([] : List ℕ).count p = 1) : w.packets = [] :=
  List.eq_nil_iff_forall_not_mem.mpr fun p hp => absurd (h p hp) (by simp)

lemma Contents.reset_iff (h : w.Contents) :
    w.LosesNothing now .reset ↔ CalendarEmpty w.sch.priv := by
  constructor
  · exact fun hl => hl.empty (by simp)
  · intro hempty
    refine ⟨fun p hp => ?_, fun _ => hempty⟩
    have hnd := h.nodup
    rw [packets, h.held_eq_nil hempty, List.map_nil, List.append_nil] at hp hnd
    exact List.count_eq_one_of_mem hnd hp

lemma change_iff : w.LosesNothing now .change ↔ w.packets = [] := by
  constructor
  · exact fun hl => packets_eq_nil hl.freed
  · intro hnil
    refine ⟨fun p hp => ?_, fun _ => ⟨fun _ _ => rfl, rfl, fun _ => rfl, rfl⟩⟩
    rw [hnil] at hp
    simp at hp

lemma destroy_iff : w.LosesNothing now .destroy ↔ w.packets = [] := by
  constructor
  · exact fun hl => packets_eq_nil hl.freed
  · intro hnil
    refine ⟨fun p hp => ?_, fun hne => absurd rfl hne⟩
    rw [hnil] at hp
    simp at hp

end World

/-- **Teardown**: in every run, a callback frees every packet held exactly once, and leaves
an empty calendar where it should, exactly when there was nothing in the calendar to reset,
or nothing at all to change or destroy. -/
theorem callback_loses_nothing_iff {P : Params} {w : World} (hw : Reach P World.Fresh w)
    (now : ℕ) (cb : Callback) : w.LosesNothing now cb ↔ w.Drained cb := by
  cases cb with
  | reset => exact (reach_contents hw).reset_iff
  | change => exact World.change_iff
  | destroy => exact World.destroy_iff

/-- Two unpaced packets, which a reset frees. -/
theorem callback_loses_nothing_iff_run :
    ∃ w, Reach plainParams World.Fresh w ∧ w.packets = [1, 2] ∧
      (w.LosesNothing 5 .reset ↔ w.Drained .reset) ∧ ¬ w.Drained .destroy := by
  obtain ⟨w, hw, hpackets⟩ := exists_reach plainParams World.Fresh
    [.enqueue 1 (pacedSkb 0 0) [], .enqueue 2 (pacedSkb 0 0) []]
    (fun w => w.packets = [1, 2]) (by decide +kernel)
  refine ⟨w, hw, hpackets, callback_loses_nothing_iff hw 5 .reset, fun hnil => ?_⟩
  rw [World.Drained, hpackets] at hnil
  simp at hnil

/-- A packet in the calendar is neither freed by a reset nor by a change, nor when the qdisc
is destroyed. -/
theorem callback_loses_packet :
    ¬ ∀ (P : Params) (w : World), Reach P (fun w op => w.Admits op ∧ w.Ticks op) w →
      ∀ now cb, w.LosesNothing now cb := by
  intro h
  obtain ⟨w, hw, hpackets⟩ := exists_reach plainParams (fun w op => w.Admits op ∧ w.Ticks op)
    [.enqueue 1 (pacedSkb 1250000000 5000) []]
    (fun w => w.packets = [1] ∧ w.sch.q = []) (by decide +kernel)
  have hfreed := (h plainParams w hw 0 .reset).freed 1 (by rw [hpackets.1]; simp)
  rw [Qdisc.callback, qdiscResetQueue, hpackets.2] at hfreed
  simp at hfreed

end Dfb
