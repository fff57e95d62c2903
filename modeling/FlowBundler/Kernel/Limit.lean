import FlowBundler.Kernel.Contents

/-!
The limit of the queue.  `dfb_enqueue` compares `queue_limit` once, with the number of
packets in the calendar, and then adds one packet to the calendar, one to `sch->q`, or any
number of segments to the calendar.

* `enqueue_length`: how many packets an enqueue adds; `dequeue_length`: a dequeue adds none.
* `World.Fits`: what is added fits under the limit, together with the packets of `sch->q`
  and of the calendar.
* `packets_within_limit`: along such operations the limit is respected, and only along
  them; `packets_exceed_limit`: it is not respected in every run.

The total of the scheduler counts the packets of the calendar in every run
(`Contents.length_packets`), so the comparison of the source is one with the contents, and
from within the limit an operation stays within it exactly when it fits.
-/

namespace Dfb

open Ledger

namespace World

variable {P : Params} {w w' : World} {op : Op}

/-- What an accepted enqueue adds still fits under the limit. -/
def Fits (P : Params) (w : World) : Op → Prop
  | .enqueue _ skb segs =>
      w.sch.priv.nPacketsTotal < P.queueLimit →
        w.sch.q.length + w.sch.priv.nPacketsTotal + arrivals P skb segs ≤ P.queueLimit
  | .dequeue _ _ => True

instance (P : Params) (w : World) : (op : Op) → Decidable (w.Fits P op)
  | .enqueue _ _ _ => inferInstanceAs (Decidable (_ → _))
  | .dequeue _ _ => inferInstanceAs (Decidable True)

lemma Contents.length_packets (h : w.Contents) :
    w.packets.length = w.sch.q.length + w.sch.priv.nPacketsTotal := by
  rw [packets, List.length_append, List.length_map, h.total]

/-- An enqueue adds the arrivals below the limit, and nothing at the limit. -/
lemma enqueue_length (h : w.Contents) {p : ℕ} {skb : SkBuff} {segs : List (ℕ × SkBuff)}
    (hfresh : w.Fresh (.enqueue p skb segs)) (hstep : w.step P (.enqueue p skb segs) = some w') :
    w'.packets.length = w.packets.length
      + if w.sch.priv.nPacketsTotal < P.queueLimit then arrivals P skb segs else 0 := by
  obtain rfl := step_enqueue hstep
  have hmem : (w.sch.setSkb p skb).mem p = skb := Qdisc.setSkb_mem_self _ _ _
  simp only [packets, List.length_append, List.length_map]
  cases h.enqueue_cases P hfresh with
  | refused hlimit hsch hstored =>
      rw [Qdisc.setSkb_priv] at hlimit
      rw [if_neg (not_lt.mpr hlimit), hsch, hstored, List.length_nil]
      rfl
  | unpaced hlimit hnum hq hstored hl htotal =>
      rw [Qdisc.setSkb_priv] at hlimit
      rw [hmem] at hnum
      rw [if_pos hlimit, hnum, hq, hstored, List.length_append]
      have hq₀ : (w.sch.setSkb p skb).q = w.sch.q := rfl
      rw [hq₀, List.length_singleton, List.length_nil]
      omega
  | paced hlimit ps hps hnum hptr hgrows =>
      have hlen : (dfbEnqueue P (w.sch.setSkb p skb) p segs).stored.length = ps.length := by
        rw [← hptr, List.length_map]
      rw [Qdisc.setSkb_priv] at hlimit
      rw [hmem] at hnum
      rw [if_pos hlimit, hnum, hgrows.q, hlen, Nat.add_assoc]
      rfl

/-- A dequeue adds nothing. -/
lemma dequeue_length (h : w.Contents) {now tTime : ℕ}
    (hstep : w.step P (.dequeue now tTime) = some w') :
    w'.packets.length ≤ w.packets.length := by
  obtain ⟨r, hrun, rfl⟩ := step_dequeue hstep
  have hheld : (without Stored.ptr w.held (popped w r)).length ≤ w.held.length :=
    List.length_filter_le _ _
  simp only [packets, List.length_append, List.length_map]
  cases dequeue_leaves h.linked hrun with
  | unpaced p rest hq hq' hl htotal =>
      rw [hq', hq, List.length_cons]
      omega
  | idle hq hq' hskb hl htotal =>
      rw [hq', hq]
      omega
  | served hq hq' e he hskb hl htotal =>
      rw [hq', hq]
      omega

/-- From within the limit, an operation stays within it exactly when it fits. -/
lemma Contents.within_iff (h : w.Contents) (hin : w.packets.length ≤ P.queueLimit)
    (hfresh : w.Fresh op) (hstep : w.step P op = some w') :
    w'.packets.length ≤ P.queueLimit ↔ w.Fits P op := by
  cases op with
  | enqueue p skb segs =>
      rw [enqueue_length h hfresh hstep, h.length_packets, Fits]
      rw [h.length_packets] at hin
      split
      · rename_i hlimit
        exact ⟨fun hle _ => hle, fun hfits => hfits hlimit⟩
      · rename_i hlimit
        exact iff_of_true (by omega) fun hlt => absurd hlt hlimit
  | dequeue now tTime => exact iff_of_true ((dequeue_length h hstep).trans hin) trivial

end World

/-- **The limit**: in every run whose enqueues fit, the packets of the calendar and of
`sch->q` together never exceed the limit, and the next operation exceeds it exactly when it
does not fit. -/
theorem packets_within_limit {P : Params} {w : World}
    (hw : Reach P (fun w op => w.Fresh op ∧ w.Fits P op) w) :
    w.packets.length ≤ P.queueLimit ∧
      ∀ op w', w.Fresh op → w.step P op = some w' →
        (w'.packets.length ≤ P.queueLimit ↔ w.Fits P op) := by
  have hfresh : ∀ {w}, Reach P (fun w op => w.Fresh op ∧ w.Fits P op) w → w.Contents :=
    fun hw => reach_contents (hw.mono fun _ _ h => h.1)
  have hin : w.packets.length ≤ P.queueLimit := by
    refine hw.invariant (I := fun w => w.packets.length ≤ P.queueLimit) ?_
      fun w w' op hw ih hok hstep => ((hfresh hw).within_iff ih hok.1 hstep).mpr hok.2
    rintro w ⟨sch, now, hq, -, rfl⟩
    simp [World.packets, World.start, dfbInit, hq]
  exact ⟨hin, fun op w' hf hstep => (hfresh hw).within_iff hin hf hstep⟩

/-- A limit of three: one unpaced packet and a packet of two segments fill it, and a further
packet does not fit. -/
theorem packets_within_limit_run :
    ∃ P w, Reach P (fun w op => w.Fresh op ∧ w.Fits P op) w ∧ P.queueLimit = 3 ∧
      w.packets = [1, 3, 4] ∧
      (∀ skb, pacingRate skb = 0 → ¬ w.Fits P (.enqueue 5 skb [])) ∧
      w.packets.length ≤ P.queueLimit ∧
      ∀ op w', w.Fresh op → w.step P op = some w' →
        (w'.packets.length ≤ P.queueLimit ↔ w.Fits P op) := by
  set P : Params := { queueLimit := 3, gsoSplit := true, jhash2 := fun _ _ => 0 } with hP
  set gso : SkBuff := { pacedSkb 1250000000 3000 with len := 2920, isGso := true }
  set seg : SkBuff := { pacedSkb 1250000000 0 with len := 1460 }
  obtain ⟨w, hw, hpackets, hq, htotal⟩ := exists_reach P (fun w op => w.Fresh op ∧ w.Fits P op)
    [.enqueue 1 (pacedSkb 0 0) [], .enqueue 2 gso [(3, seg), (4, seg)]]
    (fun w => w.packets = [1, 3, 4] ∧ w.sch.q.length = 1 ∧ w.sch.priv.nPacketsTotal = 2)
    (by decide +kernel)
  refine ⟨P, w, hw, rfl, hpackets, fun skb hrate hfits => ?_, packets_within_limit hw⟩
  rw [World.Fits, hq, htotal] at hfits
  simp [hP, arrivals, hrate] at hfits

/-- With a limit of one packet, two unpaced packets are queued. -/
theorem packets_exceed_limit :
    ¬ ∀ (P : Params) (w : World), Reach P (fun w op => w.Admits op ∧ w.Ticks op) w →
      w.packets.length ≤ P.queueLimit := by
  intro h
  obtain ⟨w, hw, hlen⟩ := exists_reach { plainParams with queueLimit := 1 }
    (fun w op => w.Admits op ∧ w.Ticks op)
    [.enqueue 1 (pacedSkb 0 0) [], .enqueue 2 (pacedSkb 0 0) []]
    (fun w => w.packets.length = 2) (by decide +kernel)
  have hle := h _ w hw
  rw [hlen] at hle
  exact absurd hle (by decide)

end Dfb
