import FlowBundler.Kernel.Sched
import FlowBundler.Lib.Ledger
import FlowBundler.Lib.Machine

/-!
Runs of the qdisc: sequences of `dfb_enqueue` and `dfb_dequeue` from `dfb_init`,
with the history that the properties speak about.

* `World`: the qdisc with three lists of what `dfb_enqueue_to_cq` stored: everything
  pushed into the calendar, what is still held, and what `dfb_dequeue` returned from
  it.  No function of the qdisc reads them.
* `World.step`: one operation; `Op.enqueue` brings a packet with its contents and the
  outcome of segmenting it.
* `deadline`, `Stored.deadline`: the end of the granule of a packet's own rate class that
  its clamped send time lies in.  All properties of service are about deadlines, as the
  calendar stores and looks up by them.
* `Admits`: what the callers promise, namely that a packet handed over is not already
  queued, and that its time stamp and the clock are below `2^62`; `Ticks`: the clock
  does not go back.
* `Reach P ok`: the worlds reached by operations that satisfy `ok`, an instance of the
  machine of the library.  `exists_reach` turns a list of operations, evaluated by the
  kernel, into such a world.
-/

namespace Dfb

open Ledger

/-- The end of the granule of a packet's own rate class that its clamped send time lies
in. -/
def deadline (queueId sendTime : ℕ) : ℕ := (sendTime >>> queueId + 1) <<< queueId

/-- The deadline of a stored packet. -/
def Stored.deadline (e : Stored) : ℕ := Dfb.deadline e.queueId e.sendTime

/-- The bucket a stored packet is in: its level and its rounded index. -/
def Stored.place (e : Stored) : ℕ × ℕ := (e.loc.queueId, e.loc.bucketId &&& bidMask)

/-- A qdisc and its history. -/
structure World where
  sch : Qdisc
  /-- Everything pushed into the calendar, in order. -/
  pushed : List Stored
  /-- What is still in the calendar, in the order it was pushed. -/
  held : List Stored
  /-- What was returned from the calendar, in the order it was returned. -/
  returned : List Stored
  /-- The pointers returned from the calendar. -/
  out : List ℕ
  /-- The last reading of the clock. -/
  clock : ℕ

/-- An operation on the qdisc. -/
inductive Op where
  | enqueue (skb : ℕ) (contents : SkBuff) (segs : List (ℕ × SkBuff))
  | dequeue (now tTime : ℕ)

namespace World

/-- The world after `dfb_init`. -/
def start (sch : Qdisc) (now : ℕ) : World :=
  { sch := dfbInit sch now, pushed := [], held := [], returned := [], out := [], clock := now }

/-- One operation; `none` when the operation does not return. -/
def step (P : Params) (w : World) : Op → Option World
  | .enqueue p skb segs =>
      let r := dfbEnqueue P (w.sch.setSkb p skb) p segs
      some { w with sch := r.sch, pushed := w.pushed ++ r.stored, held := w.held ++ r.stored }
  | .dequeue now tTime =>
      (dfbDequeue P w.sch now tTime).map fun r =>
        -- the packets that left the calendar: none when `sch->q` was served
        let ps := if w.sch.q = [] then r.skb.toList else []
        { w with
          sch := r.sch
          held := without Stored.ptr w.held ps
          returned := w.returned ++ named Stored.ptr w.held ps
          out := w.out ++ ps
          clock := tTime }

/-- The operation is one the kernel can make: packets handed over are not queued, and
times are below `2^62`. -/
def Admits (w : World) : Op → Prop
  | .enqueue p skb segs =>
      skb.skbMstampNs < 2 ^ 62 ∧ (p :: segs.map Prod.fst).Nodup ∧
        ∀ x ∈ p :: segs.map Prod.fst, x ∉ w.held.map Stored.ptr ∧ x ∉ w.sch.q
  | .dequeue now _ => now < 2 ^ 62

instance (w : World) : (op : Op) → Decidable (w.Admits op)
  | .enqueue _ _ _ => inferInstanceAs (Decidable (_ ∧ _ ∧ _))
  | .dequeue _ _ => inferInstanceAs (Decidable (_ < _))

/-- The clock does not go back. -/
def Ticks (w : World) : Op → Prop
  | .enqueue _ _ _ => True
  | .dequeue now tTime => w.clock ≤ now ∧ now ≤ tTime

instance (w : World) : (op : Op) → Decidable (w.Ticks op)
  | .enqueue _ _ _ => inferInstanceAs (Decidable True)
  | .dequeue _ _ => inferInstanceAs (Decidable (_ ∧ _))

end World

/-- The worlds after `dfb_init`, with nothing in `sch->q`. -/
def World.Initial (w : World) : Prop :=
  ∃ sch now, sch.q = [] ∧ now < 2 ^ 62 ∧ w = World.start sch now

/-- The worlds reached from `dfb_init` by operations that satisfy `ok`. -/
abbrev Reach (P : Params) (ok : World → Op → Prop) : World → Prop :=
  Machine.Reach (World.step P) World.Initial ok

/-! ### Concrete runs -/

/-- A qdisc before `dfb_init`. -/
def freshQdisc : Qdisc :=
  { q := []
    priv := { mlcq := fun _ _ => { head := none, tail := none }, nPacketsTotal := 0
              nPackets := fun _ => 0, bitmap := 0, headTime := 0, highestRateQid := 0
              hashTable := fun _ => 0, deqRst := 0, nCongFlows := 0, deqCnt := 0
              deqTime := 0, congRate := 0 }
    mem := fun _ => { skbMstampNs := 0, len := 0, sk := none, ipHdr := none, tcpHdr := none
                      transportOffset := 0, tcpHdrlen := 0, isGso := false } }

/-- A run from the start at clock `0` whose last world satisfies `p` reaches such a world. -/
lemma exists_reach (P : Params) (ok : World → Op → Prop) [∀ w op, Decidable (ok w op)]
    (ops : List Op) (p : World → Prop) [DecidablePred p]
    (h : (Machine.run (World.step P) ok (World.start freshQdisc 0) ops).any (fun w => p w) = true) :
    ∃ w, Reach P ok w ∧ p w :=
  Machine.exists_reach ⟨freshQdisc, 0, rfl, by norm_num, rfl⟩ ops p h

/-- A packet of a flow paced at `rate` bytes per second, due at `t`. -/
def pacedSkb (rate t : ℕ) : SkBuff :=
  { skbMstampNs := t, len := 1500
    sk := some { skPacingRate := rate, icskCaState := .caOpen }
    ipHdr := none, tcpHdr := none, transportOffset := 0, tcpHdrlen := 0, isGso := false }

/-- The default module parameters; the hash is not read for packets without TCP headers. -/
def plainParams : Params := { queueLimit := 100000, gsoSplit := false, jhash2 := fun _ _ => 0 }

end Dfb
