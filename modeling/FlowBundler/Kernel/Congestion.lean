import FlowBundler.Kernel.Invariant
import FlowBundler.Lib.Marks

/-!
The congestion books of `sch_dfb.c`: the table of congested flows, its counter and the congestion
rate, under `update_congestion` and the estimator of `dfb_dequeue`.

* `UpdateCases`, `EstimatorCases`: what the two functions can do to the books.  Each is unfolded
  once, and every property of the books is derived from the cases.
* `CongOp`, `CongReach`: sequences of the two from `dfb_init`, on arbitrary packets.
* `Booked`: the counter counts the marked entries, and without one the rate is `0`;
  `congestion_booked`: in every sequence, `reach_booked`: and in every run of the qdisc.  Flows that
  collide share an entry, and the counter counts entries: marking a marked entry and clearing one
  that is not marked change nothing.  The rate is set to zero when the counter reaches zero.
-/

namespace Dfb

open Marks

variable {P : Params} {q q' : DfbSchedData} {sch : Qdisc} {skb : SkBuff} {p tTime h rate : ℕ}

/-! ### What the two functions do -/

/-- `flow_hash` is an index of the table. -/
lemma flowHash_lt (P : Params) (skb : SkBuff) : flowHash P skb < hashtableSize := by
  have hsize : hashtableSize = 2 ^ 8 := by rw [hashtableSize, Nat.one_shiftLeft]
  rw [flowHash, hsize]
  split
  · norm_num
  · rw [Nat.and_two_pow_sub_one_eq_mod]
    exact Nat.mod_lt _ (by norm_num)

/-- `update_congestion` takes the packet to be one of a congested flow. -/
def Congested (skb : SkBuff) : Prop :=
  ∃ sk, skb.sk = some sk ∧ TcpCaState.disorder.toNat < sk.icskCaState.toNat

/-- The packet has FIN or RST. -/
def Closing (skb : SkBuff) : Prop := ∃ iph tcph, ipv4Tcp skb = some (iph, tcph) ∧
  (tcph.fin || tcph.rst) = true

/-- `update_congestion` does not return early on the packet. -/
def Considered (skb : SkBuff) : Prop :=
  skb.sk ≠ none ∧ ipv4Tcp skb ≠ none ∧ ¬ intNonpos (pacingRate skb)

/-- What `update_congestion` can do. -/
inductive UpdateCases (P : Params) (q : DfbSchedData) (skb : SkBuff) : DfbSchedData → Prop
  | ignored (hnot : Considered skb → ¬ Congested skb ∧ ¬ Closing skb) : UpdateCases P q skb q
  | marks (hconsidered : Considered skb) (hcong : Congested skb) (hopen : ¬ Closing skb) :
      UpdateCases P q skb (markCongested q (flowHash P skb) (pacingRate skb))
  | clears (hconsidered : Considered skb) (hcalm : ¬ Congested skb) (hclose : Closing skb) :
      UpdateCases P q skb (unmarkCongested q (flowHash P skb) (pacingRate skb))
  | marksAndClears (hconsidered : Considered skb) (hcong : Congested skb)
      (hclose : Closing skb) :
      UpdateCases P q skb (unmarkCongested (markCongested q (flowHash P skb) (pacingRate skb))
        (flowHash P skb) (pacingRate skb))

/-- `update_congestion` does one of these. -/
lemma updateCongestion_cases (P : Params) (q : DfbSchedData) (skb : SkBuff) :
    UpdateCases P q skb (updateCongestion P q skb) := by
  rw [updateCongestion]
  split
  · rename_i sk iph tcph hsk htcp
    have hrate : sk.skPacingRate = pacingRate skb := by rw [pacingRate, hsk]
    have hcong : Congested skb ↔ sk.icskCaState.toNat > TcpCaState.disorder.toNat := by
      simp [Congested, hsk]
    have hclose : Closing skb ↔ (tcph.fin || tcph.rst) = true := by
      simp [Closing, htcp]
    rw [hrate]
    split
    · rename_i hneg
      exact .ignored fun hc => absurd hneg hc.2.2
    · rename_i hpos
      have hc : Considered skb := ⟨by simp [hsk], by simp [htcp], hpos⟩
      dsimp only
      split <;> rename_i hf <;> split <;> rename_i hd
      · exact .marksAndClears hc (hcong.mpr hd) (hclose.mpr hf)
      · exact .clears hc (fun hcg => hd (hcong.mp hcg)) (hclose.mpr hf)
      · exact .marks hc (hcong.mpr hd) fun hcl => hf (hclose.mp hcl)
      · exact .ignored fun _ => ⟨fun hcg => hd (hcong.mp hcg), fun hcl => hf (hclose.mp hcl)⟩
  · rename_i hnone
    refine .ignored fun hc => ?_
    obtain ⟨sk, hsk⟩ := Option.ne_none_iff_exists'.mp hc.1
    obtain ⟨⟨iph, tcph⟩, htcp⟩ := Option.ne_none_iff_exists'.mp hc.2.1
    exact absurd htcp (hnone sk iph tcph hsk)

/-- The rate of `50` packets of `1500` bytes in `d` nanoseconds. -/
def measuredRate (d : ℕ) : ℕ := 50 * 1500 * nsecPerSec / d

/-- What the estimator can do when a packet is returned. -/
inductive EstimatorCases (P : Params) (q : DfbSchedData) (skb : SkBuff) (tTime : ℕ) :
    DfbSchedData → Prop
  | unmarked (hmark : q.hashTable (flowHash P skb) = 0) : EstimatorCases P q skb tTime q
  | restarts (hmark : q.hashTable (flowHash P skb) ≠ 0) (hrst : q.deqRst ≠ 0) :
      EstimatorCases P q skb tTime { q with deqRst := 0, deqCnt := 0, deqTime := tTime }
  | measures (hmark : q.hashTable (flowHash P skb) ≠ 0) (hrst : q.deqRst = 0)
      (hcnt : (q.deqCnt + 1) % 2 ^ 32 = 50) :
      EstimatorCases P q skb tTime { q with
        congRate := (3 * q.congRate + measuredRate ((tTime + 2 ^ 64 - q.deqTime) % 2 ^ 64))
          % 2 ^ 64 / 4
        deqCnt := 0, deqTime := tTime }
  | counts (hmark : q.hashTable (flowHash P skb) ≠ 0) (hrst : q.deqRst = 0)
      (hcnt : (q.deqCnt + 1) % 2 ^ 32 ≠ 50) :
      EstimatorCases P q skb tTime { q with deqCnt := (q.deqCnt + 1) % 2 ^ 32 }

/-- The estimator does one of these. -/
lemma dequeueDone_cases (P : Params) (sch : Qdisc) (p tTime : ℕ) :
    EstimatorCases P sch.priv (sch.mem p) tTime (dfbDequeueDone P sch (some p) tTime).priv := by
  rw [dfbDequeueDone]
  dsimp only
  split
  · rename_i hmark
    exact .unmarked hmark
  · rename_i hmark
    split
    · rename_i hrst
      exact .restarts hmark hrst
    · rename_i hrst
      have hrst := not_not.mp hrst
      split
      · rename_i hcnt
        exact .measures hmark hrst hcnt
      · rename_i hcnt
        exact .counts hmark hrst hcnt

/-! ### Sequences of calls -/

/-- One call that touches the books: `update_congestion` on a packet, or the end of a
`dfb_dequeue` that returns a packet, with its reading of the clock. -/
inductive CongOp
  | update (skb : SkBuff)
  | dequeueDone (p : ℕ) (skb : SkBuff) (tTime : ℕ)

/-- The qdisc and the last reading of the clock. -/
structure CongState where
  sch : Qdisc
  clock : ℕ

/-- One call. -/
def CongState.step (P : Params) (s : CongState) : CongOp → Option CongState
  | .update skb =>
      some { s with sch := { s.sch with priv := updateCongestion P s.sch.priv skb } }
  | .dequeueDone p skb tTime =>
      some { sch := dfbDequeueDone P (s.sch.setSkb p skb) (some p) tTime, clock := tTime }

/-- The states after `dfb_init`. -/
def CongState.Initial (s : CongState) : Prop := ∃ sch, s.sch = dfbInit sch s.clock

/-- The states reached from `dfb_init` by calls that satisfy `ok`. -/
abbrev CongReach (P : Params) (ok : CongState → CongOp → Prop) : CongState → Prop :=
  Machine.Reach (CongState.step P) CongState.Initial ok

/-- What one call does to the books. -/
inductive CongCases (P : Params) (s : CongState) : CongOp → CongState → Prop
  | update (skb : SkBuff) (q : DfbSchedData) (hcases : UpdateCases P s.sch.priv skb q) :
      CongCases P s (.update skb) { s with sch := { s.sch with priv := q } }
  | dequeueDone (p : ℕ) (skb : SkBuff) (tTime : ℕ) (sch : Qdisc)
      (hcases : EstimatorCases P s.sch.priv skb tTime sch.priv) :
      CongCases P s (.dequeueDone p skb tTime) { sch := sch, clock := tTime }

lemma CongState.step_cases {s s' : CongState} {op : CongOp} (hstep : s.step P op = some s') :
    CongCases P s op s' := by
  cases op with
  | update skb =>
      rw [CongState.step, Option.some.injEq] at hstep
      exact hstep ▸ .update skb _ (updateCongestion_cases P s.sch.priv skb)
  | dequeueDone p skb tTime =>
      rw [CongState.step, Option.some.injEq] at hstep
      have hcases := dequeueDone_cases P (s.sch.setSkb p skb) p tTime
      rw [Qdisc.setSkb_mem_self, Qdisc.setSkb_priv] at hcases
      exact hstep ▸ .dequeueDone p skb tTime _ hcases

/-! ### The books -/

/-- The marked entries of the table. -/
def congFlows (q : DfbSchedData) : Finset ℕ := marked (Finset.range hashtableSize) q.hashTable

/-- The books agree: every entry is `0` or `1`, the counter counts the entries that are `1`, and
without such an entry the congestion rate is `0`. -/
structure Booked (q : DfbSchedData) : Prop where
  binary : ∀ i < hashtableSize, q.hashTable i = 0 ∨ q.hashTable i = 1
  count : q.nCongFlows = (congFlows q).card
  idle : q.nCongFlows = 0 → q.congRate = 0

lemma card_congFlows_le (q : DfbSchedData) : (congFlows q).card ≤ 256 :=
  (card_marked_le _ _).trans (by rw [Finset.card_range]; decide)

namespace Booked

/-- The books after `dfb_init`. -/
lemma init (sch : Qdisc) (now : ℕ) : Booked (dfbInit sch now).priv := by
  refine ⟨fun i _ => .inl rfl, ?_, fun _ => rfl⟩
  have hnone : congFlows (dfbInit sch now).priv = ∅ :=
    Finset.filter_eq_empty_iff.mpr fun i _ => by simp [dfbInit]
  rw [hnone]
  rfl

/-- The books depend on the table, its counter and the rate only. -/
lemma congr (hb : Booked q) (htable : q'.hashTable = q.hashTable)
    (hcount : q'.nCongFlows = q.nCongFlows) (hrate : q'.congRate = q.congRate) : Booked q' := by
  refine ⟨fun i hi => ?_, ?_, fun h0 => ?_⟩
  · rw [htable]
    exact hb.binary i hi
  · rw [hcount, hb.count, congFlows, congFlows, htable]
  · rw [hrate]
    exact hb.idle (hcount ▸ h0)

/-- An entry that is not `0` is `1`, and then the counter is positive. -/
lemma pos_of_marked (hb : Booked q) (hh : h < hashtableSize) (hmark : q.hashTable h ≠ 0) :
    0 < q.nCongFlows := by
  rw [hb.count]
  exact card_marked_pos (Finset.mem_range.mpr hh) ((hb.binary h hh).resolve_left hmark)

lemma binary_update (hb : Booked q) {v : ℕ} (hv : v = 0 ∨ v = 1) (i : ℕ) (hi : i < hashtableSize) :
    Function.update q.hashTable h v i = 0 ∨ Function.update q.hashTable h v i = 1 := by
  rw [Function.update_apply]
  split
  · exact hv
  · exact hb.binary i hi

/-- Marking a flow keeps the books. -/
lemma mark (hb : Booked q) (hh : h < hashtableSize) (rate : ℕ) :
    Booked (markCongested q h rate) := by
  have hbinary := hb.binary_update (h := h) (.inr rfl)
  have hle := card_congFlows_le q
  rw [markCongested]
  split
  · rename_i h0
    have hcard := card_mark (Finset.mem_range.mpr hh) (show q.hashTable h ≠ 1 by omega)
    have hcount : (q.nCongFlows + 1) % 2 ^ 32 = (congFlows q).card + 1 := by
      rw [hb.count]
      exact Nat.mod_eq_of_lt (by omega)
    refine ⟨hbinary, ?_, fun hz => ?_⟩
    · exact hcount.trans hcard.symm
    · dsimp only at hz
      omega
  · rename_i h1
    have hone : q.hashTable h = 1 := (hb.binary h hh).resolve_left h1
    exact hb.congr (by rw [← hone, Function.update_eq_self]) rfl rfl

/-- Clearing a flow keeps the books. -/
lemma unmark (hb : Booked q) (hh : h < hashtableSize) (rate : ℕ) :
    Booked (unmarkCongested q h rate) := by
  have hbinary := hb.binary_update (h := h) (.inl rfl)
  have hle := card_congFlows_le q
  rw [unmarkCongested]
  dsimp only
  split
  · rename_i h1
    have hcard := card_clear (Finset.mem_range.mpr hh) h1
    rw [← congFlows] at hcard
    have hcount : (q.nCongFlows + 2 ^ 32 - 1) % 2 ^ 32 = (congFlows q).card - 1 := by
      rw [hb.count, show (congFlows q).card + 2 ^ 32 - 1 = (congFlows q).card - 1 + 2 ^ 32 by omega,
        Nat.add_mod_right]
      exact Nat.mod_eq_of_lt (by omega)
    refine ⟨hbinary, ?_, fun hz => ?_⟩
    · dsimp only
      rw [hcount, ← hcard, Nat.add_sub_cancel]
      rfl
    · dsimp only at hz ⊢
      rw [if_pos hz]
  · rename_i h0
    refine ⟨hbinary, ?_, hb.idle⟩
    dsimp only
    rw [hb.count, congFlows, congFlows, marked_clear h0]

/-- `update_congestion` keeps the books. -/
lemma update (hb : Booked q) (hcases : UpdateCases P q skb q') : Booked q' := by
  have hh := flowHash_lt P skb
  cases hcases with
  | ignored hnot => exact hb
  | marks _ hcong hopen => exact hb.mark hh _
  | clears _ hcalm hclose => exact hb.unmark hh _
  | marksAndClears _ hcong hclose => exact (hb.mark hh _).unmark hh _

/-- The estimator keeps the books: it changes the rate only for a marked flow. -/
lemma estimator (hb : Booked q) (hcases : EstimatorCases P q skb tTime q') : Booked q' := by
  cases hcases with
  | unmarked hmark => exact hb
  | restarts hmark hrst => exact hb.congr rfl rfl rfl
  | measures hmark hrst hcnt =>
      have hpos := hb.pos_of_marked (flowHash_lt P skb) hmark
      exact ⟨hb.binary, hb.count, fun hz => absurd hz hpos.ne'⟩
  | counts hmark hrst hcnt => exact hb.congr rfl rfl rfl

end Booked

/-- **The congestion books agree** after every sequence of `update_congestion` calls and estimator
updates: every entry of the table is `0` or `1`, the counter is the number of entries that are `1`,
and the rate is `0` when there is none. -/
theorem congestion_booked {s : CongState} (hs : CongReach P (fun _ _ => True) s) :
    Booked s.sch.priv := by
  refine hs.invariant (I := fun s => Booked s.sch.priv) ?_ fun s s' op _ ih _ hstep => ?_
  · rintro s ⟨sch, hsch⟩
    rw [hsch]
    exact .init sch s.clock
  · cases CongState.step_cases hstep with
    | update skb q hcases => exact ih.update hcases
    | dequeueDone p skb tTime sch hcases => exact ih.estimator hcases

/-- A packet of a flow of the source address `saddr`, paced at `rate`. -/
def flowSkb (saddr rate : ℕ) (state : TcpCaState) (fin : Bool) : SkBuff :=
  { skbMstampNs := 0, len := 1500
    sk := some { skPacingRate := rate, icskCaState := state }
    ipHdr := some { version := 4, protocol := 6, saddr := saddr, daddr := 0 }
    tcpHdr := some { source := 0, dest := 0, fin := fin, rst := false }
    transportOffset := 20, tcpHdrlen := 20, isGso := false }

/-- The default module parameters, with the source address as hash. -/
def saddrParams : Params :=
  { queueLimit := 100000, gsoSplit := false, jhash2 := fun key _ => key.headD 0 }

/-- A state after `dfb_init`. -/
def CongState.fresh : CongState := { sch := dfbInit freshQdisc 0, clock := 0 }

/-- A sequence from `fresh` whose last state satisfies `p` reaches such a state. -/
lemma exists_congReach (P : Params) (ok : CongState → CongOp → Prop) [∀ s op, Decidable (ok s op)]
    (ops : List CongOp) (p : CongState → Prop) [DecidablePred p]
    (h : (Machine.run (CongState.step P) ok CongState.fresh ops).any (fun s => p s) = true) :
    ∃ s, CongReach P ok s ∧ p s :=
  Machine.exists_reach ⟨freshQdisc, rfl⟩ ops p h

/-- Two flows in loss and a third whose packet has the hash of the first; the third closes. -/
theorem congestion_booked_run :
    ∃ s, CongReach saddrParams (fun _ _ => True) s ∧ s.sch.priv.nCongFlows = 1 ∧
      s.sch.priv.congRate = 2500 ∧ Booked s.sch.priv := by
  obtain ⟨s, hs, hcount, hrate⟩ := exists_congReach saddrParams (fun _ _ => True)
    [.update (flowSkb 1 1000 .loss false), .update (flowSkb 2 2000 .recovery false),
      .dequeueDone 7 (flowSkb 1 1000 .loss false) 10, .update (flowSkb 257 500 .caOpen true)]
    (fun s => s.sch.priv.nCongFlows = 1 ∧ s.sch.priv.congRate = 2500) (by decide +kernel)
  exact ⟨s, hs, hcount, hrate, congestion_booked hs⟩

/-! ### The calendar leaves the books alone -/

/-- The two states have the same congestion books and the same estimator. -/
structure SameBooks (q q' : DfbSchedData) : Prop where
  hashTable : q'.hashTable = q.hashTable
  deqRst : q'.deqRst = q.deqRst
  nCongFlows : q'.nCongFlows = q.nCongFlows
  deqCnt : q'.deqCnt = q.deqCnt
  deqTime : q'.deqTime = q.deqTime
  congRate : q'.congRate = q.congRate

namespace SameBooks

variable {q'' : DfbSchedData} {loc : DfbLocation} {queueId now t : ℕ}

lemma refl (q : DfbSchedData) : SameBooks q q := ⟨rfl, rfl, rfl, rfl, rfl, rfl⟩

lemma trans (h : SameBooks q q') (h' : SameBooks q' q'') : SameBooks q q'' :=
  ⟨h'.hashTable.trans h.hashTable, h'.deqRst.trans h.deqRst, h'.nCongFlows.trans h.nCongFlows,
    h'.deqCnt.trans h.deqCnt, h'.deqTime.trans h.deqTime, h'.congRate.trans h.congRate⟩

lemma booked (h : SameBooks q q') (hb : Booked q) : Booked q' :=
  hb.congr h.hashTable h.nCongFlows h.congRate

lemma firstPacket (q : DfbSchedData) (queueId t : ℕ) :
    SameBooks q (dfbFirstPacket q queueId t) := by
  rw [dfbFirstPacket]
  split <;> exact ⟨rfl, rfl, rfl, rfl, rfl, rfl⟩

lemma push (sch : Qdisc) (loc : DfbLocation) (p : ℕ) :
    SameBooks sch.priv (dfbPushToBucket sch loc p).priv := by
  unfold dfbPushToBucket
  dsimp only
  split <;> (try split) <;> exact ⟨rfl, rfl, rfl, rfl, rfl, rfl⟩

lemma pop (sch : Qdisc) (loc : DfbLocation) :
    SameBooks sch.priv (dfbPopFromBucket sch loc).2.priv := by
  rw [dfbPopFromBucket]
  split <;> exact ⟨rfl, rfl, rfl, rfl, rfl, rfl⟩

lemma afterPop (q : DfbSchedData) (qid t : ℕ) : SameBooks q (dfbAfterPop q qid t) := by
  rw [dfbAfterPop]
  split <;> exact ⟨rfl, rfl, rfl, rfl, rfl, rfl⟩

lemma enqueueToCq (sch : Qdisc) (p queueId : ℕ) :
    SameBooks sch.priv (dfbEnqueueToCq sch p queueId).1.priv := by
  have hfirst := firstPacket sch.priv queueId (sch.mem p).skbMstampNs
  rw [dfbEnqueueToCq]
  exact hfirst.trans (push { sch with priv := dfbFirstPacket sch.priv queueId _ } _ p)

/-- Lowering the scan granularity. -/
lemma lowerQid (q : DfbSchedData) (qid : ℕ) : SameBooks q { q with highestRateQid := qid } :=
  ⟨rfl, rfl, rfl, rfl, rfl, rfl⟩

lemma segmentLoop (qid rate hdrLen : ℕ) : ∀ (segs : List ℕ) (ntime : ℕ) (sch : Qdisc),
    SameBooks sch.priv (dfbSegmentLoop qid rate hdrLen segs ntime sch).1.priv := by
  intro segs
  induction segs with
  | nil => exact fun _ sch => .refl sch.priv
  | cons seg segs ih =>
      intro ntime sch
      rw [dfbSegmentLoop]
      exact (enqueueToCq (sch.setSkb seg _) seg qid).trans (ih _ _)

lemma storeSegs : ∀ (segs : List (ℕ × SkBuff)) (sch : Qdisc),
    SameBooks sch.priv (storeSegs sch segs).priv := by
  intro segs
  induction segs with
  | nil => exact fun sch => .refl sch.priv
  | cons seg segs ih => exact fun sch => ih (sch.setSkb seg.1 seg.2)

/-- Segmenting leaves the books alone. -/
lemma segment (P : Params) (sch : Qdisc) (p : ℕ) (segs : List (ℕ × SkBuff)) :
    SameBooks sch.priv (dfbSegment P sch p segs).sch.priv := by
  rw [dfbSegment]
  dsimp only
  split
  · exact .refl _
  · split
    · exact .refl _
    · have hlower := lowerQid sch.priv (min sch.priv.highestRateQid
        (rateClass P sch.priv (sch.mem p) (pacingRate (sch.mem p))))
      have hstore := storeSegs segs { sch with priv := { sch.priv with
        highestRateQid := min sch.priv.highestRateQid
          (rateClass P sch.priv (sch.mem p) (pacingRate (sch.mem p))) } }
      exact (hlower.trans hstore).trans (segmentLoop _ _ _ _ _ _)

/-- An enqueue leaves the books as they were, or as `update_congestion` leaves them. -/
lemma enqueue (P : Params) (sch : Qdisc) (p : ℕ) (segs : List (ℕ × SkBuff)) :
    SameBooks sch.priv (dfbEnqueue P sch p segs).sch.priv ∨
      SameBooks (updateCongestion P sch.priv (sch.mem p)) (dfbEnqueue P sch p segs).sch.priv := by
  rw [dfbEnqueue]
  dsimp only
  split
  · split
    · exact .inl (.refl _)
    · right
      split
      · exact segment P { sch with priv := updateCongestion P sch.priv (sch.mem p) } p segs
      · have hlower := lowerQid (updateCongestion P sch.priv (sch.mem p))
          (min (updateCongestion P sch.priv (sch.mem p)).highestRateQid
            (rateClass P (updateCongestion P sch.priv (sch.mem p)) (sch.mem p)
              (pacingRate (sch.mem p))))
        exact hlower.trans (enqueueToCq { sch with priv := _ } p _)
  · exact .inl (.refl _)

/-- A dequeue from the calendar leaves the books alone up to `dfb_dequeue_done`. -/
lemma dequeueCalendar {r : DequeueResult} (hrun : dfbDequeueCalendar sch now = some r) :
    SameBooks sch.priv r.sch.priv := by
  rw [dfbDequeueCalendar] at hrun
  dsimp only at hrun
  split at hrun
  · rw [Option.some.injEq] at hrun
    exact hrun ▸ .refl _
  · cases hscan : Loop.whileDue now (1 <<< (sch.priv.highestRateQid + minGranScale) % 2 ^ 64)
        (dfbScanRound sch sch.priv.highestRateQid) (2 ^ 64)
        (sch.priv.headTime &&& dfbHeadTimeMask sch.priv.highestRateQid) with
    | none =>
        rw [hscan] at hrun
        exact absurd hrun (by simp)
    | some out =>
        rw [hscan] at hrun
        cases out with
        | inl hit =>
            obtain ⟨⟨skb, sch'⟩, t⟩ := hit
            rw [Option.some.injEq] at hrun
            subst hrun
            have hround := (Loop.whileDue_inl hscan).2
            rw [dfbScanRound] at hround
            split at hround
            · rename_i skb₁ sch₁ hpop
              rw [Option.some.injEq, Prod.mk.injEq] at hround
              obtain ⟨rfl, rfl⟩ := hround
              have hsame := pop sch (dfbFindRealLocation sch.priv.highestRateQid t)
              rw [hpop] at hsame
              exact hsame.trans (afterPop _ _ _)
            · exact absurd hround (by simp)
        | inr t =>
            dsimp only at hrun
            split at hrun
            · exact absurd hrun (by simp)
            · rw [Option.some.injEq] at hrun
              exact hrun ▸ ⟨rfl, rfl, rfl, rfl, rfl, rfl⟩

end SameBooks

/-- The estimator at the end of a dequeue keeps the books. -/
lemma Booked.dequeueDone (hb : Booked sch.priv) (P : Params) (skb : Option ℕ) (tTime : ℕ) :
    Booked (dfbDequeueDone P sch skb tTime).priv := by
  cases skb with
  | none => exact hb
  | some p => exact hb.estimator (dequeueDone_cases P sch p tTime)

/-- **In every run of the qdisc** the congestion books agree. -/
theorem reach_booked {w : World} (hw : Reach P (fun _ _ => True) w) : Booked w.sch.priv := by
  refine hw.invariant (I := fun w => Booked w.sch.priv) ?_ fun w w' op _ ih _ hstep => ?_
  · rintro w ⟨sch, now, -, -, rfl⟩
    exact .init sch now
  · cases op with
    | enqueue p skb segs =>
        obtain rfl := step_enqueue hstep
        rcases SameBooks.enqueue P (w.sch.setSkb p skb) p segs with hsame | hsame
        · exact hsame.booked ih
        · refine hsame.booked (ih.update (updateCongestion_cases P w.sch.priv _))
    | dequeue now tTime =>
        obtain ⟨r, hrun, rfl⟩ := step_dequeue hstep
        rw [dfbDequeue] at hrun
        split at hrun
        · rw [Option.some.injEq] at hrun
          subst hrun
          rename_i p rest hq
          have hb : Booked { w.sch with q := rest }.priv := ih
          exact hb.dequeueDone P (some p) tTime
        · obtain ⟨r₀, hcal, rfl⟩ := Option.map_eq_some_iff.mp hrun
          exact ((SameBooks.dequeueCalendar hcal).booked ih).dequeueDone P _ tTime

end Dfb
