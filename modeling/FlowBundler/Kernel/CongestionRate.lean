import FlowBundler.Kernel.Congestion

/-!
The arithmetic of the congestion rate: subtractions, sums and quotients of 64-bit words.

* `congSubtraction`, `congMeasurement`: the operands of the subtraction of `update_congestion` and
  of the quotient and sum of the estimator, when a call comes to them.
* `CongState.Safe`: the subtraction does not wrap, the sum does not overflow, the divisor is not
  zero.
* `Covers`, `Advances`, `Moderate`: the conditions on a call under which this is so: a packet that
  clears a mark has at most the congestion rate, the clock has gone on since the measurement began,
  and a mark lifts the rate to at most `congCap`.
* `CongState.Tame`: the books agree, the rate is at most the cap, and a measurement that runs began
  in the past.  A call that meets the conditions keeps this (`Tame.step`), and from such a state a
  call is safe exactly when it covers and advances (`Tame.safe_iff`).
* `congestion_safe_iff`: both along every sequence.  That the cap is the exact one is shown by the
  other direction: from a rate above it packets at one reading of the clock (`Counting.run`) lead to
  a measurement of one nanosecond, whose sum overflows.
-/

namespace Dfb

variable {P : Params} {q q' : DfbSchedData} {s s' : CongState} {skb : SkBuff} {op : CongOp}
  {c d r p tTime : ℕ}

/-! ### Operands -/

/-- The operands of `cong_rate -= sk_pacing_rate`, when `update_congestion` comes to it. -/
def congSubtraction (P : Params) (q : DfbSchedData) (skb : SkBuff) : Option (ℕ × ℕ) :=
  match skb.sk, ipv4Tcp skb with
  | some sk, some (_, tcph) =>
      if intNonpos sk.skPacingRate then none
      else
        let q := if sk.icskCaState.toNat > TcpCaState.disorder.toNat then
            markCongested q (flowHash P skb) sk.skPacingRate
          else q
        if (tcph.fin || tcph.rst) = true ∧ q.hashTable (flowHash P skb) = 1 then
          some (q.congRate, sk.skPacingRate)
        else none
  | _, _ => none

/-- The returned packet is the fiftieth of a measurement. -/
def EndsMeasurement (P : Params) (q : DfbSchedData) (skb : SkBuff) : Prop :=
  q.hashTable (flowHash P skb) ≠ 0 ∧ q.deqRst = 0 ∧ (q.deqCnt + 1) % 2 ^ 32 = 50

instance (P : Params) (q : DfbSchedData) (skb : SkBuff) : Decidable (EndsMeasurement P q skb) :=
  inferInstanceAs (Decidable (_ ∧ _ ∧ _))

/-- The congestion rate and the divisor `t_time - deq_time`, when the estimator comes to
them. -/
def congMeasurement (P : Params) (q : DfbSchedData) (skb : SkBuff) (tTime : ℕ) :
    Option (ℕ × ℕ) :=
  if EndsMeasurement P q skb then some (q.congRate, (tTime + 2 ^ 64 - q.deqTime) % 2 ^ 64) else none

namespace CongState

/-- The subtraction does not wrap below zero. -/
def NoWrap (P : Params) (s : CongState) : CongOp → Prop
  | .update skb => ∀ c r, congSubtraction P s.sch.priv skb = some (c, r) → r ≤ c
  | .dequeueDone _ _ _ => True

/-- The sum `3 * cong_rate + t_rate` fits in 64 bits. -/
def NoOverflow (P : Params) (s : CongState) : CongOp → Prop
  | .update _ => True
  | .dequeueDone _ skb tTime => ∀ c d, congMeasurement P s.sch.priv skb tTime = some (c, d) →
      3 * c + measuredRate d < 2 ^ 64

/-- The divisor is not zero. -/
def NoZeroDivisor (P : Params) (s : CongState) : CongOp → Prop
  | .update _ => True
  | .dequeueDone _ skb tTime => ∀ c d, congMeasurement P s.sch.priv skb tTime = some (c, d) → d ≠ 0

/-- The arithmetic of the call is safe. -/
def Safe (P : Params) (s : CongState) (op : CongOp) : Prop :=
  s.NoWrap P op ∧ s.NoOverflow P op ∧ s.NoZeroDivisor P op

/-- The call is one of those considered: pacing rates are below `2^31`, and the clock does not go
back. -/
def Valid (s : CongState) : CongOp → Prop
  | .update skb => pacingRate skb < 2 ^ 31
  | .dequeueDone _ _ tTime => s.clock ≤ tTime ∧ tTime < 2 ^ 64

instance (s : CongState) : (op : CongOp) → Decidable (s.Valid op)
  | .update _ => inferInstanceAs (Decidable (_ < _))
  | .dequeueDone _ _ _ => inferInstanceAs (Decidable (_ ∧ _))

end CongState

/-- The largest congestion rate for which no measured rate makes the estimator overflow. -/
def congCap : ℕ := (2 ^ 64 - 1 - measuredRate 1) / 3

namespace CongState

/-- A packet that clears the mark of an earlier one has at most the congestion rate. -/
def Covers (P : Params) (s : CongState) : CongOp → Prop
  | .update skb => Considered skb → Closing skb → s.sch.priv.hashTable (flowHash P skb) = 1 →
      pacingRate skb ≤ s.sch.priv.congRate
  | .dequeueDone _ _ _ => True

/-- The clock has gone on since the measurement that ends began. -/
def Advances (P : Params) (s : CongState) : CongOp → Prop
  | .update _ => True
  | .dequeueDone _ skb tTime => EndsMeasurement P s.sch.priv skb → s.sch.priv.deqTime < tTime

/-- A packet that marks a flow lifts the rate to at most the cap. -/
def Moderate (P : Params) (s : CongState) : CongOp → Prop
  | .update skb => Considered skb → Congested skb → ¬ Closing skb →
      s.sch.priv.hashTable (flowHash P skb) = 0 → s.sch.priv.congRate + pacingRate skb ≤ congCap
  | .dequeueDone _ _ _ => True

end CongState

/-! ### One call -/

lemma measuredRate_le (hd : d ≠ 0) : measuredRate d ≤ measuredRate 1 :=
  Nat.div_le_div_left (Nat.one_le_iff_ne_zero.mpr hd) Nat.one_pos

lemma measuredRate_one : measuredRate 1 = 75000000000000 := by decide

lemma congCap_eq : congCap = 6148889691236517205 := by decide

/-- What the subtraction works on: the rate after the mark that the same packet sets, if any. -/
lemma congSubtraction_eq_some (h : congSubtraction P q skb = some (c, r)) :
    Considered skb ∧ Closing skb ∧ r = pacingRate skb ∧
      (c = q.congRate ∧ q.hashTable (flowHash P skb) ≠ 0 ∨
        c = (q.congRate + r) % 2 ^ 64 ∧ q.hashTable (flowHash P skb) = 0 ∧ Congested skb) := by
  rw [congSubtraction] at h
  split at h
  · rename_i sk iph tcph hsk htcp
    have hrate : sk.skPacingRate = pacingRate skb := by rw [pacingRate, hsk]
    rw [hrate] at h
    split at h
    · exact absurd h (by simp)
    · rename_i hpos
      have hconsidered : Considered skb := ⟨by simp [hsk], by simp [htcp], hpos⟩
      dsimp only at h
      by_cases hcong : sk.icskCaState.toNat > TcpCaState.disorder.toNat
      · rw [if_pos hcong, Option.ite_none_right_eq_some, Option.some.injEq, Prod.mk.injEq] at h
        obtain ⟨⟨hfin, -⟩, hc, hr⟩ := h
        refine ⟨hconsidered, ⟨iph, tcph, htcp, hfin⟩, hr.symm, ?_⟩
        by_cases hmark : q.hashTable (flowHash P skb) = 0
        · right
          refine ⟨?_, hmark, ⟨sk, hsk, hcong⟩⟩
          rw [← hc, markCongested, if_pos hmark, hr]
        · left
          refine ⟨?_, hmark⟩
          rw [← hc, markCongested, if_neg hmark]
      · rw [if_neg hcong, Option.ite_none_right_eq_some, Option.some.injEq, Prod.mk.injEq] at h
        obtain ⟨⟨hfin, hone⟩, hc, hr⟩ := h
        exact ⟨hconsidered, ⟨iph, tcph, htcp, hfin⟩, hr.symm, .inl ⟨hc.symm, by omega⟩⟩
  · exact absurd h (by simp)

/-- A packet that closes a marked flow comes to the subtraction. -/
lemma congSubtraction_of_marked (hc : Considered skb) (hclose : Closing skb)
    (hmark : q.hashTable (flowHash P skb) = 1) :
    congSubtraction P q skb = some (q.congRate, pacingRate skb) := by
  obtain ⟨sk, hsk⟩ := Option.ne_none_iff_exists'.mp hc.1
  obtain ⟨iph, tcph, htcp, hfin⟩ := hclose
  have hrate : sk.skPacingRate = pacingRate skb := by rw [pacingRate, hsk]
  have hpos : ¬ intNonpos sk.skPacingRate := hrate ▸ hc.2.2
  rw [congSubtraction, hsk, htcp]
  dsimp only
  rw [if_neg hpos]
  have hself : (markCongested q (flowHash P skb) sk.skPacingRate).hashTable (flowHash P skb) = 1 ∧
      (markCongested q (flowHash P skb) sk.skPacingRate).congRate = q.congRate := by
    rw [markCongested, if_neg (by omega)]
    exact ⟨Function.update_self _ _ _, rfl⟩
  split
  · rw [if_pos ⟨hfin, hself.1⟩, hself.2, hrate]
  · rw [if_pos ⟨hfin, hmark⟩, hrate]

lemma congMeasurement_eq_some :
    congMeasurement P q skb tTime = some (c, d) ↔ EndsMeasurement P q skb ∧ c = q.congRate ∧
      d = (tTime + 2 ^ 64 - q.deqTime) % 2 ^ 64 := by
  rw [congMeasurement]
  split
  · rename_i hend
    simp [hend, eq_comm]
  · rename_i hend
    simp [hend]

/-! ### The invariant -/

/-- The rate is at most the cap, and a measurement that runs began in the past. -/
structure CongState.Tame (s : CongState) : Prop where
  booked : Booked s.sch.priv
  rate_le : s.sch.priv.congRate ≤ congCap
  began : s.sch.priv.deqRst = 0 → s.sch.priv.deqTime ≤ s.clock

namespace CongState

/-- The states after `dfb_init`. -/
lemma Initial.tame (hs : s.Initial) : s.Tame := by
  obtain ⟨sch, hsch⟩ := hs
  refine ⟨hsch ▸ .init sch s.clock, ?_, fun hrst => ?_⟩
  · rw [hsch]
    exact Nat.zero_le _
  · rw [hsch] at hrst
    exact absurd hrst Nat.one_ne_zero

/-- Clearing a mark with a covered rate does not raise the rate. -/
lemma unmark_congRate_le {h : ℕ} (hlt : q.congRate < 2 ^ 64)
    (hle : q.hashTable h = 1 → r ≤ q.congRate) :
    (unmarkCongested q h r).congRate ≤ q.congRate := by
  rw [unmarkCongested]
  dsimp only
  split
  · rename_i h1
    have hr := hle h1
    dsimp only
    split
    · exact Nat.zero_le _
    · rw [show q.congRate + 2 ^ 64 - r = q.congRate - r + 2 ^ 64 by omega, Nat.add_mod_right,
        Nat.mod_eq_of_lt (by omega)]
      exact Nat.sub_le _ _
  · exact le_rfl

/-- Marking a flow: the rate that was added, and what stays as it was. -/
lemma mark_congRate {h : ℕ} (hlt : q.congRate + r < 2 ^ 64) :
    (markCongested q h r).congRate = q.congRate + if q.hashTable h = 0 then r else 0 := by
  rw [markCongested]
  split
  · exact Nat.mod_eq_of_lt hlt
  · rfl

/-- Clearing the mark that the same packet has set leaves at most the old rate. -/
lemma unmark_mark_congRate_le {h : ℕ} (hlt : q.congRate + r < 2 ^ 64)
    (hle : q.hashTable h = 1 → r ≤ q.congRate) (hbinary : q.hashTable h = 0 ∨ q.hashTable h = 1) :
    (unmarkCongested (markCongested q h r) h r).congRate ≤ q.congRate := by
  have hrate := mark_congRate (h := h) hlt
  have hone : (markCongested q h r).hashTable h = 1 := Function.update_self _ _ _
  rcases hbinary with h0 | h1
  · rw [if_pos h0] at hrate
    rw [unmarkCongested]
    dsimp only
    rw [if_pos hone]
    dsimp only
    split
    · exact Nat.zero_le _
    · rw [hrate, show q.congRate + r + 2 ^ 64 - r = q.congRate + 2 ^ 64 by omega, Nat.add_mod_right]
      exact Nat.mod_le _ _
  · rw [if_neg (by omega), Nat.add_zero] at hrate
    rw [← hrate]
    exact unmark_congRate_le (by omega) fun _ => hrate ▸ hle h1

lemma mark_deq (h r : ℕ) (q : DfbSchedData) (hrst : (markCongested q h r).deqRst = 0) :
    q.deqRst = 0 ∧ (markCongested q h r).deqTime = q.deqTime := by
  rw [markCongested] at hrst ⊢
  split at hrst
  · exact absurd hrst Nat.one_ne_zero
  · rename_i hmark
    exact ⟨hrst, by rw [if_neg hmark]⟩

lemma unmark_deq (h r : ℕ) (q : DfbSchedData) (hrst : (unmarkCongested q h r).deqRst = 0) :
    q.deqRst = 0 ∧ (unmarkCongested q h r).deqTime = q.deqTime := by
  rw [unmarkCongested] at hrst ⊢
  dsimp only at hrst ⊢
  split at hrst
  · exact absurd hrst Nat.one_ne_zero
  · rename_i hmark
    exact ⟨hrst, by rw [if_neg hmark]⟩

/-- `update_congestion` does not touch a measurement that goes on. -/
lemma update_deq (hcases : UpdateCases P q skb q') (hrst : q'.deqRst = 0) :
    q.deqRst = 0 ∧ q'.deqTime = q.deqTime := by
  cases hcases with
  | ignored hnot => exact ⟨hrst, rfl⟩
  | marks hc hcong hopen => exact mark_deq _ _ _ hrst
  | clears hc hcalm hclose => exact unmark_deq _ _ _ hrst
  | marksAndClears hc hcong hclose =>
      obtain ⟨hrst₁, htime₁⟩ := unmark_deq _ _ _ hrst
      obtain ⟨hrst₀, htime₀⟩ := mark_deq _ _ _ hrst₁
      exact ⟨hrst₀, htime₁.trans htime₀⟩

/-- The divisor of a measurement is the time that has gone by. -/
lemma divisor_eq (ht : s.Tame) (hrst : s.sch.priv.deqRst = 0) (hle : s.clock ≤ tTime)
    (hlt : tTime < 2 ^ 64) :
    (tTime + 2 ^ 64 - s.sch.priv.deqTime) % 2 ^ 64 = tTime - s.sch.priv.deqTime := by
  have hbegan := ht.began hrst
  rw [show tTime + 2 ^ 64 - s.sch.priv.deqTime = tTime - s.sch.priv.deqTime + 2 ^ 64 by omega,
    Nat.add_mod_right]
  exact Nat.mod_eq_of_lt (by omega)

/-- One call that covers and is moderate keeps the invariant, if it advances. -/
lemma Tame.step (ht : s.Tame) (hvalid : s.Valid op) (hcovers : s.Covers P op)
    (hadv : s.Advances P op) (hmod : s.Moderate P op) (hstep : s.step P op = some s') :
    s'.Tame := by
  have hcap := congCap_eq
  have hrate := ht.rate_le
  have hone := measuredRate_one
  cases step_cases hstep with
  | update skb q hcases =>
      have hlt : pacingRate skb < 2 ^ 31 := hvalid
      refine ⟨ht.booked.update hcases, ?_, fun hrst => ?_⟩
      · cases hcases with
        | ignored hnot => exact hrate
        | marks hc hcong hopen =>
            dsimp only
            rw [mark_congRate (by omega)]
            split
            · rename_i h0
              exact hmod hc hcong hopen h0
            · exact hrate
        | clears hc hcalm hclose =>
            exact (unmark_congRate_le (by omega) (hcovers hc hclose)).trans hrate
        | marksAndClears hc hcong hclose =>
            refine (unmark_mark_congRate_le (by omega) (hcovers hc hclose) ?_).trans hrate
            exact ht.booked.binary _ (flowHash_lt P skb)
      · obtain ⟨hrst₀, htime⟩ := update_deq hcases hrst
        exact htime.trans_le (ht.began hrst₀)
  | dequeueDone p skb tTime sch hcases =>
      obtain ⟨hle, hlt⟩ : s.clock ≤ tTime ∧ tTime < 2 ^ 64 := hvalid
      refine ⟨ht.booked.estimator hcases, ?_, fun hrst => ?_⟩
      · generalize sch.priv = q at hcases
        cases hcases with
        | unmarked hmark => exact hrate
        | restarts hmark hrst => exact hrate
        | counts hmark hrst hcnt => exact hrate
        | measures hmark hrst hcnt =>
            have hpos := hadv ⟨hmark, hrst, hcnt⟩
            have hdiv := divisor_eq ht hrst hle hlt
            have hmeas := measuredRate_le (d := tTime - s.sch.priv.deqTime) (by omega)
            dsimp only
            rw [hdiv, Nat.mod_eq_of_lt (by omega)]
            omega
      · generalize sch.priv = q at hcases hrst
        cases hcases with
        | unmarked hmark => exact (ht.began hrst).trans hle
        | restarts hmark hrst' => exact le_rfl
        | counts hmark hrst' hcnt => exact (ht.began hrst).trans hle
        | measures hmark hrst' hcnt => exact le_rfl

/-- From such a state a call is safe exactly when it covers and advances. -/
lemma Tame.safe_iff (ht : s.Tame) (hvalid : s.Valid op) :
    s.Safe P op ↔ s.Covers P op ∧ s.Advances P op := by
  have hcap := congCap_eq
  have hrate := ht.rate_le
  have hone := measuredRate_one
  cases op with
  | update skb =>
      have hlt : pacingRate skb < 2 ^ 31 := hvalid
      constructor
      · rintro ⟨hwrap, -, -⟩
        refine ⟨fun hc hclose hmark => ?_, trivial⟩
        exact hwrap _ _ (congSubtraction_of_marked hc hclose hmark)
      · rintro ⟨hcovers, -⟩
        refine ⟨fun c r hsub => ?_, trivial, trivial⟩
        obtain ⟨hc, hclose, rfl, hold | hnew⟩ := congSubtraction_eq_some hsub
        · obtain ⟨rfl, hmark⟩ := hold
          have hbinary := ht.booked.binary _ (flowHash_lt P skb)
          exact hcovers hc hclose (hbinary.resolve_left hmark)
        · obtain ⟨rfl, -, -⟩ := hnew
          rw [Nat.mod_eq_of_lt (by omega)]
          exact Nat.le_add_left _ _
  | dequeueDone p skb tTime =>
      obtain ⟨hle, hlt⟩ : s.clock ≤ tTime ∧ tTime < 2 ^ 64 := hvalid
      constructor
      · rintro ⟨-, -, hzero⟩
        refine ⟨trivial, fun hend => ?_⟩
        have hne := hzero _ _ (congMeasurement_eq_some.mpr ⟨hend, rfl, rfl⟩)
        rw [divisor_eq ht hend.2.1 hle hlt] at hne
        omega
      · rintro ⟨-, hadv⟩
        have hops : ∀ c d, congMeasurement P s.sch.priv skb tTime = some (c, d) →
            c ≤ congCap ∧ d ≠ 0 := by
          intro c d hm
          obtain ⟨hend, rfl, rfl⟩ := congMeasurement_eq_some.mp hm
          have hpos := hadv hend
          rw [divisor_eq ht hend.2.1 hle hlt]
          exact ⟨hrate, by omega⟩
        refine ⟨trivial, fun c d hm => ?_, fun c d hm => (hops c d hm).2⟩
        obtain ⟨hc, hd⟩ := hops c d hm
        have hmeas := measuredRate_le hd
        omega

/-! ### A mark above the cap -/

/-- A measurement that began at the last reading of the clock has counted `k` packets, at the
congestion rate `c`. -/
structure Counting (P : Params) (s : CongState) (skb : SkBuff) (k c : ℕ) : Prop where
  mark : s.sch.priv.hashTable (flowHash P skb) ≠ 0
  rst : s.sch.priv.deqRst = 0
  cnt : s.sch.priv.deqCnt = k
  time : s.sch.priv.deqTime = s.clock
  rate : s.sch.priv.congRate = c

/-- One more packet at the same reading of the clock. -/
lemma Counting.step {k : ℕ} (hs : s.Counting P skb k c) (hk : k < 49) (p : ℕ) :
    ∃ s', s.step P (.dequeueDone p skb s.clock) = some s' ∧ s'.clock = s.clock ∧
      s'.Counting P skb (k + 1) c := by
  have hcnt : (s.sch.priv.deqCnt + 1) % 2 ^ 32 = k + 1 := by
    rw [hs.cnt]
    exact Nat.mod_eq_of_lt (by omega)
  have hpriv : (dfbDequeueDone P (s.sch.setSkb p skb) (some p) s.clock).priv
      = { s.sch.priv with deqCnt := k + 1 } := by
    rw [dfbDequeueDone]
    dsimp only
    rw [Qdisc.setSkb_mem_self, Qdisc.setSkb_priv, if_neg hs.mark, if_neg (not_not.mpr hs.rst), hcnt,
      if_neg (by omega)]
  refine ⟨_, rfl, rfl, ?_, ?_, ?_, ?_, ?_⟩ <;> dsimp only <;> rw [hpriv]
  · exact hs.mark
  · exact hs.rst
  · exact hs.time
  · exact hs.rate

/-- So many packets at the same reading of the clock. -/
lemma Counting.run (p : ℕ) : ∀ (n k : ℕ) {s : CongState}, s.Counting P skb k c → k + n ≤ 49 →
    ∃ s', Machine.exec (CongState.step P) s (List.replicate n (.dequeueDone p skb s.clock))
        = some s' ∧
      s'.clock = s.clock ∧ s'.Counting P skb (k + n) c := by
  intro n
  induction n with
  | zero => exact fun k s hs _ => ⟨s, rfl, rfl, hs⟩
  | succ n ih =>
      intro k s hs hle
      obtain ⟨s₁, hstep, hclock, hs₁⟩ := hs.step (by omega) p
      obtain ⟨s', hrun, hclock', hs'⟩ := ih (k + 1) hs₁ (by omega)
      rw [hclock] at hrun hclock'
      refine ⟨s', ?_, hclock', by rwa [show k + (n + 1) = k + 1 + n by omega]⟩
      rw [List.replicate_succ, Machine.exec, hstep]
      exact hrun

/-- A fiftieth packet one nanosecond later, at a rate above the cap, makes the estimator
overflow. -/
lemma Counting.overflows (hs : s.Counting P skb 49 c) (hc : congCap < c) (p : ℕ) :
    s.Advances P (.dequeueDone p skb (s.clock + 1)) ∧
      ¬ s.NoOverflow P (.dequeueDone p skb (s.clock + 1)) := by
  have hend : EndsMeasurement P s.sch.priv skb := ⟨hs.mark, hs.rst, by rw [hs.cnt]; rfl⟩
  have hcap := congCap_eq
  have hone := measuredRate_one
  refine ⟨fun _ => by rw [hs.time]; omega, fun hsafe => ?_⟩
  have hlt := hsafe c 1 (congMeasurement_eq_some.mpr ⟨hend, hs.rate.symm, ?_⟩)
  · omega
  · rw [hs.time, show s.clock + 1 + 2 ^ 64 - s.clock = 1 + 2 ^ 64 by omega, Nat.add_mod_right]
    rfl

/-- The calls of one packet that marks its flow, of which then fifty packets leave at one reading
of the clock. -/
def markThenCount (skb : SkBuff) (clock : ℕ) : List CongOp :=
  .update skb :: .dequeueDone 0 skb clock :: List.replicate 49 (.dequeueDone 0 skb clock)

/-- A mark above the cap can be followed by dequeues that make the estimator overflow. -/
lemma Tame.overflows (ht : s.Tame) (hvalid : s.Valid (.update skb))
    (himm : ¬ s.Moderate P (.update skb)) (hclock : s.clock + 1 < 2 ^ 64) :
    ∃ s', Machine.exec (CongState.step P) s (markThenCount skb s.clock) = some s' ∧
      s'.Valid (.dequeueDone 0 skb (s.clock + 1)) ∧
      s'.Advances P (.dequeueDone 0 skb (s.clock + 1)) ∧
      ¬ s'.NoOverflow P (.dequeueDone 0 skb (s.clock + 1)) := by
  have hcap := congCap_eq
  have hrate := ht.rate_le
  have hlt : pacingRate skb < 2 ^ 31 := hvalid
  rw [Moderate] at himm
  push Not at himm
  obtain ⟨hc, hcong, hopen, hmark, habove⟩ := himm
  have hupdate : updateCongestion P s.sch.priv skb
      = markCongested s.sch.priv (flowHash P skb) (pacingRate skb) := by
    have hcases := updateCongestion_cases P s.sch.priv skb
    generalize updateCongestion P s.sch.priv skb = q' at hcases
    cases hcases with
    | ignored hnot => exact absurd hcong (hnot hc).1
    | marks => rfl
    | clears _ hcalm => exact absurd hcong hcalm
    | marksAndClears _ _ hclose => exact absurd hclose hopen
  set q := markCongested s.sch.priv (flowHash P skb) (pacingRate skb) with hq
  have hone : q.hashTable (flowHash P skb) = 1 := Function.update_self _ _ _
  have hcongRate : q.congRate = s.sch.priv.congRate + pacingRate skb := by
    rw [hq, mark_congRate (by omega), if_pos hmark]
  have hrst : q.deqRst = 1 := by rw [hq, markCongested, if_pos hmark]
  -- the first packet restarts the measurement
  obtain ⟨s₁, hstep₁, hsch₁, hclock₁⟩ : ∃ s₁, s.step P (.update skb) = some s₁ ∧
      s₁.sch.priv = q ∧ s₁.clock = s.clock := by
    exact ⟨{ s with sch := { s.sch with priv := q } }, by rw [CongState.step, hupdate], rfl, rfl⟩
  obtain ⟨s₂, hstep₂, hsch₂, hclock₂⟩ : ∃ s₂, s₁.step P (.dequeueDone 0 skb s.clock) = some s₂ ∧
      s₂.sch.priv = { q with deqRst := 0, deqCnt := 0, deqTime := s.clock } ∧
      s₂.clock = s.clock := by
    refine ⟨_, rfl, ?_, rfl⟩
    dsimp only
    rw [dfbDequeueDone]
    dsimp only
    rw [Qdisc.setSkb_mem_self, Qdisc.setSkb_priv, hsch₁, if_neg (by rw [hone]; norm_num),
      if_pos (by rw [hrst]; norm_num)]
  have hcounting : s₂.Counting P skb 0 q.congRate := by
    refine ⟨?_, ?_, ?_, ?_, ?_⟩ <;> rw [hsch₂]
    · rw [hone]
      norm_num
    · exact hclock₂.symm
  obtain ⟨s', hrun, hclock', hs'⟩ := hcounting.run 0 49 0 le_rfl
  rw [hclock₂] at hrun hclock'
  refine ⟨s', ?_, ⟨by omega, hclock⟩, ?_⟩
  · rw [markThenCount, Machine.exec, hstep₁, Option.bind_some, Machine.exec, hstep₂,
      Option.bind_some]
    exact hrun
  · have hover := hs'.overflows (by omega) 0
    rw [hclock'] at hover
    exact hover

end CongState

/-! ### Sequences -/

/-- **The arithmetic on the congestion rate**: in every sequence of valid calls that cover, advance
and are moderate, the next valid call is safe exactly when it covers and advances; and a mark that
is not moderate can be followed by dequeues of its flow the last of which overflows. -/
theorem congestion_safe_iff
    (hs : CongReach P (fun s op => s.Valid op ∧ s.Covers P op ∧ s.Advances P op ∧ s.Moderate P op)
      s) :
    (∀ op, s.Valid op → (s.Safe P op ↔ s.Covers P op ∧ s.Advances P op)) ∧
      ∀ skb, s.Valid (.update skb) → ¬ s.Moderate P (.update skb) → s.clock + 1 < 2 ^ 64 →
        ∃ s', Machine.exec (CongState.step P) s (CongState.markThenCount skb s.clock) = some s' ∧
          s'.Valid (.dequeueDone 0 skb (s.clock + 1)) ∧
          s'.Advances P (.dequeueDone 0 skb (s.clock + 1)) ∧
          ¬ s'.NoOverflow P (.dequeueDone 0 skb (s.clock + 1)) := by
  have ht : s.Tame := hs.invariant (fun s hinit => hinit.tame)
    fun s s' op _ ih hok hstep => ih.step hok.1 hok.2.1 hok.2.2.1 hok.2.2.2 hstep
  exact ⟨fun op hvalid => ht.safe_iff hvalid, fun skb => ht.overflows⟩

namespace CongState

instance (skb : SkBuff) : Decidable (Congested skb) :=
  decidable_of_iff (∃ sk ∈ skb.sk, TcpCaState.disorder.toNat < sk.icskCaState.toNat) Iff.rfl

instance (skb : SkBuff) : Decidable (Closing skb) :=
  decidable_of_iff (∃ hdrs ∈ ipv4Tcp skb, (hdrs.2.fin || hdrs.2.rst) = true)
    ⟨fun ⟨hdrs, hmem, hfin⟩ => ⟨hdrs.1, hdrs.2, hmem, hfin⟩,
      fun ⟨iph, tcph, hmem, hfin⟩ => ⟨(iph, tcph), hmem, hfin⟩⟩

instance (skb : SkBuff) : Decidable (Considered skb) := inferInstanceAs (Decidable (_ ∧ _ ∧ _))

instance (P : Params) (s : CongState) : (op : CongOp) → Decidable (s.Covers P op)
  | .update _ => inferInstanceAs (Decidable (_ → _ → _ → _))
  | .dequeueDone _ _ _ => inferInstanceAs (Decidable True)

instance (P : Params) (s : CongState) : (op : CongOp) → Decidable (s.Advances P op)
  | .update _ => inferInstanceAs (Decidable True)
  | .dequeueDone _ _ _ => inferInstanceAs (Decidable (_ → _))

instance (P : Params) (s : CongState) : (op : CongOp) → Decidable (s.Moderate P op)
  | .update _ => inferInstanceAs (Decidable (_ → _ → _ → _ → _))
  | .dequeueDone _ _ _ => inferInstanceAs (Decidable True)

end CongState

/-- A flow in loss whose fiftieth packet ends a measurement of one millisecond.  Its FIN is safe at
half its rate; at the old rate it would wrap. -/
theorem congestion_safe_iff_run :
    ∃ s, CongReach saddrParams
        (fun s op => s.Valid op ∧ s.Covers saddrParams op ∧ s.Advances saddrParams op ∧
          s.Moderate saddrParams op) s ∧
      s.sch.priv.congRate = 768750000 ∧
      s.Safe saddrParams (.update (flowSkb 1 500000000 .caOpen true)) ∧
      ¬ s.Covers saddrParams (.update (flowSkb 1 1000000000 .caOpen true)) ∧
      ∀ op, s.Valid op →
        (s.Safe saddrParams op ↔ s.Covers saddrParams op ∧ s.Advances saddrParams op) := by
  obtain ⟨s, hs, hrate, hnot⟩ := exists_congReach saddrParams
    (fun s op => s.Valid op ∧ s.Covers saddrParams op ∧ s.Advances saddrParams op ∧
      s.Moderate saddrParams op)
    (.update (flowSkb 1 1000000000 .loss false) ::
      (List.replicate 50 (.dequeueDone 7 (flowSkb 1 1000000000 .loss false) 5) ++
        [.dequeueDone 7 (flowSkb 1 1000000000 .loss false) 1000005]))
    (fun s => s.sch.priv.congRate = 768750000 ∧
      ¬ s.Covers saddrParams (.update (flowSkb 1 1000000000 .caOpen true))) (by decide +kernel)
  have hiff := congestion_safe_iff hs
  refine ⟨s, hs, hrate, ?_, hnot, hiff.1⟩
  have hvalid : pacingRate (flowSkb 1 500000000 .caOpen true) < 2 ^ 31 := by decide
  refine (hiff.1 (.update _) hvalid).mpr ⟨fun _ _ _ => ?_, trivial⟩
  rw [hrate]
  decide

/-- A packet that clears a mark at a higher rate than the one it was set at, the rate it leaves
when another flow is still marked, and fifty packets within one nanosecond. -/
theorem congestion_unsafe :
    ¬ (∀ P s op, CongReach P CongState.Valid s → s.Valid op → s.NoWrap P op) ∧
      ¬ (∀ P s op, CongReach P CongState.Valid s → s.Valid op → s.NoOverflow P op) ∧
      ¬ (∀ P s op, CongReach P CongState.Valid s → s.Valid op → s.NoZeroDivisor P op) := by
  refine ⟨fun hall => ?_, fun hall => ?_, fun hall => ?_⟩
  · obtain ⟨s, hs, hsub⟩ := exists_congReach saddrParams CongState.Valid
      [.update (flowSkb 1 1000 .loss false)]
      (fun s => congSubtraction saddrParams s.sch.priv (flowSkb 1 2000 .caOpen true)
        = some (1000, 2000)) (by decide +kernel)
    have hvalid : pacingRate (flowSkb 1 2000 .caOpen true) < 2 ^ 31 := by decide
    exact absurd (hall _ s (.update _) hs hvalid _ _ hsub) (by norm_num)
  · obtain ⟨s, hs, ⟨hclock, hmeas⟩⟩ := exists_congReach saddrParams CongState.Valid
      ([.update (flowSkb 1 1000 .loss false), .update (flowSkb 2 1000 .loss false),
        .update (flowSkb 1 3000 .caOpen true)] ++
        List.replicate 50 (.dequeueDone 7 (flowSkb 2 1000 .loss false) 5))
      (fun s => s.clock = 5 ∧ congMeasurement saddrParams s.sch.priv (flowSkb 2 1000 .loss false)
        1000005 = some (2 ^ 64 - 1000, 1000000)) (by decide +kernel)
    have hlt := hall _ s (.dequeueDone 7 _ 1000005) hs ⟨by rw [hclock]; norm_num, by norm_num⟩ _ _
      hmeas
    exact absurd hlt (by decide)
  · obtain ⟨s, hs, ⟨hclock, hmeas⟩⟩ := exists_congReach saddrParams CongState.Valid
      (.update (flowSkb 1 1000 .loss false) ::
        List.replicate 50 (.dequeueDone 7 (flowSkb 1 1000 .loss false) 5))
      (fun s => s.clock = 5 ∧ congMeasurement saddrParams s.sch.priv (flowSkb 1 1000 .loss false) 5
        = some (1000, 0)) (by decide +kernel)
    exact hall _ s (.dequeueDone 7 _ 5) hs ⟨hclock.le, by norm_num⟩ _ _ hmeas rfl

end Dfb
