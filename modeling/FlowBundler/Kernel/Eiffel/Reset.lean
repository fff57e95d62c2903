import FlowBundler.Kernel.Eiffel.Service

/-!
`gq_reset` of `sch_eiffel.c`.

* `answers`: what a list of calls returns; `answers_eq`: disciplines that refine one queue return
  the same, by induction over the calls.
* `Restored k P clock sch`: the discipline is as `gq_init` sets it up, the links of the nodes
  from `k` on included, and behaves so.  With `k = 0` the link of the root counts, which `gq_init`
  computes from `0 - 1` and no call follows.
* `Shaped` is kept by every callback, resets included (`reach_formed`).
* **One direction.** An empty queue whose trees have one level has no links but those of the root,
  and a reset of it refines the empty queue (`restored_of_empty`); so it answers as after `gq_init`.
* **The other.** A reset clears the buckets and all nodes, links included, but not
  `num_of_elements`.  With two levels there are nodes below the root, whose links are then missing
  (`levels_le_one`).  A restored discipline returns from every list of calls (`Restored.returns`),
  so for the rest it is enough to find one that faults: a dequeue on trees without levels, or an
  enqueue of a packet that has no bucket in its array.
* `reset_restores_iff`: when a reset restores the queue; `reset_leaves_count`: a reset of a queue
  with a packet.
-/

namespace Eiffel

open Gq Ledger Occupancy

variable {P : Params}

/-! ### Answers -/

/-- What a call returns. -/
inductive Answer where
  | enqueued (ret : NetXmit) (pushed : List Pushed)
  | dequeued (skb : Option (SkBuff × ℕ)) (watchdog : Option ℕ)
  | wasReset
  deriving DecidableEq, Repr

/-- One call on a discipline. -/
def answer (P : Params) (sch : Qdisc) : Op → Option (Answer × Qdisc)
  | .enqueue now skb segs =>
      (gqEnqueue P sch now skb segs).map fun r => (.enqueued r.ret r.pushed, r.sch)
  | .dequeue now => (gqDequeue sch now).map fun r => (.dequeued r.skb r.watchdog, r.sch)
  | .reset => some (.wasReset, gqReset sch)

/-- A list of calls; `none` when one of them faults. -/
def answers (P : Params) : Qdisc → List Op → Option (List Answer)
  | _, [] => some []
  | sch, op :: ops =>
      (answer P sch op).bind fun (a, sch) => (answers P sch ops).map fun rest => a :: rest

/-- Enqueues and dequeues under a clock that does not go back. -/
def InOrder : ℕ → List Op → Prop
  | _, [] => True
  | clock, .enqueue now _ _ :: ops => clock ≤ now ∧ now < 2 ^ 63 ∧ InOrder now ops
  | clock, .dequeue now :: ops => clock ≤ now ∧ now < 2 ^ 63 ∧ InOrder now ops
  | _, .reset :: _ => False

lemma answers_cons {sch sch' : Qdisc} {op : Op} {ops : List Op} {a : Answer} {out : List Answer}
    (h : answer P sch op = some (a, sch')) (hout : answers P sch' ops = some out) :
    answers P sch (op :: ops) = some (a :: out) := by
  rw [answers, h, Option.bind_some]
  dsimp only
  rw [hout]
  rfl

/-- **Disciplines that refine one queue** return the same, by induction over the calls. -/
lemma answers_eq (hP : Fit P) (ops : List Op) :
    ∀ {clock : ℕ} {sch sch' : Qdisc} {q : PQueue}, Refines P sch q → Refines P sch' q →
      InOrder clock ops → ∃ out, answers P sch ops = some out ∧ answers P sch' ops = some out := by
  induction ops with
  | nil => exact fun _ _ _ => ⟨[], rfl, rfl⟩
  | cons op ops ih =>
      intro clock sch sch' q h h' hops
      cases op with
      | enqueue now skb segs =>
          obtain ⟨r, hrun, hpushed, hret, hnext⟩ := h.enqueue hP hops.2.1 skb segs
          obtain ⟨r', hrun', hpushed', hret', hnext'⟩ := h'.enqueue hP hops.2.1 skb segs
          obtain ⟨out, hout, hout'⟩ := ih hnext hnext' hops.2.2
          have hsame : r'.pushed = r.pushed := hpushed'.trans hpushed.symm
          refine ⟨_, answers_cons (by rw [answer, hrun]; rfl) hout, answers_cons ?_ hout'⟩
          rw [answer, hrun', Option.map_some, hret', hsame, ← hret]
      | dequeue now =>
          obtain ⟨r, hrun, hskb, hwatch, -, hnext⟩ := h.dequeue hP hops.2.1
          obtain ⟨r', hrun', hskb', hwatch', -, hnext'⟩ := h'.dequeue hP hops.2.1
          obtain ⟨out, hout, hout'⟩ := ih hnext hnext' hops.2.2
          refine ⟨_, answers_cons (by rw [answer, hrun]; rfl) hout, answers_cons ?_ hout'⟩
          rw [answer, hrun', Option.map_some, hskb', hwatch', ← hskb, ← hwatch]
      | reset => exact hops.elim

/-! ### A restored queue -/

/-- A side as `gq_init` sets it up, the links of the nodes from `k` on included. -/
structure Side.Fresh (nb s k : ℕ) (side : Side) : Prop where
  buckets : ∀ i < nb, side.buckets i = .empty
  words : ∀ n < s, (side.tree n).a = 0 ∧ (side.tree n).c = 0
  links : ∀ n < s, k ≤ n →
    (side.tree n).abcI = (initNode n).abcI ∧ (side.tree n).wwI = (initNode n).wwI

/-- A discipline as `gq_init` sets it up, the links of the nodes from `k` on included: every later
sequence of enqueues and dequeues returns, and returns what it does after `gq_init`. -/
structure Restored (k : ℕ) (P : Params) (clock : ℕ) (sch : Qdisc) : Prop where
  count : sch.gq.numOfElements = 0
  main : sch.gq.main.Fresh sch.gq.numOfBuckets sch.gq.s k
  buffer : sch.gq.buffer.Fresh sch.gq.numOfBuckets sch.gq.s k
  later : ∀ ops, InOrder clock ops → ∀ now lastExpires memory memory' new,
    gqInit P now lastExpires memory memory' = some new →
      ∃ out, answers P sch ops = some out ∧ answers P new ops = some out

/-! ### What the callbacks keep -/

/-- **Every operation** on the queue keeps the shape. -/
lemma Shaped.step {gq gq' : GradientQueue} {op : QueueOp} (h : Shaped P gq)
    (hstep : queueStep gq op = some gq') : Shaped P gq' := by
  cases queueStep_cases hstep with
  | wait | stay => exact h
  | pushMain | pushBuffer | idle | popMain | popBuffer | turn | restart =>
      exact ⟨h.grnlrty, h.numOfBuckets, h.w, h.l, h.s, h.horizon⟩

lemma Shaped.keeps (P : Params) (now : ℕ) : Keeps now (Shaped P) :=
  fun _ _ _ h _ hstep => h.step hstep

/-- The shape and the limit of a discipline. -/
structure Formed (P : Params) (sch : Qdisc) : Prop where
  shaped : Shaped P sch.gq
  limit_eq : sch.limit = schLimit

namespace Formed

variable {sch sch' : Qdisc} {now : ℕ}

lemma enqueue {skb : SkBuff} {segs : List SkBuff} {r : EnqueueResult} (h : Formed P sch)
    (hrun : gqEnqueue P sch now skb segs = some r) : Formed P r.sch := by
  obtain ⟨hshaped, hlimit⟩ := (Shaped.keeps P now).enqueue h.shaped hrun
  exact ⟨hshaped, hlimit.trans h.limit_eq⟩

lemma dequeue {r : DequeueResult} (h : Formed P sch) (hrun : gqDequeue sch now = some r) :
    Formed P r.sch := by
  obtain ⟨hshaped, hlimit⟩ := (Shaped.keeps P now).dequeue h.shaped hrun
  exact ⟨hshaped, hlimit.trans h.limit_eq⟩

lemma reset (h : Formed P sch) : Formed P (gqReset sch) :=
  ⟨⟨h.shaped.grnlrty, h.shaped.numOfBuckets, h.shaped.w, h.shaped.l, h.shaped.s, h.shaped.horizon⟩,
    h.limit_eq⟩

end Formed

namespace World

variable {w w' : World} {op : Op}

/-- Callbacks under a clock that does not go back. -/
def Ticks (w : World) : Op → Prop
  | .enqueue now _ _ => w.clock ≤ now ∧ now < 2 ^ 63
  | .dequeue now => w.clock ≤ now ∧ now < 2 ^ 63
  | .reset => True

instance (w : World) : (op : Op) → Decidable (w.Ticks op)
  | .enqueue _ _ _ => inferInstanceAs (Decidable (_ ∧ _))
  | .dequeue _ => inferInstanceAs (Decidable (_ ∧ _))
  | .reset => inferInstanceAs (Decidable True)

lemma formed_initial (h : w.Initial P) :
    0 < P.granularity ∧ Formed P w.sch ∧ w.clock < 2 ^ 63 := by
  obtain ⟨now, lastExpires, memory, memory', sch, hnow, hinit, rfl⟩ := h
  obtain ⟨hgran, rfl⟩ := gqInit_eq_some_iff.mp hinit
  exact ⟨hgran, ⟨⟨rfl, rfl, rfl, rfl, rfl, rfl⟩, rfl⟩, hnow⟩

lemma formed_step (h : Formed P w.sch) (hclock : w.clock < 2 ^ 63) (hok : w.Ticks op)
    (hstep : w.step P op = some w') : Formed P w'.sch ∧ w'.clock < 2 ^ 63 := by
  cases op with
  | enqueue now skb segs =>
      obtain ⟨r, hrun, rfl⟩ := Option.map_eq_some_iff.mp hstep
      exact ⟨h.enqueue hrun, hok.2⟩
  | dequeue now =>
      obtain ⟨r, hrun, rfl⟩ := Option.map_eq_some_iff.mp hstep
      exact ⟨h.dequeue hrun, hok.2⟩
  | reset =>
      rw [← Option.some.inj hstep]
      exact ⟨h.reset, hclock⟩

/-- What holds in every run, resets included. -/
lemma reach_formed (hw : Reach P Ticks w) :
    0 < P.granularity ∧ Formed P w.sch ∧ w.clock < 2 ^ 63 :=
  hw.invariant (fun _ hinit => formed_initial hinit) fun _ _ _ _ ih hok hstep =>
    ⟨ih.1, formed_step ih.2.1 ih.2.2 hok hstep⟩

end World

/-! ### What goes wrong -/

section Faults

variable {sch : Qdisc} {clock : ℕ}

/-- A dequeue on trees without levels reads a node that is not there. -/
lemma answers_dequeue_eq_none (hs : sch.gq.s = 0) (clock : ℕ) :
    answers P sch [.dequeue clock] = none := by
  rw [answers, answer, gqDequeue, gqExtract, getMinIndex, if_pos hs]
  rfl

/-- An enqueue into an empty discipline of a packet that does not fit into its bucket. -/
lemma answers_enqueue_eq_none (hcount : sch.gq.numOfElements = 0) (hlimit : sch.limit = schLimit)
    (hgran : sch.gq.grnlrty = P.granularity) (hhor : sch.gq.horizon = P.horizonNs)
    (hg : 0 < P.granularity) (hclock : clock < 2 ^ 63) {i : ℕ} (hi : 0 < i)
    (hlt : i * P.granularity < P.horizonNs)
    (hfault : ∀ skb, sch.gq.main.push (restart sch.gq clock) i skb = none) :
    answers P sch [.enqueue clock (packetAt 0 (clock + i * P.granularity)) []] = none := by
  have hH := horizonNs_lt P
  have hpos : 0 < i * P.granularity := Nat.mul_pos hi hg
  have hroom : ¬ (restart sch.gq clock).numOfElements ≥ sch.limit := by
    rw [hlimit, restart]
    dsimp only
    rw [hcount]
    decide
  have hplace : pushPlace (restart sch.gq clock) (clock + i * P.granularity)
      = (true, i, clock + i * P.granularity) := by
    rw [pushPlace, restart]
    dsimp only
    rw [hhor, hgran, Nat.mod_eq_of_lt (by omega), if_pos (by omega), if_neg (by omega),
      Nat.add_sub_cancel_left, Nat.mul_div_cancel i hg]
  have hpush : gqPush (restart sch.gq clock) (packetAt 0 (clock + i * P.granularity)) = none := by
    rw [gqPush, packetAt]
    dsimp only
    rw [hplace]
    dsimp only
    rw [if_pos rfl, show (restart sch.gq clock).main = sch.gq.main from rfl, hfault]
    rfl
  have hone : pushOne { sch with gq := restart sch.gq clock }
      (packetAt 0 (clock + i * P.granularity)) = none := by
    rw [pushOne, hpush]
    rfl
  have hgso : ¬ (P.gsoSplit && (packetAt 0 (clock + i * P.granularity)).isGso) = true := by
    simp [packetAt]
  rw [answers, answer, gqEnqueue, if_pos hcount]
  dsimp only
  rw [if_neg hroom, if_neg hgso, hone]
  rfl

end Faults

/-! ### When a reset restores the queue -/

/-- With two to `32` buckets the trees have one level. -/
lemma levels_eq_one (htwo : 2 ≤ numBuckets P) (hmax : numBuckets P ≤ 32) : levels P = 1 := by
  have hall : ∀ k ≤ 32, 2 ≤ k → (logApprox k + logApprox base - 1) / logApprox base = 1 := by
    decide
  exact hall _ hmax htwo

lemma levels_eq_zero (hlt : numBuckets P < 2) : levels P = 0 := by
  have hall : ∀ k < 2, (logApprox k + logApprox base - 1) / logApprox base = 0 := by decide
  exact hall _ hlt

section Restored

variable {sch : Qdisc} {clock k : ℕ}

/-- A restored discipline returns from a list of calls. -/
lemma Restored.returns (h : Restored k P clock sch) (hg : 0 < P.granularity) (ops : List Op)
    (hops : InOrder clock ops) : answers P sch ops ≠ none := by
  obtain ⟨out, hout, -⟩ := h.later ops hops 0 0 (fun _ => .empty) (fun _ => .empty) _
    (gqInit_eq_some_iff.mpr ⟨hg, rfl⟩)
  simp [hout]

/-- A reset discipline that works has trees with levels. -/
lemma Restored.s_ne_zero (h : Restored k P clock sch) (hg : 0 < P.granularity)
    (hclock : clock < 2 ^ 63) : sch.gq.s ≠ 0 := fun hs =>
  h.returns hg [.dequeue clock] ⟨le_rfl, hclock, trivial⟩ (answers_dequeue_eq_none hs clock)

/-- A reset clears the links of all nodes, and gives the second child of the root another place. -/
lemma levels_le_one (h : Restored 1 P clock (gqReset sch)) (hshaped : Shaped P sch.gq) :
    levels P ≤ 1 := by
  by_contra hcon
  have hs : 2 < (gqReset sch).gq.s := by
    have hmono := start_mono (show 0 < base by decide) (show 2 ≤ levels P by omega)
    have htwo : start base 2 = 33 := rfl
    rw [show (gqReset sch).gq.s = sch.gq.s from rfl, hshaped.s, nodes_eq]
    omega
  have hlink := (h.main.links 2 hs (by omega)).2
  have hzero : ((gqReset sch).gq.main.tree 2).wwI = 0 := by
    rw [gqReset, Side.reset]
    dsimp only
    rw [if_pos (show 2 < sch.gq.s from hs)]
  rw [hzero] at hlink
  exact absurd hlink (by decide)

/-- A working discipline with one level has at most `32` buckets, and a granularity that divides
the horizon. -/
lemma fits_of_restored (h : Restored 1 P clock (gqReset sch)) (hformed : Formed P sch)
    (hg : 0 < P.granularity) (hclock : clock < 2 ^ 63) (hl : levels P = 1) :
    numBuckets P ≤ 32 ∧ P.granularity ∣ P.horizonNs := by
  have hreset := hformed.reset
  have hshaped := hreset.shaped
  have hfloor : numBuckets P * P.granularity ≤ P.horizonNs := Nat.div_mul_le_self _ _
  have hfault : ∀ i, 0 < i → i * P.granularity < P.horizonNs →
      ∃ skb, (gqReset sch).gq.main.push (restart (gqReset sch).gq clock) i skb ≠ none := by
    intro i hi hlt
    by_contra hcon
    push Not at hcon
    exact h.returns hg [.enqueue clock (packetAt 0 (clock + i * P.granularity)) []]
      ⟨le_rfl, hclock, trivial⟩ (answers_enqueue_eq_none h.count hreset.limit_eq hshaped.grnlrty
        hshaped.horizon hg hclock hi hlt hcon)
  have htwo : 2 ≤ numBuckets P := by
    by_contra hcon
    rw [levels_eq_zero (not_le.mp hcon)] at hl
    exact absurd hl (by decide)
  constructor
  · -- the bucket `32` would be below the second node
    by_contra hcon
    have hlt : 32 * P.granularity < P.horizonNs :=
      (Nat.mul_lt_mul_of_pos_right (not_le.mp hcon) hg).trans_le hfloor
    obtain ⟨skb, hpush⟩ := hfault 32 (by norm_num) hlt
    have hempty : (gqReset sch).gq.main.buckets 32 = .empty :=
      h.main.buckets 32 (by rw [hshaped.numOfBuckets]; omega)
    have hs : nodes P = 1 := by
      rw [nodes_eq, hl]
      rfl
    refine hpush ?_
    rw [Side.push, restart]
    dsimp only
    rw [if_neg (by rw [hshaped.numOfBuckets]; omega), hempty, hshaped.s, hshaped.l, hshaped.w, hs,
      hl]
    rfl
  · -- the bucket `num_of_buckets` would be beyond the array
    by_contra hcon
    have hne : numBuckets P * P.granularity ≠ P.horizonNs := fun heq =>
      hcon (Dvd.intro_left _ heq)
    obtain ⟨skb, hpush⟩ := hfault (numBuckets P) (by omega) (by omega)
    refine hpush ?_
    rw [Side.push, restart]
    dsimp only
    rw [if_pos (by rw [hshaped.numOfBuckets])]

/-- A side after a reset, when the trees have one level. -/
lemma reset_fresh (nb s k : ℕ) (side : Side) (hk : s ≤ k) : (side.reset nb s).Fresh nb s k := by
  refine ⟨fun i hi => ?_, fun n hn => ?_, fun n hn hkn => absurd hn (by omega)⟩
  · exact if_pos hi
  · rw [Side.reset]
    dsimp only
    rw [if_pos hn]
    exact ⟨rfl, rfl⟩

lemma reset_ok (side : Side) : SideOk 1 (numBuckets P) (side.reset (numBuckets P) 1) := by
  have hfresh := reset_fresh (numBuckets P) 1 1 side le_rfl
  exact SideOk.blank hfresh.buckets hfresh.words fun n hpos hn =>
    absurd hn (by rw [show start base 1 = 1 from rfl]; omega)

/-- **A reset of an empty queue** whose trees have one level. -/
lemma restored_of_empty (hformed : Formed P sch) (hdvd : P.granularity ∣ P.horizonNs)
    (htwo : 2 ≤ numBuckets P) (hmax : numBuckets P ≤ 32) (hcount : sch.gq.numOfElements = 0)
    (clock : ℕ) : Restored 1 P clock (gqReset sch) := by
  have hl := levels_eq_one htwo hmax
  have hs : nodes P = 1 := by
    rw [nodes_eq, hl]
    rfl
  have hP : Fit P := ⟨hdvd, htwo, by rw [hl]; exact hmax⟩
  obtain ⟨hshaped, hlimit⟩ := hformed
  refine ⟨hcount, ?_, ?_, fun ops hops now lastExpires memory memory' new hnew => ?_⟩
  · exact reset_fresh _ _ _ _ (hshaped.s.trans hs).le
  · exact reset_fresh _ _ _ _ (hshaped.s.trans hs).le
  · obtain ⟨-, rfl⟩ := gqInit_eq_some_iff.mp hnew
    have hsound : Sound P (gqReset sch).gq := by
      refine ⟨(Formed.reset ⟨hshaped, hlimit⟩).shaped, ?_, ?_⟩
      · rw [gqReset]
        dsimp only
        rw [hshaped.numOfBuckets, hshaped.s, hshaped.l, hl, hs]
        exact reset_ok sch.gq.main
      · rw [gqReset]
        dsimp only
        rw [hshaped.numOfBuckets, hshaped.s, hshaped.l, hl, hs]
        exact reset_ok sch.gq.buffer
    refine answers_eq hP ops (Refines.blank hsound hcount (fun i hi => ?_) (fun i hi => ?_) hlimit)
      (initQdisc_refines (by omega) now lastExpires memory memory') hops
    · exact if_pos (by rw [hshaped.numOfBuckets]; exact hi)
    · exact if_pos (by rw [hshaped.numOfBuckets]; exact hi)

end Restored

/-- **When a reset restores the queue**: never with the link of the root, which `gq_init` computes
from `0 - 1` and no call follows; without it exactly when the queue was empty, its trees have one
level and room for all buckets, and the granularity divides the horizon. -/
theorem reset_restores_iff {w : World} (hw : Reach P World.Ticks w) :
    ¬ Restored 0 P w.clock (gqReset w.sch) ∧
      (Restored 1 P w.clock (gqReset w.sch) ↔ P.granularity ∣ P.horizonNs ∧ 2 ≤ numBuckets P ∧
        numBuckets P ≤ 32 ∧ w.sch.gq.numOfElements = 0) := by
  obtain ⟨hg, hformed, hclock⟩ := World.reach_formed hw
  refine ⟨fun h => ?_, fun h => ?_, fun ⟨hdvd, htwo, hmax, hcount⟩ =>
    restored_of_empty hformed hdvd htwo hmax hcount w.clock⟩
  · have hs := Nat.pos_of_ne_zero (h.s_ne_zero hg hclock)
    have hlink := (h.main.links 0 hs le_rfl).1
    have hzero : ((gqReset w.sch).gq.main.tree 0).abcI = 0 := by
      rw [gqReset, Side.reset]
      dsimp only
      rw [if_pos (show 0 < w.sch.gq.s from hs)]
    rw [hzero] at hlink
    exact absurd hlink (by decide)
  · have hs := h.s_ne_zero hg hclock
    have hle := levels_le_one h hformed.shaped
    have hpos : levels P ≠ 0 := fun hzero => by
      rw [show (gqReset w.sch).gq.s = w.sch.gq.s from rfl, hformed.shaped.s, nodes_eq, hzero] at hs
      exact hs rfl
    have hl : levels P = 1 := by omega
    obtain ⟨hmax, hdvd⟩ := fits_of_restored h hformed hg hclock hl
    refine ⟨hdvd, ?_, hmax, h.count⟩
    by_contra hcon
    exact hpos (levels_eq_zero (not_le.mp hcon))

/-- Ten buckets. -/
def tenBuckets : Params :=
  { gsoSplit := false, granularity := 100000000, horizon := 1
    granularity_lt := by norm_num, horizon_lt := second_horizon_lt }

/-- Ten buckets, and a queue that is empty again. -/
theorem reset_restores_iff_run :
    ∃ w, Reach tenBuckets World.Ticks w ∧ w.sent.length = 1 ∧ w.sch.gq.numOfElements = 0 ∧
      ¬ Restored 0 tenBuckets w.clock (gqReset w.sch) ∧
      (Restored 1 tenBuckets w.clock (gqReset w.sch) ↔
        tenBuckets.granularity ∣ tenBuckets.horizonNs ∧ 2 ≤ numBuckets tenBuckets ∧
          numBuckets tenBuckets ≤ 32 ∧ w.sch.gq.numOfElements = 0) := by
  obtain ⟨w, hw, hsent, hcount⟩ := exists_reach tenBuckets World.Ticks
    [.enqueue 0 (packetAt 1 0) [], .dequeue 10]
    (fun w => w.sent.length = 1 ∧ w.sch.gq.numOfElements = 0) (by decide +kernel)
  exact ⟨w, hw, hsent, hcount, reset_restores_iff hw⟩

/-- With the defaults and one packet: the packet is still counted after the reset, and a dequeue a
horizon later takes a packet from a bucket that is not there. -/
theorem reset_leaves_count :
    ∃ w, Reach defaultParams World.Ticks w ∧ ¬ Restored 1 defaultParams w.clock (gqReset w.sch) ∧
      (gqReset w.sch).gq.numOfElements = 1 ∧ gqDequeue (gqReset w.sch) 20000000000 = none := by
  obtain ⟨w, hw, hcount, hnone⟩ := exists_reach defaultParams World.Ticks
    [.enqueue 0 (packetAt 1 0) []]
    (fun w => (gqReset w.sch).gq.numOfElements = 1 ∧
      (gqDequeue (gqReset w.sch) 20000000000).isNone = true) (by decide +kernel)
  refine ⟨w, hw, fun h => ?_, hcount, by simpa using hnone⟩
  have hzero := h.count
  rw [hcount] at hzero
  exact absurd hzero (by decide)

end Eiffel
