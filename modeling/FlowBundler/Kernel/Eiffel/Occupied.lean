import FlowBundler.Kernel.Eiffel.Reset

/-!
The trees of `sch_eiffel.c` in every sequence of `gq_push` and `gq_extract`.

* **What is shown.** `Side.NodesRight`: each node counts the non-empty buckets below it and has a
  bit for each child with such a bucket, told by the numbers of the nodes as the source computes
  them.  `MinIndexRight`: `get_min_index` answers the first non-empty bucket.  `TreesRight`: both.
* **From the trees to the buckets.** `SideOk.nodesRight`: a tree that agrees with its array counts
  the right buckets, once the numbers of the nodes are translated to heights and positions.
  `Sound.minCases`: the search looks at the root of the main tree, then at that of the buffer, and
  descends in the first one that counts a bucket.  An index that is found is not taken for `-1`,
  as the numbers of buckets are far below `2^64`.
* **What the operations keep.** `QueueOk`: both trees agree with their arrays, and the packets are
  counted.  A push that returns has found its bucket, so this needs no bound on the times; an
  extraction returns, since what it takes comes from a non-empty bucket; a rotation exchanges the
  sides.  `reach_queueOk` is the induction over the sequences of operations.
* `reach_treesRight`: so the trees are right in every run of enqueues and dequeues, whether or not
  the granularity divides the horizon.
* `trees_right_iff`: with trees that have room for the buckets this holds in every sequence exactly
  for two to `2^31` buckets.  With fewer the trees have no root (`not_treesRight_of_lt`), with more
  the loop of `gq_init` leaves the last buckets as the memory was (`not_treesRight_of_gt`).
-/

namespace Eiffel

open Gq Occupancy

variable {P : Params} {gq gq' : GradientQueue} {side side' : Side} {m index now : ℕ}

/-! ### What the trees say -/

/-- The buckets of a side that have packets. -/
def Side.occupied (nb : ℕ) (side : Side) : Set ℕ := {i | i < nb ∧ (side.buckets i).packets ≠ []}

lemma Side.mem_occupied {nb i : ℕ} :
    i ∈ side.occupied nb ↔ i < nb ∧ (side.buckets i).packets ≠ [] := Iff.rfl

/-- A non-empty set of buckets has a first one. -/
lemma Side.exists_isLeast {nb : ℕ} (hne : side.occupied nb ≠ ∅) :
    ∃ m, IsLeast (side.occupied nb) m := by
  classical
  obtain ⟨i, hi⟩ := Set.nonempty_iff_ne_empty.mpr hne
  exact ⟨_, Nat.isLeast_find ⟨i, hi⟩⟩

/-- The nodes of a tree count the non-empty buckets below them, and have a bit for each child with
such a bucket; bucket `i` is the leaf `s + i`, and the children of `n` begin at `w * n + 1`. -/
structure Side.NodesRight (gq : GradientQueue) (side : Side) : Prop where
  count : ∀ n < gq.s, (side.tree n).c = ((Finset.range gq.numOfBuckets).filter fun i =>
    (side.buckets i).packets ≠ [] ∧ Above gq.w gq.l n (gq.s + i)).card
  bit : ∀ n < gq.s, ∀ j, (side.tree n).a.testBit j = true ↔ j < gq.w ∧
    ∃ i ∈ side.occupied gq.numOfBuckets, Above gq.w gq.l (gq.w * n + j + 1) (gq.s + i)

/-- `get_min_index` answers the first non-empty bucket of the main array, then of the buffer, and
`-1` when there is none. -/
structure MinIndexRight (gq : GradientQueue) : Prop where
  main : ∀ m, IsLeast (gq.main.occupied gq.numOfBuckets) m → getMinIndex gq = some m
  buffer : gq.main.occupied gq.numOfBuckets = ∅ →
    ∀ m, IsLeast (gq.buffer.occupied gq.numOfBuckets) m → getMinIndex gq = some m
  none : getMinIndex gq = some (2 ^ 64 - 1) ↔
    gq.main.occupied gq.numOfBuckets = ∅ ∧ gq.buffer.occupied gq.numOfBuckets = ∅

structure TreesRight (gq : GradientQueue) : Prop where
  main : gq.main.NodesRight gq
  buffer : gq.buffer.NodesRight gq
  minIndex : MinIndexRight gq
  /-- `gq_extract` stays within the arrays. -/
  extract : ∀ now, gqExtract gq now ≠ none

/-! ### Trees that agree with their arrays -/

/-- The number of packets of a side. -/
def Side.total (nb : ℕ) (side : Side) : ℕ :=
  ∑ i ∈ Finset.range nb, (side.buckets i).packets.length

/-- The number of packets after one bucket has changed. -/
lemma Side.total_update {nb : ℕ} {b : GqBucket} (hi : index < nb)
    (hbuckets : side'.buckets = Function.update side.buckets index b) :
    side'.total nb + (side.buckets index).packets.length = side.total nb + b.packets.length := by
  have hmem := Finset.mem_range.mpr hi
  rw [Side.total, Side.total, hbuckets, ← Finset.add_sum_erase _ _ hmem,
    ← Finset.add_sum_erase (Finset.range nb) (fun i => (side.buckets i).packets.length) hmem,
    Function.update_self, Finset.sum_congr rfl fun j hj =>
      by rw [Function.update_of_ne (Finset.ne_of_mem_erase hj)]]
  omega

namespace SideOk

/-- The buckets of the tree are the non-empty ones. -/
lemma mem_full_iff {l nb i : ℕ} (h : SideOk l nb side) :
    i ∈ full nb side.buckets ↔ i ∈ side.occupied nb := by
  rw [mem_full, Side.mem_occupied]
  refine and_congr_right fun hi => not_congr ?_
  rw [h.counted i hi, List.length_eq_zero_iff]

lemma full_lt (hsized : Sized gq) : ∀ x ∈ full gq.numOfBuckets side.buckets, x < base ^ gq.l :=
  fun _ hx => (mem_full.mp hx).1.trans_le hsized.fits

/-- **The nodes** of a tree that agrees with its array. -/
lemma nodesRight (h : SideOk gq.l gq.numOfBuckets side) (hsized : Sized gq) :
    side.NodesRight gq := by
  constructor
  case count =>
    intro n hn
    rw [hsized.s_eq] at hn ⊢
    rw [hsized.w_eq]
    obtain ⟨k, hk, p, hp, rfl⟩ := exists_level base hn
    rw [(h.tree.nodes k hk p hp).count_above (by decide) (full_lt hsized) hk hp, full,
      Finset.filter_filter]
    refine congrArg Finset.card (Finset.filter_congr fun i hi => and_congr_left fun _ => ?_)
    rw [h.counted i (Finset.mem_range.mp hi), ne_eq, List.length_eq_zero_iff]
  case bit =>
    intro n hn j
    rw [hsized.s_eq] at hn ⊢
    rw [hsized.w_eq]
    obtain ⟨k, hk, p, hp, rfl⟩ := exists_level base hn
    rw [(h.tree.nodes k hk p hp).bit_above (by decide) (full_lt hsized) hk hp]
    exact and_congr_right fun _ => exists_congr fun i => and_congr_left fun _ => h.mem_full_iff

/-- A push that returns has found its bucket, and adds one packet. -/
lemma push_some (h : SideOk gq.l gq.numOfBuckets side) (hsized : Sized gq) {skb : SkBuff}
    (hrun : side.push gq index skb = some side') :
    SideOk gq.l gq.numOfBuckets side' ∧
      side'.total gq.numOfBuckets = side.total gq.numOfBuckets + 1 := by
  have hi : index < gq.numOfBuckets := by
    by_contra hge
    rw [Side.push, if_pos (not_lt.mp hge)] at hrun
    exact absurd hrun (by simp)
  obtain ⟨side₁, hrun₁, hside, hbuckets⟩ := h.push hsized hi skb
  obtain rfl : side₁ = side' := Option.some.inj (hrun₁.symm.trans hrun)
  refine ⟨hside, ?_⟩
  have htotal := Side.total_update hi hbuckets
  rw [bucketQueueAdd, List.length_append, List.length_singleton] at htotal
  omega

/-- Taking a packet from a non-empty bucket. -/
lemma pop_some (h : SideOk gq.l gq.numOfBuckets side) (hsized : Sized gq)
    (hi : index ∈ side.occupied gq.numOfBuckets) :
    ∃ skb side', side.pop gq index = some (some skb, side') ∧ SideOk gq.l gq.numOfBuckets side' ∧
      side'.total gq.numOfBuckets + 1 = side.total gq.numOfBuckets := by
  obtain ⟨skb, rest, hb⟩ := List.exists_cons_of_ne_nil hi.2
  obtain ⟨side', hrun, hside, hbuckets⟩ := h.pop hsized hi.1 hb
  refine ⟨skb, side', hrun, hside, ?_⟩
  have htotal := Side.total_update hi.1 hbuckets
  rw [hb, List.length_cons] at htotal
  dsimp only at htotal
  omega

lemma total_eq_zero (hempty : side.occupied gq.numOfBuckets = ∅) :
    side.total gq.numOfBuckets = 0 := by
  refine Finset.sum_eq_zero fun i hi => List.length_eq_zero_iff.mpr ?_
  by_contra hne
  exact Set.eq_empty_iff_forall_notMem.mp hempty i ⟨Finset.mem_range.mp hi, hne⟩

/-- The root of a tree counts its non-empty buckets. -/
lemma root_eq_zero_iff (h : SideOk gq.l gq.numOfBuckets side) (hsized : Sized gq) :
    (side.tree 0).c = 0 ↔ side.occupied gq.numOfBuckets = ∅ := by
  rw [← not_iff_not, ← ne_eq, h.root_ne_zero hsized, ← ne_eq, ← Set.nonempty_iff_ne_empty]
  rfl

/-- The search in the tree of a side. -/
lemma minIndex_eq (h : SideOk gq.l gq.numOfBuckets side) (hsized : Sized gq)
    (hm : IsLeast (side.occupied gq.numOfBuckets) m) : side.minIndex gq = some m := by
  obtain ⟨⟨hlt, hne⟩, hleast⟩ := hm
  refine h.minIndex hsized hlt hne fun i hi => ?_
  by_contra hpackets
  exact absurd (hleast ⟨hi.trans hlt, hpackets⟩) (not_le.mpr hi)

end SideOk

/-! ### The search -/

/-- An index that is found is not `-1`. -/
lemma Sized.index_ne (hsized : Sized gq) (hm : IsLeast (side.occupied gq.numOfBuckets) m) :
    some m ≠ some (2 ^ 64 - 1) := by
  have hlt := hm.1.1
  have hword := hsized.word
  rw [ne_eq, Option.some.injEq]
  omega

/-- What `get_min_index` finds. -/
inductive MinCases (gq : GradientQueue) : Prop
  | main (m : ℕ) (hleast : IsLeast (gq.main.occupied gq.numOfBuckets) m)
      (hroot : (gq.main.tree 0).c ≠ 0) (hmin : getMinIndex gq = some m)
  | buffer (m : ℕ) (hempty : gq.main.occupied gq.numOfBuckets = ∅)
      (hleast : IsLeast (gq.buffer.occupied gq.numOfBuckets) m)
      (hroot : (gq.main.tree 0).c = 0) (hmin : getMinIndex gq = some m)
  | empty (hmain : gq.main.occupied gq.numOfBuckets = ∅)
      (hbuffer : gq.buffer.occupied gq.numOfBuckets = ∅)
      (hmin : getMinIndex gq = some (2 ^ 64 - 1))

namespace Sound

/-- **The search**, by where the packets are. -/
lemma minCases (h : Sound P gq) (hsized : Sized gq) : MinCases gq := by
  have hs : gq.s ≠ 0 := by
    obtain ⟨l, hl⟩ := Nat.exists_eq_succ_of_ne_zero hsized.l_pos.ne'
    rw [hsized.s_eq, hl]
    exact Nat.succ_ne_zero _
  by_cases hmain : gq.main.occupied gq.numOfBuckets = ∅
  · have hroot := (h.main.root_eq_zero_iff hsized).mpr hmain
    by_cases hbuffer : gq.buffer.occupied gq.numOfBuckets = ∅
    · have hroot' := (h.buffer.root_eq_zero_iff hsized).mpr hbuffer
      refine .empty hmain hbuffer ?_
      rw [getMinIndex, if_neg hs, if_neg (not_not.mpr hroot), if_neg (not_not.mpr hroot')]
    · have hroot' := mt (h.buffer.root_eq_zero_iff hsized).mp hbuffer
      obtain ⟨m, hm⟩ := Side.exists_isLeast hbuffer
      refine .buffer m hmain hm hroot ?_
      rw [getMinIndex, if_neg hs, if_neg (not_not.mpr hroot), if_pos hroot',
        h.buffer.minIndex_eq hsized hm]
  · have hroot := mt (h.main.root_eq_zero_iff hsized).mp hmain
    obtain ⟨m, hm⟩ := Side.exists_isLeast hmain
    refine .main m hm hroot ?_
    rw [getMinIndex, if_neg hs, if_pos hroot, h.main.minIndex_eq hsized hm]

lemma minIndexRight (h : Sound P gq) (hsized : Sized gq) : MinIndexRight gq := by
  cases h.minCases hsized with
  | main m hleast hroot hmin =>
      have hne : gq.main.occupied gq.numOfBuckets ≠ ∅ := (Set.nonempty_of_mem hleast.1).ne_empty
      refine ⟨fun m' hm' => ?_, fun hempty => absurd hempty hne, ?_⟩
      · rw [hmin, hleast.unique hm']
      · rw [hmin]
        exact iff_of_false (hsized.index_ne hleast) fun hboth => hne hboth.1
  | buffer m hempty hleast hroot hmin =>
      have hne : gq.buffer.occupied gq.numOfBuckets ≠ ∅ := (Set.nonempty_of_mem hleast.1).ne_empty
      refine ⟨fun m' hm' => ?_, fun _ m' hm' => ?_, ?_⟩
      · exact absurd hempty (Set.nonempty_of_mem hm'.1).ne_empty
      · rw [hmin, hleast.unique hm']
      · rw [hmin]
        exact iff_of_false (hsized.index_ne hleast) fun hboth => hne hboth.2
  | empty hmain hbuffer hmin =>
      refine ⟨fun m' hm' => ?_, fun _ m' hm' => ?_, iff_of_true hmin ⟨hmain, hbuffer⟩⟩
      · exact absurd hmain (Set.nonempty_of_mem hm'.1).ne_empty
      · exact absurd hbuffer (Set.nonempty_of_mem hm'.1).ne_empty

end Sound

/-! ### What every operation keeps -/

/-- The trees agree with the arrays, and the packets are counted. -/
structure QueueOk (P : Params) (gq : GradientQueue) : Prop where
  sound : Sound P gq
  counted : gq.numOfElements
    = gq.main.total gq.numOfBuckets + gq.buffer.total gq.numOfBuckets

namespace QueueOk

lemma init (hint : numBuckets P ≤ 2 ^ 31) (h : QueueInit P gq) : QueueOk P gq := by
  obtain ⟨now, lastExpires, memory, memory', sch, -, hrun, rfl⟩ := h
  obtain ⟨-, rfl⟩ := gqInit_eq_some_iff.mp hrun
  have hempty : ∀ memory : ℕ → GqBucket,
      (initSide P memory).total (numBuckets P) = 0 := fun memory => by
    refine Finset.sum_eq_zero fun i hi => ?_
    have hlt := Finset.mem_range.mp hi
    rw [initSide]
    dsimp only
    rw [if_pos (by omega)]
    rfl
  refine ⟨⟨⟨rfl, rfl, rfl, rfl, rfl, rfl⟩, initSide_ok hint memory, initSide_ok hint memory'⟩, ?_⟩
  exact (congrArg₂ (· + ·) (hempty memory) (hempty memory')).symm

/-- **A push** that returns. -/
lemma push (h : QueueOk P gq) (hsized : Sized gq) {skb : SkBuff}
    (hstep : queueStep gq (.push skb) = some gq') : QueueOk P gq' := by
  have hshaped := h.sound.shaped.step hstep
  have hcounted := h.counted
  cases queueStep_cases hstep with
  | pushMain _ index ts side hplace hpush =>
      obtain ⟨hside, htotal⟩ := h.sound.main.push_some hsized hpush
      refine ⟨⟨hshaped, hside, h.sound.buffer⟩, ?_⟩
      dsimp only
      omega
  | pushBuffer _ index ts side hplace hpush =>
      obtain ⟨hside, htotal⟩ := h.sound.buffer.push_some hsized hpush
      refine ⟨⟨hshaped, h.sound.main, hside⟩, ?_⟩
      dsimp only
      omega

lemma restart (h : QueueOk P gq) (now : ℕ) : QueueOk P (restart gq now) :=
  ⟨h.sound.restart now, h.counted⟩

/-- **A rotation** exchanges two trees that agree with their arrays. -/
lemma rotate (h : QueueOk P gq) (hstep : queueStep gq (.rotate now) = some gq') :
    QueueOk P gq' := by
  have hshaped := h.sound.shaped.step hstep
  cases queueStep_cases hstep with
  | turn _ hturn =>
      exact ⟨⟨hshaped, h.sound.buffer, h.sound.main⟩, h.counted.trans (Nat.add_comm _ _)⟩
  | stay _ hturn => exact h

/-- **An extraction** returns: what it takes comes from a non-empty bucket. -/
lemma extract (h : QueueOk P gq) (hsized : Sized gq) (now : ℕ) :
    ∃ gq' index skb, gqExtract gq now = some (gq', index, skb) ∧ QueueOk P gq' := by
  obtain ⟨hg, hnb, hw, hl, hs, hh⟩ := h.sound.shaped
  rcases Nat.eq_zero_or_pos gq.numOfElements with hzero | hpos
  · cases h.sound.minCases hsized with
    | main m _ _ hmin =>
        exact ⟨_, _, _, by rw [gqExtract, hmin, Option.bind_some, if_pos hzero], h.restart now⟩
    | buffer m _ _ _ hmin =>
        exact ⟨_, _, _, by rw [gqExtract, hmin, Option.bind_some, if_pos hzero], h.restart now⟩
    | empty _ _ hmin =>
        exact ⟨_, _, _, by rw [gqExtract, hmin, Option.bind_some, if_pos hzero], h.restart now⟩
  · have hcounted := h.counted
    cases h.sound.minCases hsized with
    | main m hleast hroot hmin =>
        rw [gqExtract, hmin, Option.bind_some, if_neg hpos.ne']
        by_cases hlate : minTs gq m > now
        · exact ⟨_, _, _, if_pos hlate, h⟩
        · obtain ⟨skb, side, hpop, hside, htotal⟩ := h.sound.main.pop_some hsized hleast.1
          rw [if_neg hlate, if_pos hroot, hpop]
          refine ⟨_, _, _, rfl, ⟨⟨hg, hnb, hw, hl, hs, hh⟩, hside, h.sound.buffer⟩, ?_⟩
          dsimp only
          omega
    | buffer m _ hleast hroot hmin =>
        rw [gqExtract, hmin, Option.bind_some, if_neg hpos.ne']
        by_cases hlate : minTs gq m > now
        · exact ⟨_, _, _, if_pos hlate, h⟩
        · obtain ⟨skb, side, hpop, hside, htotal⟩ := h.sound.buffer.pop_some hsized hleast.1
          rw [if_neg hlate, if_neg (not_not.mpr hroot), hpop]
          refine ⟨_, _, _, rfl, ⟨⟨hg, hnb, hw, hl, hs, hh⟩, h.sound.main, hside⟩, ?_⟩
          dsimp only
          omega
    | empty hmain hbuffer _ =>
        rw [SideOk.total_eq_zero hmain, SideOk.total_eq_zero hbuffer] at hcounted
        exact absurd hcounted hpos.ne'

/-- One operation. -/
lemma step (h : QueueOk P gq) (hsized : Sized gq) {op : QueueOp}
    (hstep : queueStep gq op = some gq') : QueueOk P gq' := by
  cases op with
  | push skb => exact h.push hsized hstep
  | extract now =>
      obtain ⟨⟨gq₁, index, skb⟩, hrun, rfl⟩ := Option.map_eq_some_iff.mp hstep
      obtain ⟨gq₂, index₂, skb₂, hrun₂, hok⟩ := h.extract hsized now
      obtain ⟨rfl, -⟩ := Prod.mk.inj (Option.some.inj (hrun₂.symm.trans hrun))
      exact hok
  | rotate now => exact h.rotate hstep
  | restart now =>
      rw [← Option.some.inj hstep]
      exact h.restart now

lemma treesRight (h : QueueOk P gq) (hsized : Sized gq) : TreesRight gq := by
  refine ⟨h.sound.main.nodesRight hsized, h.sound.buffer.nodesRight hsized,
    h.sound.minIndexRight hsized, fun now hnone => ?_⟩
  obtain ⟨gq', index, skb, hrun, -⟩ := h.extract hsized now
  rw [hnone] at hrun
  exact absurd hrun (by simp)

end QueueOk

/-- **In every sequence** of operations, if the trees have room for the buckets and these are
initialised. -/
lemma reach_queueOk (htwo : 2 ≤ numBuckets P) (hint : numBuckets P ≤ 2 ^ 31)
    (hfits : numBuckets P ≤ base ^ levels P) (h : QueueReach P gq) : QueueOk P gq :=
  h.invariant (fun _ hinit => .init hint hinit) fun _ _ _ _ ih _ hstep =>
    ih.step (ih.sound.shaped.sized_of_fits htwo hfits) hstep

/-- **In every run** of enqueues and dequeues, whether or not the granularity divides the
horizon. -/
theorem reach_treesRight {w : World} (htwo : 2 ≤ numBuckets P) (hint : numBuckets P ≤ 2 ^ 31)
    (hfits : numBuckets P ≤ base ^ levels P) (hw : Reach P World.Admits w) :
    TreesRight w.sch.gq := by
  have hok := reach_queueOk htwo hint hfits (World.reach_queueReach hw)
  exact hok.treesRight (hok.sound.shaped.sized_of_fits htwo hfits)

/-- A queue after `gq_init`. -/
lemma queueInit (hg : 0 < P.granularity) (memory memory' : ℕ → GqBucket) :
    QueueInit P (initQdisc P 0 0 memory memory').gq :=
  ⟨0, 0, memory, memory', _, by norm_num, gqInit_eq_some_iff.mpr ⟨hg, rfl⟩, rfl⟩

/-- At most one bucket: the trees have no root, and `get_min_index` reads it. -/
lemma not_treesRight_of_lt (hlt : numBuckets P < 2) (memory memory' : ℕ → GqBucket) :
    ¬ TreesRight (initQdisc P 0 0 memory memory').gq := by
  intro hright
  have hs : (initQdisc P 0 0 memory memory').gq.s = 0 := by
    rw [initQdisc]
    dsimp only
    rw [nodes_eq, levels_eq_zero hlt]
    rfl
  refine hright.extract 0 ?_
  rw [gqExtract, getMinIndex, if_pos hs]
  rfl

/-- Allocated memory that happens to look like one packet in each bucket. -/
def staleMemory : ℕ → GqBucket := fun _ => { packets := [packetAt 1 0], qlen := 1 }

/-- More than `2^31` buckets: the loop of `gq_init` does not come to the last ones, and the trees
know nothing of what they held. -/
lemma not_treesRight_of_gt (hgt : 2 ^ 31 < numBuckets P) (hl : 0 < levels P)
    (memory' : ℕ → GqBucket) : ¬ TreesRight (initQdisc P 0 0 staleMemory memory').gq := by
  intro hright
  set gq := (initQdisc P 0 0 staleMemory memory').gq with hgq
  have hmem : 2 ^ 31 ∈ gq.main.occupied gq.numOfBuckets := by
    refine ⟨hgt, ?_⟩
    rw [hgq, initQdisc, initSide]
    dsimp only
    rw [if_neg (by omega), staleMemory]
    simp
  obtain ⟨m, hm⟩ := Side.exists_isLeast (Set.nonempty_of_mem hmem).ne_empty
  have hs : gq.s ≠ 0 := by
    obtain ⟨l, hl'⟩ := Nat.exists_eq_succ_of_ne_zero hl.ne'
    rw [hgq, initQdisc]
    dsimp only
    rw [nodes_eq, hl']
    exact Nat.succ_ne_zero _
  have hminus : getMinIndex gq = some (2 ^ 64 - 1) := by
    rw [getMinIndex, if_neg hs]
    rfl
  rw [(hright.minIndex.none.mp hminus).1] at hmem
  exact hmem

/-- **The occupancy trees**: with room for the buckets, they are right in every sequence of
operations exactly for two to `2^31` buckets. -/
theorem trees_right_iff (hg : 0 < P.granularity) (hfits : numBuckets P ≤ base ^ levels P) :
    (∀ gq, QueueReach P gq → TreesRight gq) ↔ 2 ≤ numBuckets P ∧ numBuckets P ≤ 2 ^ 31 := by
  constructor
  · intro hall
    by_contra hcon
    rcases Nat.lt_or_ge (numBuckets P) 2 with hlt | htwo
    · exact not_treesRight_of_lt hlt (fun _ => .empty) (fun _ => .empty)
        (hall _ (.start (queueInit hg _ _)))
    · exact not_treesRight_of_gt (not_le.mp fun hle => hcon ⟨htwo, hle⟩)
        (levels_pos htwo hfits) (fun _ => .empty) (hall _ (.start (queueInit hg _ _)))
  · rintro ⟨htwo, hint⟩ gq hgq
    have hok := reach_queueOk htwo hint hfits hgq
    exact hok.treesRight (hok.sound.shaped.sized_of_fits htwo hfits)

/-- The defaults, with two packets in the main array and one in the buffer. -/
theorem trees_right_iff_run :
    ∃ gq, QueueReach defaultParams gq ∧ getMinIndex gq = some 1 ∧ gq.numOfElements = 3 ∧
      TreesRight gq := by
  have hinit := queueInit (P := defaultParams) (by decide) (fun _ => .empty) fun _ => .empty
  obtain ⟨gq, hgq, hmin, hnum⟩ : ∃ gq, QueueReach defaultParams gq ∧
      getMinIndex gq = some 1 ∧ gq.numOfElements = 3 :=
    Machine.exists_reach hinit
      [QueueOp.push (packetAt 1 2500), .push (packetAt 2 1200), .push (packetAt 3 15000000000)]
      (fun gq => getMinIndex gq = some 1 ∧ gq.numOfElements = 3) (by decide +kernel)
  exact ⟨gq, hgq, hmin, hnum,
    (trees_right_iff (by decide) (by decide +kernel)).mpr ⟨by decide, by decide⟩ gq hgq⟩

/-- One bucket of one second: the first `gq_extract` reads a root that is not there. -/
theorem trees_wrong :
    ¬ ∀ (P : Params) (gq : GradientQueue), 0 < P.granularity →
      numBuckets P ≤ base ^ levels P → QueueReach P gq → TreesRight gq := fun hall =>
  not_treesRight_of_lt (P := oneBucket) (by decide) (fun _ => .empty) (fun _ => .empty)
    (hall oneBucket _ (by decide) (by decide) (.start (queueInit (by decide) _ _)))

end Eiffel
