import FlowBundler.Kernel.Eiffel.Sched
import FlowBundler.Lib.Occupancy

/-!
The trees of `sch_eiffel.c` say which buckets have packets.

* `TreeOk w l F tree`: the nodes are right for the set `F` of buckets, and the links of `gq_init`
  are in place.  A node is named by its height and its position there, as in the library; the
  positions of the ancestors of bucket `i` are the quotients of `i` by powers of `w`.
* `climb_spec`: the loop over the ancestors of a bucket changes exactly these, by induction on the
  levels: after `k` rounds the nodes below height `k` are right for the new set, the others still
  for the old one (`upTo`).  It is stated for any visit that makes an ancestor right.
* `markLoop_spec`, `clearLoop_spec`: a bucket more, a bucket less.  The flag that the loops carry
  along tells whether the child below an ancestor had a bucket already, or has another one, and
  thus whether its bit changes; the count of an ancestor always does.
* `descend_spec`: the descent of `get_min_index` finds the least bucket: the lowest bit of a node
  is the child with the least member, by induction on the height.
* `SideOk`: an array and its tree agree; `SideOk.push`, `SideOk.pop`, `SideOk.minIndex`: the
  operations on a side.  The loops run only when a bucket gets its first packet or loses its last.
-/

namespace Eiffel

open Gq Occupancy

variable {w l i : ℕ} {F : Finset ℕ} {tree : ℕ → CurvatureDesc}

/-- The links that `gq_init` sets up. -/
def Linked (w s : ℕ) (tree : ℕ → CurvatureDesc) : Prop :=
  ∀ n, 0 < n → n < s → (tree n).abcI = (n - 1) / w ∧ (tree n).wwI = (n - 1) % w

/-- The nodes of the tree satisfy `ok`, by height and position. -/
def Nodes (w l : ℕ) (ok : ℕ → ℕ → CurvatureDesc → Prop) (tree : ℕ → CurvatureDesc) : Prop :=
  ∀ k < l, ∀ p < w ^ (l - (k + 1)), ok k p (tree (start w (l - (k + 1)) + p))

/-- The word and the count of a node are right. -/
def DescOk (w : ℕ) (F : Finset ℕ) (k p : ℕ) (node : CurvatureDesc) : Prop :=
  NodeOk w F k p node.a node.c

structure TreeOk (w l : ℕ) (F : Finset ℕ) (tree : ℕ → CurvatureDesc) : Prop where
  nodes : Nodes w l (DescOk w F) tree
  linked : Linked w (start w l) tree

/-! ### Climbing -/

section Climb

variable {old new : ℕ → ℕ → CurvatureDesc → Prop}

/-- The nodes below height `k + 1` are new, the others old. -/
def upTo (k : ℕ) (new old : ℕ → ℕ → CurvatureDesc → Prop) (h : ℕ) : ℕ → CurvatureDesc → Prop :=
  if h < k then new h else old h

lemma upTo_of_lt {k h : ℕ} (hlt : h < k) : upTo k new old h = new h := if_pos hlt

lemma upTo_of_le {k h : ℕ} (hle : k ≤ h) : upTo k new old h = old h := if_neg (not_lt.mpr hle)

lemma nodes_upTo_zero (h : Nodes w l old tree) : Nodes w l (upTo 0 new old) tree := by
  intro k hk p hp
  rw [upTo_of_le (Nat.zero_le k)]
  exact h k hk p hp

/-- **The loop over the ancestors** of bucket `i`: when a visit makes an ancestor right and leaves
the others so, and `done` says what it should, all nodes are right in the end. -/
lemma climb_spec (visit : Bool → ℕ → CurvatureDesc → CurvatureDesc) (stop : CurvatureDesc → Bool)
    (old new : ℕ → ℕ → CurvatureDesc → Prop) (busy : ℕ → Prop) (hw : 0 < w) (hi : i < w ^ l)
    (hvisit : ∀ k < l, ∀ done node, (done = true ↔ busy k) → old k (i / w ^ (k + 1)) node →
      new k (i / w ^ (k + 1)) (visit done (i / w ^ k % w) node) ∧
        ((done || stop (visit done (i / w ^ k % w) node)) = true ↔ busy (k + 1)))
    (hother : ∀ k p node, i / w ^ (k + 1) ≠ p → old k p node → new k p node)
    (hlink : ∀ done wI node, (visit done wI node).abcI = node.abcI ∧
      (visit done wI node).wwI = node.wwI) :
    ∀ n k parentI wI done tree, k + n = l →
      (0 < n → parentI = ancestor w l (k + 1) i ∧ wI = i / w ^ k % w) → (done = true ↔ busy k) →
      Linked w (start w l) tree → Nodes w l (upTo k new old) tree →
      ∃ tree', climb (start w l) visit stop n parentI wI done tree = some tree' ∧
        Linked w (start w l) tree' ∧ Nodes w l new tree' := by
  intro n
  induction n with
  | zero =>
      intro k parentI wI done tree hk _ _ hlinked hnodes
      refine ⟨tree, rfl, hlinked, fun h hh p hp => ?_⟩
      have hnode := hnodes h hh p hp
      rwa [upTo_of_lt (by omega)] at hnode
  | succ n ih =>
      intro k parentI wI done tree hk hargs hdone hlinked hnodes
      obtain ⟨rfl, rfl⟩ := hargs (Nat.succ_pos n)
      have hkl : k < l := by omega
      have hlt := ancestor_lt hw hi hkl
      have hpos := div_lt_pow hi hkl
      have hold : old k (i / w ^ (k + 1)) (tree (ancestor w l (k + 1) i)) := by
        have hnode := hnodes k hkl _ hpos
        rwa [upTo_of_le le_rfl] at hnode
      obtain ⟨hnew, hdone'⟩ := hvisit k hkl done _ hdone hold
      set node := visit done (i / w ^ k % w) (tree (ancestor w l (k + 1) i)) with hnode
      obtain ⟨habc, hww⟩ := hlink done (i / w ^ k % w) (tree (ancestor w l (k + 1) i))
      rw [climb, if_neg (by omega)]
      refine ih (k + 1) _ _ _ _ (by omega) (fun hn => ?_) hdone' (fun m hm hms => ?_)
        fun h hh p hp => ?_
      · -- the link leads to the next ancestor
        have hk1 : k + 1 < l := by omega
        obtain ⟨hpar, hmod⟩ := ancestor_parent hw hk1 i
        obtain ⟨hl1, hl2⟩ := hlinked _ (ancestor_pos hk1 i) hlt
        exact ⟨habc.trans (hl1.trans hpar), hww.trans (hl2.trans hmod)⟩
      · by_cases hm' : m = ancestor w l (k + 1) i
        · rw [hm', Function.update_self]
          obtain ⟨hl1, hl2⟩ := hlinked _ (hm' ▸ hm) hlt
          exact ⟨habc.trans hl1, hww.trans hl2⟩
        · rw [Function.update_of_ne hm']
          exact hlinked m hm hms
      · by_cases heq : start w (l - (h + 1)) + p = ancestor w l (k + 1) i
        · obtain ⟨hlevel, rfl⟩ := level_unique hw hp hpos heq
          obtain rfl : h = k := by omega
          rw [upTo_of_lt (Nat.lt_succ_self h), heq, Function.update_self]
          exact hnew
        · rw [Function.update_of_ne heq]
          have hbefore := hnodes h hh p hp
          rcases lt_trichotomy h k with hhk | rfl | hhk
          · rw [upTo_of_lt hhk] at hbefore
            rw [upTo_of_lt (by omega)]
            exact hbefore
          · rw [upTo_of_le le_rfl] at hbefore
            rw [upTo_of_lt (Nat.lt_succ_self h)]
            refine hother h p _ (fun hp' => heq ?_) hbefore
            rw [ancestor, hp']
          · rw [upTo_of_le hhk.le] at hbefore
            rw [upTo_of_le hhk]
            exact hbefore

end Climb

/-- A member below a child is below its parent. -/
lemma div_succ_eq {k x : ℕ} (h : x / w ^ k = i / w ^ k) : x / w ^ (k + 1) = i / w ^ (k + 1) := by
  rw [← div_div, ← div_div, h]

/-- A round of `gq_push` makes an ancestor right for a bucket more; `done` says whether the child
below it had a bucket already. -/
lemma mark_ok {k : ℕ} {done : Bool} {node : CurvatureDesc} (hw : 0 < w) (hnot : i ∉ F)
    (hcard : F.card + 1 < 2 ^ 64) (hdone : done = true ↔ ∃ x ∈ F, x / w ^ k = i / w ^ k)
    (hnode : DescOk w F k (i / w ^ (k + 1)) node) :
    DescOk w (insert i F) k (i / w ^ (k + 1)) (mark done (i / w ^ k % w) node) ∧
      ((done || decide ((mark done (i / w ^ k % w) node).c > 1)) = true ↔
        ∃ x ∈ F, x / w ^ (k + 1) = i / w ^ (k + 1)) := by
  have hle : node.c ≤ F.card := hnode.count.trans_le (Finset.card_filter_le _ _)
  have hmod : (node.c + 1) % 2 ^ 64 = node.c + 1 := Nat.mod_eq_of_lt (by omega)
  refine ⟨?_, ?_⟩
  · rw [DescOk, mark, hmod]
    exact hnode.insert_self hw hnot hdone
  · rw [mark, hmod]
    simp only [Bool.or_eq_true, decide_eq_true_eq]
    constructor
    · rintro (hd | hc)
      · obtain ⟨x, hx, hq⟩ := hdone.mp hd
        exact ⟨x, hx, div_succ_eq hq⟩
      · exact hnode.count_pos.mp (by omega)
    · intro hx
      have hpos := hnode.count_pos.mpr hx
      exact .inr (by omega)

/-- **A bucket more**: the loop of `gq_push`. -/
lemma markLoop_spec (hw : 0 < w) (hi : i < w ^ l) (h : TreeOk w l F tree) (hnot : i ∉ F)
    (hcard : F.card + 1 < 2 ^ 64) (hl : 0 < l) :
    ∃ tree', markLoop (start w l) l ((start w l + i - 1) / w) ((start w l + i - 1) % w) false tree
        = some tree' ∧ TreeOk w l (insert i F) tree' := by
  have hleaf := ancestor_parent hw hl i
  rw [ancestor_zero] at hleaf
  obtain ⟨tree', hrun, hlinked, hnodes⟩ := climb_spec mark (fun node => decide (node.c > 1))
    (DescOk w F) (DescOk w (insert i F)) (fun k => ∃ x ∈ F, x / w ^ k = i / w ^ k) hw hi
    (fun k _ done node hdone hnode => mark_ok hw hnot hcard hdone hnode)
    (fun k p node hp hnode => hnode.insert_of_ne hw hp) (fun _ _ _ => ⟨rfl, rfl⟩)
    l 0 _ _ false tree (Nat.zero_add l) (fun _ => hleaf) (by simp [hnot]) h.linked
    (nodes_upTo_zero h.nodes)
  exact ⟨tree', hrun, hnodes, hlinked⟩

/-- A round of `gq_extract` makes an ancestor right for a bucket less; `done` says whether the
child below it has another bucket. -/
lemma clear_ok {k : ℕ} {done : Bool} {node : CurvatureDesc} (hw : 0 < w) (hw64 : w ≤ 64)
    (hmem : i ∈ F) (hcard : F.card < 2 ^ 64)
    (hdone : done = true ↔ ∃ x ∈ F.erase i, x / w ^ k = i / w ^ k)
    (hnode : DescOk w F k (i / w ^ (k + 1)) node) :
    DescOk w (F.erase i) k (i / w ^ (k + 1)) (clear done (i / w ^ k % w) node) ∧
      ((done || decide ((clear done (i / w ^ k % w) node).c > 0)) = true ↔
        ∃ x ∈ F.erase i, x / w ^ (k + 1) = i / w ^ (k + 1)) := by
  have hle : node.c ≤ F.card := hnode.count.trans_le (Finset.card_filter_le _ _)
  obtain ⟨hnew, hpos⟩ := hnode.erase_self hw hw64 hmem hdone
  have hmod : (node.c + 2 ^ 64 - 1) % 2 ^ 64 = node.c - 1 := by omega
  refine ⟨?_, ?_⟩
  · rw [DescOk, clear, hmod]
    exact hnew
  · rw [clear, hmod]
    simp only [Bool.or_eq_true, decide_eq_true_eq]
    constructor
    · rintro (hd | hc)
      · obtain ⟨x, hx, hq⟩ := hdone.mp hd
        exact ⟨x, hx, div_succ_eq hq⟩
      · exact hnew.count_pos.mp hc
    · exact fun hx => .inr (hnew.count_pos.mpr hx)

/-- **A bucket less**: the loop of `gq_extract`. -/
lemma clearLoop_spec (hw : 0 < w) (hw64 : w ≤ 64) (hi : i < w ^ l) (h : TreeOk w l F tree)
    (hmem : i ∈ F) (hcard : F.card < 2 ^ 64) (hl : 0 < l) :
    ∃ tree', clearLoop (start w l) l ((start w l + i - 1) / w) ((start w l + i - 1) % w) false tree
        = some tree' ∧ TreeOk w l (F.erase i) tree' := by
  have hleaf := ancestor_parent hw hl i
  rw [ancestor_zero] at hleaf
  obtain ⟨tree', hrun, hlinked, hnodes⟩ := climb_spec clear (fun node => decide (node.c > 0))
    (DescOk w F) (DescOk w (F.erase i)) (fun k => ∃ x ∈ F.erase i, x / w ^ k = i / w ^ k) hw hi
    (fun k _ done node hdone hnode => clear_ok hw hw64 hmem hcard hdone hnode)
    (fun k p node hp hnode => hnode.erase_of_ne hw hp) (fun _ _ _ => ⟨rfl, rfl⟩)
    l 0 _ _ false tree (Nat.zero_add l) (fun _ => hleaf) (by simp) h.linked
    (nodes_upTo_zero h.nodes)
  exact ⟨tree', hrun, hnodes, hlinked⟩

/-! ### Descending -/

/-- The node above a leaf. -/
lemma TreeOk.at_ancestor (h : TreeOk w l F tree) (hi : i < w ^ l) {k : ℕ} (hk : k < l) :
    DescOk w F k (i / w ^ (k + 1)) (tree (ancestor w l (k + 1) i)) :=
  h.nodes k hk _ (div_lt_pow hi hk)

/-- The root counts all members. -/
lemma TreeOk.root_pos (h : TreeOk w l F tree) (hl : 0 < l) (hF : ∀ x ∈ F, x < w ^ l) :
    (tree 0).c ≠ 0 ↔ F.Nonempty := by
  have hroot := h.nodes (l - 1) (by omega) 0 (by rw [show l - (l - 1 + 1) = 0 by omega]; simp)
  rw [show l - (l - 1 + 1) = 0 by omega, show start w 0 + 0 = 0 from rfl] at hroot
  rw [← Nat.pos_iff_ne_zero, hroot.count_pos]
  constructor
  · rintro ⟨x, hx, -⟩
    exact ⟨x, hx⟩
  · rintro ⟨x, hx⟩
    refine ⟨x, hx, ?_⟩
    rw [show l - 1 + 1 = l by omega]
    exact Nat.div_eq_of_lt (hF x hx)

/-- **The descent** follows the path to the least member. -/
lemma descend_spec (gq : GradientQueue) (hw : 0 < gq.w) (hw64 : gq.w ≤ 64)
    (hs : gq.s = start gq.w gq.l) (h : TreeOk gq.w gq.l F tree) {m : ℕ} (hm : m ∈ F)
    (hlt : m < gq.w ^ gq.l) (hleast : ∀ x ∈ F, m ≤ x) :
    ∀ n ≤ gq.l, descend gq tree n (ancestor gq.w gq.l n m) = some (start gq.w gq.l + m) := by
  intro n
  induction n with
  | zero =>
      intro _
      rw [descend, ancestor_zero]
  | succ n ih =>
      intro hn
      have hin : ¬ ancestor gq.w gq.l (n + 1) m ≥ gq.s := by
        rw [hs]
        exact not_le.mpr (ancestor_lt hw hlt hn)
      have hbit := (h.at_ancestor hlt hn).lowBit_eq hw hw64 hm hleast rfl
      rw [descend, if_neg hin, ancestor_child hn hbit]
      exact ih (by omega)

/-! ### An array and its tree -/

/-- The buckets with packets. -/
def full (nb : ℕ) (buckets : ℕ → GqBucket) : Finset ℕ :=
  (Finset.range nb).filter fun i => (buckets i).qlen ≠ 0

section Full

variable {nb : ℕ} {buckets : ℕ → GqBucket} {b : GqBucket}

lemma mem_full : i ∈ full nb buckets ↔ i < nb ∧ (buckets i).qlen ≠ 0 := by
  rw [full, Finset.mem_filter, Finset.mem_range]

lemma full_card_le (nb : ℕ) (buckets : ℕ → GqBucket) : (full nb buckets).card ≤ nb :=
  (Finset.card_filter_le _ _).trans_eq (Finset.card_range nb)

/-- A bucket that has packets now. -/
lemma full_update_pos (hi : i < nb) (hb : b.qlen ≠ 0) :
    full nb (Function.update buckets i b) = insert i (full nb buckets) := by
  ext j
  rw [Finset.mem_insert, mem_full, mem_full]
  by_cases hj : j = i
  · simp [hj, hi, hb]
  · rw [Function.update_of_ne hj]
    simp [hj]

/-- A bucket that has no packets now. -/
lemma full_update_zero (hb : b.qlen = 0) :
    full nb (Function.update buckets i b) = (full nb buckets).erase i := by
  ext j
  rw [Finset.mem_erase, mem_full, mem_full]
  by_cases hj : j = i
  · simp [hj, hb]
  · rw [Function.update_of_ne hj]
    simp [hj]

end Full

/-- The tree of a queue has room for its buckets, and the numbers of nodes and buckets are far
below `2^64`. -/
structure Sized (gq : GradientQueue) : Prop where
  w_eq : gq.w = base
  s_eq : gq.s = start base gq.l
  l_pos : 0 < gq.l
  fits : gq.numOfBuckets ≤ base ^ gq.l
  word : gq.s + gq.numOfBuckets < 2 ^ 63

/-- An array and its tree agree, and the counters of the buckets are right. -/
structure SideOk (l nb : ℕ) (side : Side) : Prop where
  tree : TreeOk base l (full nb side.buckets) side.tree
  counted : ∀ i < nb, (side.buckets i).Counted

namespace SideOk

variable {gq : GradientQueue} {side : Side} {skb : SkBuff} {index m : ℕ}

/-- The number of a leaf. -/
lemma leaf_eq (hsized : Sized gq) (hi : index < gq.numOfBuckets) :
    (gq.s + index + 2 ^ 64 - 1) % 2 ^ 64 = start base gq.l + index - 1 := by
  have hword := hsized.word
  have hpos := @ancestor_pos base gq.l 0 hsized.l_pos index
  rw [ancestor_zero, ← hsized.s_eq] at hpos
  rw [← hsized.s_eq]
  omega

/-- The counters of the buckets after one of them changed. -/
lemma counted_update {b : GqBucket} (h : SideOk gq.l gq.numOfBuckets side) (hb : b.Counted) :
    ∀ j < gq.numOfBuckets, (Function.update side.buckets index b j).Counted := by
  intro j hj
  by_cases hij : j = index
  · rw [hij, Function.update_self]
    exact hb
  · rw [Function.update_of_ne hij]
    exact h.counted j hj

/-- An empty array under a tree with nothing but links. -/
lemma blank {l nb : ℕ} (hbuckets : ∀ i < nb, side.buckets i = .empty)
    (hnodes : ∀ n, n < start base l → (side.tree n).a = 0 ∧ (side.tree n).c = 0)
    (hlinked : Linked base (start base l) side.tree) : SideOk l nb side := by
  have hfull : full nb side.buckets = ∅ := by
    rw [Finset.eq_empty_iff_forall_notMem]
    intro i hi
    obtain ⟨hlt, hq⟩ := mem_full.mp hi
    rw [hbuckets i hlt] at hq
    exact hq rfl
  refine ⟨⟨fun k hk p hp => ?_, hlinked⟩, fun i hi => ?_⟩
  · have hin : start base (l - (k + 1)) + p < start base l := by
      have hend := start_add_pow base (l - (k + 1))
      have hmono := start_mono (show 0 < base by decide) (show l - (k + 1) + 1 ≤ l by omega)
      omega
    obtain ⟨ha, hc⟩ := hnodes _ hin
    rw [hfull, DescOk, ha, hc]
    exact NodeOk.empty base k p
  · rw [hbuckets i hi]
    rfl

/-- **Adding a packet** to a bucket. -/
lemma push (h : SideOk gq.l gq.numOfBuckets side) (hsized : Sized gq)
    (hi : index < gq.numOfBuckets) (skb : SkBuff) :
    ∃ side', side.push gq index skb = some side' ∧ SideOk gq.l gq.numOfBuckets side' ∧
      side'.buckets = Function.update side.buckets index
        (bucketQueueAdd (side.buckets index) skb) := by
  have hcounted := @counted_update _ _ index _ h ((h.counted index hi).add skb)
  have hfull : full gq.numOfBuckets (Function.update side.buckets index
      (bucketQueueAdd (side.buckets index) skb))
      = insert index (full gq.numOfBuckets side.buckets) :=
    full_update_pos hi (Nat.succ_ne_zero _)
  rw [Side.push, if_neg (not_le.mpr hi)]
  dsimp only
  by_cases hq : (side.buckets index).qlen = 0
  · have hword := hsized.word
    have hcard := full_card_le gq.numOfBuckets side.buckets
    obtain ⟨tree', hrun, htree⟩ := markLoop_spec (by decide) (hi.trans_le hsized.fits) h.tree
      (by rw [mem_full]; simp [hq]) (by omega) hsized.l_pos
    rw [if_pos hq, leaf_eq hsized hi, hsized.w_eq, hsized.s_eq, hrun]
    exact ⟨_, rfl, ⟨hfull ▸ htree, hcounted⟩, rfl⟩
  · have hmem : index ∈ full gq.numOfBuckets side.buckets := mem_full.mpr ⟨hi, hq⟩
    rw [if_neg hq]
    refine ⟨_, rfl, ⟨?_, hcounted⟩, rfl⟩
    rw [hfull, Finset.insert_eq_of_mem hmem]
    exact h.tree

/-- **Taking the first packet** of a bucket. -/
lemma pop (h : SideOk gq.l gq.numOfBuckets side) (hsized : Sized gq)
    (hi : index < gq.numOfBuckets) {rest : List SkBuff}
    (hb : (side.buckets index).packets = skb :: rest) :
    ∃ side', side.pop gq index = some (some skb, side') ∧ SideOk gq.l gq.numOfBuckets side' ∧
      side'.buckets = Function.update side.buckets index
        { packets := rest, qlen := (side.buckets index).qlen - 1 } := by
  have hcounted := @counted_update _ _ index _ h ((h.counted index hi).tail hb)
  have hmem : index ∈ full gq.numOfBuckets side.buckets := by
    rw [mem_full, h.counted index hi, hb]
    exact ⟨hi, Nat.succ_ne_zero _⟩
  rw [Side.pop, if_neg (not_le.mpr hi), gqBucketDequeueHead, hb]
  dsimp only
  by_cases hq : (side.buckets index).qlen - 1 = 0
  · have hword := hsized.word
    have hcard := full_card_le gq.numOfBuckets side.buckets
    obtain ⟨tree', hrun, htree⟩ := clearLoop_spec (by decide) (by decide) (hi.trans_le hsized.fits)
      h.tree hmem (by omega) hsized.l_pos
    rw [if_pos hq, leaf_eq hsized hi, hsized.w_eq, hsized.s_eq, hrun]
    refine ⟨_, rfl, ⟨?_, hcounted⟩, rfl⟩
    rw [full_update_zero hq]
    exact htree
  · rw [if_neg hq]
    refine ⟨_, rfl, ⟨?_, hcounted⟩, rfl⟩
    rw [full_update_pos hi hq, Finset.insert_eq_of_mem hmem]
    exact h.tree

/-- The root counts the buckets with packets. -/
lemma root_ne_zero (h : SideOk gq.l gq.numOfBuckets side) (hsized : Sized gq) :
    (side.tree 0).c ≠ 0 ↔ ∃ i < gq.numOfBuckets, (side.buckets i).packets ≠ [] := by
  rw [h.tree.root_pos hsized.l_pos fun x hx => (mem_full.mp hx).1.trans_le hsized.fits]
  constructor
  · rintro ⟨i, hi⟩
    obtain ⟨hlt, hq⟩ := mem_full.mp hi
    refine ⟨i, hlt, fun hnil => hq ?_⟩
    rw [h.counted i hlt, hnil]
    rfl
  · rintro ⟨i, hlt, hne⟩
    refine ⟨i, mem_full.mpr ⟨hlt, ?_⟩⟩
    rw [h.counted i hlt]
    exact List.length_pos_iff.mpr hne |>.ne'

/-- **The search** finds the first bucket with packets. -/
lemma minIndex (h : SideOk gq.l gq.numOfBuckets side) (hsized : Sized gq) (hm : m < gq.numOfBuckets)
    (hne : (side.buckets m).packets ≠ [])
    (hleast : ∀ i < m, (side.buckets i).packets = []) : side.minIndex gq = some m := by
  obtain ⟨l, hl⟩ : ∃ l, gq.l = l + 1 := ⟨gq.l - 1, by have := hsized.l_pos; omega⟩
  have hlt : m < base ^ gq.l := hm.trans_le hsized.fits
  have hmem : m ∈ full gq.numOfBuckets side.buckets := by
    rw [mem_full, h.counted m hm]
    exact ⟨hm, (List.length_pos_iff.mpr hne).ne'⟩
  have hmin : ∀ x ∈ full gq.numOfBuckets side.buckets, m ≤ x := by
    intro x hx
    obtain ⟨hxlt, hxq⟩ := mem_full.mp hx
    by_contra hcon
    refine hxq ?_
    rw [h.counted x hxlt, hleast x (not_le.mp hcon)]
    rfl
  have hself : ancestor base gq.l (l + 1) m = 0 := hl ▸ ancestor_self hlt
  have hroot := h.tree.at_ancestor hlt (show l < gq.l by omega)
  rw [hself] at hroot
  have hbit := hroot.lowBit_eq (by decide) (by decide) hmem hmin rfl
  have hchild := ancestor_child (show l < gq.l by omega) hbit
  rw [hself, Nat.mul_zero, Nat.zero_add] at hchild
  have ha : (side.tree 0).a ≠ 0 := by
    intro hzero
    have hset := (hroot.bit (m / base ^ l % base)).mpr
      ⟨Nat.mod_lt _ (by decide), m, hmem, (child_eq base m l).symm⟩
    rw [hzero, Nat.zero_testBit] at hset
    exact absurd hset (by simp)
  have hdesc := descend_spec gq (by rw [hsized.w_eq]; decide) (by rw [hsized.w_eq]; decide)
    (by rw [hsized.w_eq]; exact hsized.s_eq) (by rw [hsized.w_eq]; exact h.tree) hmem
    (by rw [hsized.w_eq]; exact hlt) hmin l (by omega)
  rw [hsized.w_eq] at hdesc
  have hword := hsized.word
  rw [Side.minIndex, if_neg ha, hchild, show gq.l - 1 = l by omega, hdesc, ← hsized.s_eq]
  simp only [Option.map_some, Option.some.injEq]
  omega

end SideOk

end Eiffel
