import FlowBundler.Kernel.Eiffel.Tree
import FlowBundler.Kernel.Eiffel.Priority

/-!
The arrays and trees of `sch_eiffel.c` refine the priority queue.

* `Fit P`: the trees have room for the buckets, and the granularity divides the horizon;
  `Shaped P gq`: the fields that no callback changes; `Shaped.sized`: then numbers are in range.
  The numbers of levels and nodes are small, as `log_approx` answers less than `32`.
* `cells`: the buckets of both arrays in the order of their times; `GradientQueue.sideAt`,
  `GradientQueue.put`: the side of a cell.  Cell `j` starts `j` granules after the main array, so
  that a key and a cell determine each other (`stock`).
* `Holds P gq q`: the cells have the packets of `q`, and both trees are right.
* `Holds.push`, `Holds.take`, `Holds.rotate`: the operations on the queue.  A push stores a packet
  in the cell of its key (`pushPlace_eq`, by the four cases of `gq_push`); a rotation exchanges the
  arrays when the first is empty, which moves every cell by a horizon (`stock_swap`).
* `Sound.getMinIndex_eq`: the search finds the first cell with packets: the root of the first tree
  counts the first half of the cells.
* `Refines P sch q`: the discipline is the queue `q`; `Refines.enqueue`, `Refines.dequeue`: the
  callbacks return, and do what the queue does.  An enqueue goes by induction on the segments; a
  dequeue by whether the queue is empty, the least key is due, and the main array is past.
-/

namespace Eiffel

open Gq Ledger Occupancy

/-! ### The shape of a queue -/

/-- The trees have room for the buckets, and the granularity divides the horizon. -/
structure Fit (P : Params) : Prop where
  dvd : P.granularity ∣ P.horizonNs
  two_le : 2 ≤ numBuckets P
  fits : numBuckets P ≤ base ^ levels P

/-- The fields that no callback changes. -/
structure Shaped (P : Params) (gq : GradientQueue) : Prop where
  grnlrty : gq.grnlrty = P.granularity
  numOfBuckets : gq.numOfBuckets = numBuckets P
  w : gq.w = base
  l : gq.l = levels P
  s : gq.s = nodes P
  horizon : gq.horizon = P.horizonNs

section Params

variable {P : Params}

lemma Fit.pos (hP : Fit P) : 0 < numBuckets P := by
  have := hP.two_le
  omega

lemma Fit.granularity_pos (hP : Fit P) : 0 < P.granularity := PQueue.Ok.granularity_pos hP.pos

lemma Fit.horizon_eq (hP : Fit P) : P.horizonNs = numBuckets P * P.granularity :=
  PQueue.Ok.horizon_eq hP.dvd

/-- Trees with room for two buckets have levels. -/
lemma levels_pos (htwo : 2 ≤ numBuckets P) (hfits : numBuckets P ≤ base ^ levels P) :
    0 < levels P := by
  refine Nat.pos_of_ne_zero fun hzero => ?_
  rw [hzero, pow_zero] at hfits
  omega

lemma Fit.levels_pos (hP : Fit P) : 0 < levels P := Eiffel.levels_pos hP.two_le hP.fits

lemma numBuckets_lt (P : Params) : numBuckets P < 2 ^ 62 :=
  (Nat.div_le_self _ _).trans_lt (horizonNs_lt P)

/-- A round of `log_approx` keeps its result below `32`. -/
lemma logRound_lt {st bs : ℕ × ℕ} (hst : st.2 < 2 ^ 5) (hbs : bs.2 < 2 ^ 5) :
    (logRound st bs).2 < 2 ^ 5 := by
  rw [logRound]
  split
  · exact Nat.or_lt_two_pow hst hbs
  · exact hst

lemma logApprox_lt (v : ℕ) : logApprox v < 2 ^ 5 := by
  rw [logApprox]
  refine List.foldlRecOn (motive := fun st : ℕ × ℕ => st.2 < 2 ^ 5) _ _ (by norm_num)
    fun st hst bs hbs => logRound_lt hst ?_
  fin_cases hbs <;> norm_num

lemma levels_le (P : Params) : levels P ≤ 7 := by
  have hlt := logApprox_lt (numBuckets P)
  rw [levels, show logApprox base = 5 by decide]
  omega

lemma nodes_eq (P : Params) : nodes P = start base (levels P) := start_eq (by decide) _

lemma nodes_lt (P : Params) : nodes P < 2 ^ 31 := by
  rw [nodes_eq]
  exact (start_mono (by decide) (levels_le P)).trans_lt (by decide)

/-- The numbers of a queue are in range. -/
lemma Shaped.sized_of_fits {gq : GradientQueue} (h : Shaped P gq) (htwo : 2 ≤ numBuckets P)
    (hfits : numBuckets P ≤ base ^ levels P) : Sized gq := by
  refine ⟨h.w, ?_, ?_, ?_, ?_⟩
  · rw [h.s, h.l, nodes_eq]
  · rw [h.l]
    exact Eiffel.levels_pos htwo hfits
  · rw [h.numOfBuckets, h.l]
    exact hfits
  · have hs := nodes_lt P
    have hn := numBuckets_lt P
    rw [h.s, h.numOfBuckets]
    omega

lemma Shaped.sized {gq : GradientQueue} (h : Shaped P gq) (hP : Fit P) : Sized gq :=
  h.sized_of_fits hP.two_le hP.fits

end Params

/-! ### Cells -/

/-- The buckets of both arrays, in the order of their times. -/
def cells (gq : GradientQueue) (j : ℕ) : List SkBuff :=
  if j < gq.numOfBuckets then shelf gq.main.buckets j
  else shelf gq.buffer.buckets (j - gq.numOfBuckets)

/-- The side of a cell, and the number of its bucket there. -/
def GradientQueue.sideAt (gq : GradientQueue) (j : ℕ) : Side :=
  if j < gq.numOfBuckets then gq.main else gq.buffer

def GradientQueue.spot (gq : GradientQueue) (j : ℕ) : ℕ :=
  if j < gq.numOfBuckets then j else j - gq.numOfBuckets

/-- A queue with another side for a cell, and another number of packets. -/
def GradientQueue.put (gq : GradientQueue) (j n : ℕ) (side : Side) : GradientQueue :=
  if j < gq.numOfBuckets then { gq with numOfElements := n, main := side }
  else { gq with numOfElements := n, buffer := side }

section Cells

variable {P : Params} {gq : GradientQueue} {side : Side} {j n : ℕ}

lemma cells_eq (gq : GradientQueue) (j : ℕ) :
    cells gq j = shelf (gq.sideAt j).buckets (gq.spot j) := by
  rw [cells, GradientQueue.sideAt, GradientQueue.spot]
  split <;> rfl

lemma spot_lt (hj : j < gq.numOfBuckets + gq.numOfBuckets) : gq.spot j < gq.numOfBuckets := by
  rw [GradientQueue.spot]
  split
  · assumption
  · omega

/-- A bucket of one side changed. -/
lemma cells_put {b : GqBucket}
    (h : side.buckets = Function.update (gq.sideAt j).buckets (gq.spot j) b) :
    cells (gq.put j n side) = Function.update (cells gq) j b.packets := by
  funext i
  rw [GradientQueue.sideAt, GradientQueue.spot] at h
  by_cases hj : j < gq.numOfBuckets
  · rw [if_pos hj, if_pos hj] at h
    rw [GradientQueue.put, if_pos hj, cells]
    dsimp only
    rw [h, shelf_update]
    by_cases hi : i < gq.numOfBuckets
    · by_cases hij : i = j
      · rw [if_pos hi, hij, Function.update_self, Function.update_self]
      · rw [if_pos hi, Function.update_of_ne hij, Function.update_of_ne hij, cells, if_pos hi]
    · rw [if_neg hi, Function.update_of_ne (by omega), cells, if_neg hi]
  · rw [if_neg hj, if_neg hj] at h
    rw [GradientQueue.put, if_neg hj, cells]
    dsimp only
    rw [h, shelf_update]
    by_cases hi : i < gq.numOfBuckets
    · rw [if_pos hi, Function.update_of_ne (by omega), cells, if_pos hi]
    · by_cases hij : i = j
      · rw [if_neg hi, hij, Function.update_self, Function.update_self]
      · rw [if_neg hi, Function.update_of_ne (by omega), Function.update_of_ne hij, cells,
          if_neg hi]

/-- A queue of the right shape whose trees agree with its arrays. -/
structure Sound (P : Params) (gq : GradientQueue) : Prop where
  shaped : Shaped P gq
  main : SideOk gq.l gq.numOfBuckets gq.main
  buffer : SideOk gq.l gq.numOfBuckets gq.buffer

lemma Sound.sideAt (h : Sound P gq) (j : ℕ) : SideOk gq.l gq.numOfBuckets (gq.sideAt j) := by
  rw [GradientQueue.sideAt]
  split
  · exact h.main
  · exact h.buffer

lemma Sound.put (h : Sound P gq) (hside : SideOk gq.l gq.numOfBuckets side) (j n : ℕ) :
    Sound P (gq.put j n side) := by
  obtain ⟨hg, hnb, hw, hl, hs, hh⟩ := h.shaped
  rw [GradientQueue.put]
  split
  · exact ⟨⟨hg, hnb, hw, hl, hs, hh⟩, hside, h.buffer⟩
  · exact ⟨⟨hg, hnb, hw, hl, hs, hh⟩, h.main, hside⟩

end Cells

/-! ### The packets in the cells -/

/-- The times of a queue whose keys begin at `mainTs`. -/
structure Timed (P : Params) (gq : GradientQueue) (mainTs : ℕ) : Prop where
  main_eq : gq.mainTs = mainTs
  buffer_eq : gq.bufferTs = mainTs + P.horizonNs
  max_eq : gq.maxTs = mainTs + 2 * P.horizonNs
  lt : mainTs < 2 ^ 63

/-- The cells by their start times. -/
def stock (P : Params) (gq : GradientQueue) (mainTs : ℕ) : ℕ → List SkBuff :=
  Shelf.spread mainTs P.granularity (numBuckets P + numBuckets P) (cells gq)

/-- The cells of the queue have the packets of `q`; the times matter when there are any. -/
structure Holds (P : Params) (gq : GradientQueue) (q : PQueue) : Prop where
  sound : Sound P gq
  total : gq.numOfElements = q.held.length
  fifo : Shelf.Fifo (fun e : Stored => e.key) (fun e => e.skb) (stock P gq q.mainTs) q.held
  times : q.held ≠ [] → Timed P gq q.mainTs

section Holds

variable {P : Params} {gq gq' : GradientQueue} {q : PQueue} {now j : ℕ}

lemma Timed.restart (hgq : gq.horizon = P.horizonNs) (hnow : now < 2 ^ 63) :
    Timed P (restart gq now) now := by
  have hH := horizonNs_lt P
  refine ⟨rfl, ?_, ?_, hnow⟩
  · rw [Eiffel.restart, hgq]
    exact Nat.mod_eq_of_lt (by omega)
  · rw [Eiffel.restart, hgq]
    dsimp only
    rw [Nat.mod_eq_of_lt (by omega)]
    omega

/-- The place of a packet in the arrays. -/
lemma pushPlace_eq (hP : Fit P) (hgran : gq.grnlrty = P.granularity)
    (hnum : gq.numOfBuckets = numBuckets P) (ht : Timed P gq q.mainTs) (skb : SkBuff) :
    ∃ j < numBuckets P + numBuckets P, (q.place P skb).key = q.mainTs + j * P.granularity ∧
      pushPlace gq skb.skbMstampNs
        = (decide (j < gq.numOfBuckets), gq.spot j, (q.place P skb).skb.skbMstampNs) := by
  have hH := hP.horizon_eq
  have hlt := horizonNs_lt P
  have hn := numBuckets_lt P
  have hpos := hP.pos
  have hg := hP.granularity_pos
  have hprod : 0 < numBuckets P * P.granularity := Nat.mul_pos hpos hg
  refine ⟨min ((skb.skbMstampNs - q.mainTs) / P.granularity) (2 * numBuckets P - 1), by omega, rfl,
    ?_⟩
  rw [pushPlace, ht.main_eq, ht.buffer_eq, ht.max_eq, hgran, PQueue.place, GradientQueue.spot, hnum]
  dsimp only
  split
  · rename_i hmain
    have hfew : (skb.skbMstampNs - q.mainTs) / P.granularity < numBuckets P := by
      rw [Nat.div_lt_iff_lt_mul hg]
      omega
    rw [min_eq_left (by omega), if_pos hfew]
    split
    · rename_i hle
      rw [Nat.sub_eq_zero_of_le hle, Nat.zero_div, max_eq_left (by omega), decide_eq_true hpos]
    · rw [decide_eq_true hfew, min_eq_left (by omega), max_eq_right (by omega)]
  · rename_i hbuffer
    have hmany : numBuckets P ≤ (skb.skbMstampNs - q.mainTs) / P.granularity := by
      rw [Nat.le_div_iff_mul_le hg]
      omega
    split
    · rename_i hmax
      have hall : 2 * numBuckets P ≤ (skb.skbMstampNs - q.mainTs) / P.granularity := by
        rw [Nat.le_div_iff_mul_le hg, Nat.mul_assoc]
        omega
      have hlast : (q.mainTs + 2 * P.horizonNs + 2 ^ 64 - (q.mainTs + P.horizonNs)) % 2 ^ 64
          / P.granularity = numBuckets P := by
        rw [show (q.mainTs + 2 * P.horizonNs + 2 ^ 64 - (q.mainTs + P.horizonNs)) % 2 ^ 64
          = P.horizonNs by omega]
        rfl
      rw [min_eq_right (by omega), hlast, if_neg (by omega), decide_eq_false (by omega),
        min_eq_right hmax, max_eq_right (by omega),
        show (numBuckets P + 2 ^ 64 - 1) % 2 ^ 64 = 2 * numBuckets P - 1 - numBuckets P by omega]
    · rename_i hmax
      have hsplit : (skb.skbMstampNs - q.mainTs) / P.granularity
          = numBuckets P + (skb.skbMstampNs - (q.mainTs + P.horizonNs)) / P.granularity := by
        rw [show skb.skbMstampNs - q.mainTs
          = numBuckets P * P.granularity + (skb.skbMstampNs - (q.mainTs + P.horizonNs)) by omega,
          Nat.mul_comm, Nat.mul_add_div hg]
      have hrest : (skb.skbMstampNs - (q.mainTs + P.horizonNs)) / P.granularity < numBuckets P := by
        rw [Nat.div_lt_iff_lt_mul hg]
        omega
      rw [min_eq_left (by omega), hsplit, if_neg (by omega), decide_eq_false (by omega),
        Nat.add_sub_cancel_left, min_eq_left (by omega), max_eq_right (by omega)]

/-- The start time of a bucket. -/
lemma start_spot (hP : Fit P) (h : Shaped P gq) (ht : Timed P gq q.mainTs) (j : ℕ) :
    (if j < gq.numOfBuckets then gq.mainTs else gq.bufferTs) + gq.spot j * gq.grnlrty
      = q.mainTs + j * P.granularity := by
  rw [ht.main_eq, ht.buffer_eq, h.grnlrty, GradientQueue.spot]
  split
  · rfl
  · rename_i hj
    obtain ⟨i, rfl⟩ := Nat.exists_eq_add_of_le (not_lt.mp hj)
    rw [Nat.add_sub_cancel_left, hP.horizon_eq, h.numOfBuckets]
    ring

/-- A push, by the cell of the packet. -/
lemma gqPush_eq {skb : SkBuff} {ts : ℕ}
    (hplace : pushPlace gq skb.skbMstampNs = (decide (j < gq.numOfBuckets), gq.spot j, ts)) :
    gqPush gq skb = ((gq.sideAt j).push gq (gq.spot j) { skb with skbMstampNs := ts }).map
      fun side => (gq.put j (gq.numOfElements + 1) side,
        { requested := skb.skbMstampNs, skb := { skb with skbMstampNs := ts }
          key := (if j < gq.numOfBuckets then gq.mainTs else gq.bufferTs)
            + gq.spot j * gq.grnlrty }) := by
  rw [gqPush, hplace, GradientQueue.sideAt]
  dsimp only
  by_cases hj : j < gq.numOfBuckets
  · rw [if_pos (decide_eq_true hj), if_pos hj, if_pos hj]
    simp only [GradientQueue.put, if_pos hj]
  · rw [if_neg (by simpa using hj), if_neg hj, if_neg hj]
    simp only [GradientQueue.put, if_neg hj]

lemma put_numOfElements (gq : GradientQueue) (j n : ℕ) (side : Side) :
    (gq.put j n side).numOfElements = n := by
  rw [GradientQueue.put]
  split <;> rfl

lemma Timed.put {t : ℕ} (ht : Timed P gq t) (j n : ℕ) (side : Side) :
    Timed P (gq.put j n side) t := by
  rw [GradientQueue.put]
  split <;> exact ⟨ht.main_eq, ht.buffer_eq, ht.max_eq, ht.lt⟩

/-- The cells after one of them changed. -/
lemma stock_put (hP : Fit P) {side : Side} {b : GqBucket} {n t : ℕ}
    (hj : j < numBuckets P + numBuckets P)
    (hside : side.buckets = Function.update (gq.sideAt j).buckets (gq.spot j) b) :
    stock P (gq.put j n side) t
      = Function.update (stock P gq t) (t + j * P.granularity) b.packets := by
  rw [stock, cells_put hside, Shelf.spread_update hP.granularity_pos hj]
  rfl

lemma stock_at (hP : Fit P) (hj : j < numBuckets P + numBuckets P) (t : ℕ) :
    stock P gq t (t + j * P.granularity) = cells gq j := Shelf.spread_at hP.granularity_pos hj

/-- **A push** does what the queue does. -/
lemma Holds.push (hP : Fit P) (h : Holds P gq q) (ht : Timed P gq q.mainTs) (skb : SkBuff) :
    ∃ gq', gqPush gq skb = some (gq', q.place P skb) ∧ Holds P gq' (q.push P skb) ∧
      Timed P gq' q.mainTs := by
  have hshaped := h.sound.shaped
  obtain ⟨j, hj, hkey, hplace⟩ := pushPlace_eq hP hshaped.grnlrty hshaped.numOfBuckets ht skb
  have hspot : gq.spot j < gq.numOfBuckets := spot_lt (by rw [hshaped.numOfBuckets]; exact hj)
  obtain ⟨side, hrun, hside, hbuckets⟩ := (h.sound.sideAt j).push (hshaped.sized hP) hspot
    (q.place P skb).skb
  have hpushed : gqPush gq skb
      = some (gq.put j (gq.numOfElements + 1) side, q.place P skb) := by
    rw [gqPush_eq hplace, start_spot hP hshaped ht, ← hkey]
    rw [PQueue.place] at hrun ⊢
    rw [hrun]
    rfl
  refine ⟨_, hpushed, ⟨h.sound.put hside _ _, ?_, ?_, fun _ => ht.put _ _ _⟩, ht.put _ _ _⟩
  · rw [put_numOfElements, h.total, PQueue.push, List.length_append]
    rfl
  · have hpush := h.fifo.push { q.place P skb with seq := q.count }
    dsimp only at hpush
    rw [hkey, stock_at hP hj, cells_eq] at hpush
    rw [PQueue.push, stock_put hP hj hbuckets]
    exact hpush

/-- A cell has the packets of its start time. -/
lemma Holds.cell_eq (hP : Fit P) (h : Holds P gq q) (hj : j < numBuckets P + numBuckets P) :
    cells gq j = (slot (fun e : Stored => e.key) q.held (q.mainTs + j * P.granularity)).map
      fun e => e.skb := by
  rw [← stock_at hP hj q.mainTs]
  exact h.fifo _

/-- The key of a packet is the start time of a cell. -/
lemma Holds.keyed (h : Holds P gq q) {e : Stored} (he : e ∈ q.held) :
    ∃ j < numBuckets P + numBuckets P, e.key = q.mainTs + j * P.granularity := by
  have hmem : e ∈ slot (fun e : Stored => e.key) q.held e.key := mem_slot.mpr ⟨he, rfl⟩
  have hne : stock P gq q.mainTs e.key ≠ [] := by
    rw [h.fifo e.key, ne_eq, List.map_eq_nil_iff]
    exact List.ne_nil_of_mem hmem
  exact Shelf.exists_of_spread_ne_nil hne

/-- The root of the first tree counts the first half of the cells. -/
lemma Sound.root_ne_zero (hP : Fit P) (h : Sound P gq) :
    (gq.main.tree 0).c ≠ 0 ↔ ∃ i < gq.numOfBuckets, cells gq i ≠ [] := by
  rw [h.main.root_ne_zero (h.shaped.sized hP)]
  refine exists_congr fun i => and_congr_right fun hi => ?_
  rw [cells, if_pos hi]
  rfl

lemma Sound.buffer_root_ne_zero (hP : Fit P) (h : Sound P gq) :
    (gq.buffer.tree 0).c ≠ 0 ↔ ∃ i < gq.numOfBuckets, cells gq (gq.numOfBuckets + i) ≠ [] := by
  rw [h.buffer.root_ne_zero (h.shaped.sized hP)]
  refine exists_congr fun i => and_congr_right fun hi => ?_
  rw [cells, if_neg (by omega), Nat.add_sub_cancel_left]
  rfl

lemma Sound.s_ne_zero (hP : Fit P) (h : Sound P gq) : gq.s ≠ 0 := by
  obtain ⟨l, hl⟩ : ∃ l, levels P = l + 1 := ⟨levels P - 1, by have := hP.levels_pos; omega⟩
  rw [h.shaped.s, nodes_eq, hl]
  exact Nat.succ_ne_zero _

/-- **The search** finds the first cell with packets. -/
lemma Sound.getMinIndex_eq (hP : Fit P) (h : Sound P gq) (hj : j < numBuckets P + numBuckets P)
    (hne : cells gq j ≠ []) (hleast : ∀ i < j, cells gq i = []) :
    getMinIndex gq = some (gq.spot j) ∧ ((gq.main.tree 0).c ≠ 0 ↔ j < gq.numOfBuckets) := by
  have hsized := h.shaped.sized hP
  have hroot := h.root_ne_zero hP
  have hnum := h.shaped.numOfBuckets
  rw [getMinIndex, if_neg (h.s_ne_zero hP), GradientQueue.spot]
  by_cases hlt : j < gq.numOfBuckets
  · have hc : (gq.main.tree 0).c ≠ 0 := hroot.mpr ⟨j, hlt, hne⟩
    rw [if_pos hc, if_pos hlt]
    refine ⟨h.main.minIndex hsized hlt ?_ fun i hi => ?_, iff_of_true hc hlt⟩
    · rw [cells, if_pos hlt] at hne
      exact hne
    · have hempty := hleast i hi
      rw [cells, if_pos (hi.trans hlt)] at hempty
      exact hempty
  · have hc : ¬ (gq.main.tree 0).c ≠ 0 := fun hc => by
      obtain ⟨i, hi, hcell⟩ := hroot.mp hc
      exact hcell (hleast i (by omega))
    obtain ⟨i, rfl⟩ := Nat.exists_eq_add_of_le (not_lt.mp hlt)
    have hi : i < gq.numOfBuckets := by omega
    have hb : (gq.buffer.tree 0).c ≠ 0 := (h.buffer_root_ne_zero hP).mpr ⟨i, hi, hne⟩
    rw [if_neg hc, if_pos hb, if_neg hlt, Nat.add_sub_cancel_left]
    refine ⟨h.buffer.minIndex hsized hi ?_ fun k hk => ?_, iff_of_false hc hlt⟩
    · rw [cells, if_neg hlt, Nat.add_sub_cancel_left] at hne
      exact hne
    · have hempty := hleast (gq.numOfBuckets + k) (by omega)
      rw [cells, if_neg (by omega), Nat.add_sub_cancel_left] at hempty
      exact hempty

/-- The search in an empty queue. -/
lemma Sound.getMinIndex_nil (hP : Fit P) (h : Sound P gq)
    (hnil : ∀ j < numBuckets P + numBuckets P, cells gq j = []) :
    getMinIndex gq = some (2 ^ 64 - 1) := by
  have hnum := h.shaped.numOfBuckets
  have hmain : ¬ (gq.main.tree 0).c ≠ 0 := fun hc => by
    obtain ⟨i, hi, hcell⟩ := (h.root_ne_zero hP).mp hc
    exact hcell (hnil i (by omega))
  have hbuffer : ¬ (gq.buffer.tree 0).c ≠ 0 := fun hc => by
    obtain ⟨i, hi, hcell⟩ := (h.buffer_root_ne_zero hP).mp hc
    exact hcell (hnil _ (by omega))
  rw [getMinIndex, if_neg (h.s_ne_zero hP), if_neg hmain, if_neg hbuffer]

/-- The time of the first cell with packets. -/
lemma minTs_eq (hP : Fit P) (h : Shaped P gq) (ht : Timed P gq q.mainTs)
    (hj : j < numBuckets P + numBuckets P) (hroot : (gq.main.tree 0).c ≠ 0 ↔ j < gq.numOfBuckets) :
    minTs gq (gq.spot j) = q.mainTs + j * P.granularity := by
  have hH := horizonNs_lt P
  have hlt := ht.lt
  have hend : j * P.granularity ≤ 2 * P.horizonNs := by
    rw [hP.horizon_eq, ← Nat.mul_assoc]
    exact Nat.mul_le_mul_right _ (by omega)
  rw [minTs, Nat.add_comm, if_congr hroot rfl rfl, start_spot hP h ht, Nat.mod_eq_of_lt (by omega)]

/-- An empty queue may begin anywhere. -/
lemma Holds.rebase (hP : Fit P) (h : Holds P gq q) (hnil : q.held = []) (t : ℕ)
    (hsound : Sound P gq') (htotal : gq'.numOfElements = gq.numOfElements)
    (hcells : ∀ j < numBuckets P + numBuckets P, cells gq' j = cells gq j) :
    Holds P gq' { q with mainTs := t } := by
  refine ⟨hsound, htotal.trans h.total, fun k => ?_, fun hne => absurd hnil hne⟩
  have hempty : ∀ j < numBuckets P + numBuckets P, cells gq' j = [] := fun j hj => by
    rw [hcells j hj, h.cell_eq hP hj, hnil]
    rfl
  dsimp only
  rw [stock, Shelf.spread_nil hempty, hnil]
  rfl

lemma Sound.restart (h : Sound P gq) (now : ℕ) : Sound P (restart gq now) := by
  obtain ⟨hg, hnb, hw, hl, hs, hh⟩ := h.shaped
  exact ⟨⟨hg, hnb, hw, hl, hs, hh⟩, h.main, h.buffer⟩

lemma Holds.restart (hP : Fit P) (h : Holds P gq q) (hnil : q.held = []) (now : ℕ) :
    Holds P (restart gq now) { q with mainTs := now } :=
  h.rebase hP hnil now (h.sound.restart now) rfl fun _ _ => rfl

/-- `gq_extract` on a queue with packets. -/
lemma gqExtract_eq (hmin : getMinIndex gq = some (gq.spot j))
    (hroot : (gq.main.tree 0).c ≠ 0 ↔ j < gq.numOfBuckets) (hnum : gq.numOfElements ≠ 0) :
    gqExtract gq now =
      if minTs gq (gq.spot j) > now then some (gq, gq.spot j, none)
      else ((gq.sideAt j).pop gq (gq.spot j)).map fun (skb, side) =>
        (gq.put j (gq.numOfElements - 1) side, gq.spot j, skb) := by
  rw [gqExtract, hmin, Option.bind_some, if_neg hnum, GradientQueue.sideAt]
  refine ite_congr rfl (fun _ => rfl) fun _ => ?_
  by_cases hj : j < gq.numOfBuckets
  · rw [if_pos (hroot.mpr hj), if_pos hj]
    simp only [GradientQueue.put, if_pos hj]
  · rw [if_neg (fun hc => hj (hroot.mp hc)), if_neg hj]
    simp only [GradientQueue.put, if_neg hj]

/-- **Taking** the first packet of a cell. -/
lemma Holds.take (hP : Fit P) (h : Holds P gq q) (ht : Timed P gq q.mainTs)
    (hnd : (q.held.map Stored.seq).Nodup) {e : Stored} {tl : List Stored}
    (hj : j < numBuckets P + numBuckets P) (hkey : e.key = q.mainTs + j * P.granularity)
    (hslot : slot (fun e : Stored => e.key) q.held e.key = e :: tl) :
    ∃ side, (gq.sideAt j).pop gq (gq.spot j) = some (some e.skb, side) ∧
      Holds P (gq.put j (gq.numOfElements - 1) side)
        { q with held := without Stored.seq q.held [e.seq], sent := q.sent ++ [e] } := by
  have hshaped := h.sound.shaped
  have hspot : gq.spot j < gq.numOfBuckets := spot_lt (by rw [hshaped.numOfBuckets]; exact hj)
  have hcell := h.cell_eq hP hj
  rw [← hkey, hslot, List.map_cons] at hcell
  have hhead : ((gq.sideAt j).buckets (gq.spot j)).packets = e.skb :: tl.map fun e => e.skb := by
    rw [← hcell, cells_eq]
    rfl
  obtain ⟨side, hrun, hside, hbuckets⟩ :=
    (h.sound.sideAt j).pop (hshaped.sized hP) hspot hhead
  refine ⟨side, hrun, h.sound.put hside _ _, ?_, ?_, fun _ => ht.put _ _ _⟩
  · have he : e ∈ q.held := (mem_slot.mp (hslot ▸ List.mem_cons_self)).1
    have hlen := (perm_named_without Stored.seq q.held [e.seq]).length_eq
    rw [List.length_append, named_singleton hnd he, List.length_singleton] at hlen
    rw [put_numOfElements, h.total]
    dsimp only
    omega
  · have hstock : stock P gq q.mainTs e.key = e.skb :: tl.map fun e => e.skb := by
      rw [hkey, stock_at hP hj, hcell]
    obtain ⟨e', tl', hslot', -, hfifo⟩ := h.fifo.pop hnd hstock
    rw [hslot, List.cons.injEq] at hslot'
    rw [← hslot'.1] at hfifo
    dsimp only
    rw [stock_put hP hj hbuckets, ← hkey]
    exact hfifo

/-- No packet is in the first half of the cells. -/
lemma Holds.root_eq_zero (hP : Fit P) (h : Holds P gq q) :
    (gq.main.tree 0).c = 0 ↔ ∀ x ∈ q.held, q.mainTs + P.horizonNs ≤ x.key := by
  have hnum := h.sound.shaped.numOfBuckets
  rw [← not_iff_not, ← ne_eq, h.sound.root_ne_zero hP, hP.horizon_eq]
  constructor
  · rintro ⟨i, hi, hne⟩ hall
    rw [h.cell_eq hP (by omega), ne_eq, List.map_eq_nil_iff] at hne
    obtain ⟨x, hx⟩ := List.exists_mem_of_ne_nil _ hne
    obtain ⟨hxh, hxk⟩ := mem_slot.mp hx
    have hle := hall x hxh
    rw [hxk] at hle
    have hni := Nat.le_of_mul_le_mul_right (Nat.le_of_add_le_add_left hle) hP.granularity_pos
    omega
  · intro hall
    push Not at hall
    obtain ⟨x, hx, hlt⟩ := hall
    obtain ⟨j, hj, hkey⟩ := h.keyed hx
    rw [hkey] at hlt
    have hjn : j < numBuckets P :=
      Nat.lt_of_mul_lt_mul_right (Nat.lt_of_add_lt_add_left hlt)
    refine ⟨j, by omega, ?_⟩
    rw [h.cell_eq hP hj, ← hkey, ne_eq, List.map_eq_nil_iff]
    exact List.ne_nil_of_mem (mem_slot.mpr ⟨hx, rfl⟩)

/-- Exchanging the arrays when the first is empty moves the times by a horizon. -/
lemma stock_swap (hP : Fit P) (hnb : gq.numOfBuckets = numBuckets P)
    (hempty : ∀ j < numBuckets P, cells gq j = []) (hmain : gq'.main = gq.buffer)
    (hbuffer : gq'.buffer = gq.main) (hnum : gq'.numOfBuckets = gq.numOfBuckets) (t : ℕ) :
    stock P gq' (t + P.horizonNs) = stock P gq t := by
  have hswap : ∀ j < numBuckets P + numBuckets P, cells gq' j
      = if j < numBuckets P then cells gq (numBuckets P + j) else cells gq (j - numBuckets P) := by
    intro j hj
    rw [cells, cells, cells, hmain, hbuffer, hnum, hnb]
    by_cases hjn : j < numBuckets P
    · rw [if_pos hjn, if_pos hjn, if_neg (by omega), Nat.add_sub_cancel_left]
    · rw [if_neg hjn, if_neg hjn, if_pos (by omega)]
  rw [stock, stock, hP.horizon_eq, Shelf.spread_swap hP.granularity_pos hempty hswap]

/-- **The rotation** does what the queue does. -/
lemma Holds.rotate (hP : Fit P) (h : Holds P gq q) (ht : Timed P gq q.mainTs)
    (hnow : now < 2 ^ 63) :
    Holds P (rotate gq now) { q with
      mainTs := if q.mainTs + P.horizonNs < now ∧ ∀ x ∈ q.held, q.mainTs + P.horizonNs ≤ x.key
        then q.mainTs + P.horizonNs else q.mainTs } := by
  have hroot := h.root_eq_zero hP
  obtain ⟨hg, hnb, hw, hl, hs, hh⟩ := h.sound.shaped
  have hH := horizonNs_lt P
  rw [Eiffel.rotate, ht.buffer_eq]
  by_cases hturn : q.mainTs + P.horizonNs < now ∧ ∀ x ∈ q.held, q.mainTs + P.horizonNs ≤ x.key
  · rw [if_pos hturn, if_pos ⟨hturn.1, hroot.mpr hturn.2⟩]
    refine ⟨⟨⟨hg, hnb, hw, hl, hs, hh⟩, h.sound.buffer, h.sound.main⟩, h.total, ?_, fun _ => ?_⟩
    · have hempty : ∀ j < numBuckets P, cells gq j = [] := by
        intro j hj
        by_contra hne
        exact (h.sound.root_ne_zero hP).mpr ⟨j, by omega, hne⟩ (hroot.mpr hturn.2)
      dsimp only
      rw [stock_swap hP hnb hempty]
      · exact h.fifo
      · rfl
      · rfl
      · rfl
    · refine ⟨rfl, ?_, ?_, by dsimp only; omega⟩
      · dsimp only
        rw [hh, Nat.mod_eq_of_lt (by omega)]
      · dsimp only
        rw [hh, Nat.mod_eq_of_lt (by omega), Nat.mod_eq_of_lt (by omega)]
        omega
  · rw [if_neg hturn, if_neg fun hcon => hturn ⟨hcon.1, hroot.mp hcon.2⟩]
    exact h

end Holds

/-! ### The callbacks -/

/-- The discipline is the queue `q`. -/
structure Refines (P : Params) (sch : Qdisc) (q : PQueue) : Prop where
  holds : Holds P sch.gq q
  ok : q.Ok P
  limit_eq : sch.limit = schLimit

section Callbacks

variable {P : Params} {sch : Qdisc} {q : PQueue} {now : ℕ}

/-- A discipline with empty arrays whose trees have nothing but links. -/
lemma Refines.blank (hsound : Sound P sch.gq) (htotal : sch.gq.numOfElements = 0)
    (hmain : ∀ i < numBuckets P, sch.gq.main.buckets i = .empty)
    (hbuffer : ∀ i < numBuckets P, sch.gq.buffer.buckets i = .empty)
    (hlimit : sch.limit = schLimit) : Refines P sch .blank := by
  have hnum := hsound.shaped.numOfBuckets
  have hcells : ∀ j < numBuckets P + numBuckets P, cells sch.gq j = [] := by
    intro j hj
    rw [cells, shelf, shelf]
    split
    · rw [hmain j (by omega)]
      rfl
    · rw [hbuffer _ (by omega)]
      rfl
  refine ⟨⟨hsound, htotal, fun k => ?_, fun hne => absurd rfl hne⟩, .blank P, hlimit⟩
  rw [stock, Shelf.spread_nil hcells]
  rfl

/-- A full queue takes nothing. -/
lemma pushAll_full (hfull : schLimit ≤ q.held.length) (skbs : List SkBuff) :
    PQueue.pushAll P skbs q = (q, []) := by
  induction skbs with
  | nil => rfl
  | cons skb skbs ih => rw [PQueue.pushAll, if_pos hfull, ih]

lemma Refines.full_iff (h : Refines P sch q) :
    sch.gq.numOfElements ≥ sch.limit ↔ q.held.length ≥ schLimit := by
  rw [h.holds.total, h.limit_eq]

lemma Refines.countUp (h : Refines P sch q) : Refines P sch.countUp q :=
  ⟨h.holds, h.ok, h.limit_eq⟩

lemma Refines.pushOne (hP : Fit P) (h : Refines P sch q) (ht : Timed P sch.gq q.mainTs)
    (skb : SkBuff) : ∃ sch', pushOne sch skb = some (sch', q.place P skb) ∧
      Refines P sch' (q.push P skb) ∧ Timed P sch'.gq q.mainTs := by
  obtain ⟨gq', hrun, hholds, ht'⟩ := h.holds.push hP ht skb
  refine ⟨{ sch with gq := gq' }, ?_, ⟨hholds, h.ok.push hP.dvd hP.pos skb, h.limit_eq⟩, ht'⟩
  rw [Eiffel.pushOne, hrun]
  rfl

/-- The loop over the segments, by induction on them. -/
lemma segmentLoop_refines (hP : Fit P) (segs : List SkBuff) :
    ∀ {sch : Qdisc} {q : PQueue}, Refines P sch q → Timed P sch.gq q.mainTs →
      ∃ sch', segmentLoop segs sch = some (sch', (PQueue.pushAll P segs q).2) ∧
        Refines P sch' (PQueue.pushAll P segs q).1 := by
  induction segs with
  | nil => exact fun {sch q} h _ => ⟨sch, rfl, h⟩
  | cons seg segs ih =>
      intro sch q h ht
      rw [segmentLoop, PQueue.pushAll]
      by_cases hfull : q.held.length ≥ schLimit
      · rw [if_pos hfull, if_pos (h.full_iff.mpr hfull)]
        exact ih h.countUp ht
      · obtain ⟨sch₁, hpush, h₁, ht₁⟩ := h.pushOne hP ht seg
        obtain ⟨sch₂, hrest, h₂⟩ := @ih sch₁.countUp (q.push P seg) h₁.countUp ht₁
        rw [if_neg hfull, if_neg fun hcon => hfull (h.full_iff.mp hcon), hpush, Option.bind_some]
        dsimp only
        rw [hrest]
        exact ⟨sch₂, rfl, h₂⟩

/-- The discipline on which an enqueue starts. -/
lemma Refines.opened (hP : Fit P) (h : Refines P sch q) (hnow : now < 2 ^ 63) :
    ∃ sch₀,
      (if sch.gq.numOfElements = 0 then { sch with gq := restart sch.gq now } else sch) = sch₀ ∧
      Refines P sch₀ (q.opened now) ∧ Timed P sch₀.gq (q.opened now).mainTs := by
  have hzero : sch.gq.numOfElements = 0 ↔ q.held = [] := by
    rw [h.holds.total, List.length_eq_zero_iff]
  have hok := h.ok.opened now
  by_cases hnil : q.held = []
  · rw [PQueue.opened, if_pos hnil] at hok ⊢
    rw [if_pos (hzero.mpr hnil)]
    exact ⟨_, rfl, ⟨h.holds.restart hP hnil now, hok, h.limit_eq⟩,
      Timed.restart h.holds.sound.shaped.horizon hnow⟩
  · rw [PQueue.opened, if_neg hnil, if_neg fun hcon => hnil (hzero.mp hcon)]
    exact ⟨sch, rfl, h, h.holds.times hnil⟩

/-- **Enqueue** returns and does what the queue does. -/
theorem Refines.enqueue (hP : Fit P) (h : Refines P sch q) (hnow : now < 2 ^ 63) (skb : SkBuff)
    (segs : List SkBuff) :
    ∃ r, gqEnqueue P sch now skb segs = some r ∧ r.pushed = (q.enqueue P now skb segs).2 ∧
      r.ret = (if r.pushed = [] then .drop else .success) ∧
      Refines P r.sch (q.enqueue P now skb segs).1 := by
  obtain ⟨sch₀, hsch₀, h₀, ht₀⟩ := h.opened hP hnow
  rw [gqEnqueue, hsch₀, PQueue.enqueue]
  dsimp only
  by_cases hfull : (q.opened now).held.length ≥ schLimit
  · rw [if_pos (h₀.full_iff.mpr hfull), pushAll_full hfull]
    exact ⟨_, rfl, rfl, rfl, h₀⟩
  rw [if_neg fun hcon => hfull (h₀.full_iff.mp hcon)]
  obtain ⟨sch₁, hpush, h₁, -⟩ := h₀.pushOne hP ht₀ skb
  have hone : PQueue.pushAll P [skb] (q.opened now)
      = ((q.opened now).push P skb, [(q.opened now).place P skb]) := by
    rw [PQueue.pushAll, if_neg hfull]
    rfl
  by_cases hgso : (P.gsoSplit && skb.isGso) = true
  · rw [if_pos hgso, gqSegment]
    by_cases hrate : pacingRate skb = 0
    · rw [if_pos hrate, PQueue.arrivals, if_neg (by simp [hrate]), hpush, hone]
      exact ⟨_, rfl, rfl, rfl, h₁.countUp⟩
    · have hsplit : (P.gsoSplit && skb.isGso) = true ∧ pacingRate skb ≠ 0 := ⟨hgso, hrate⟩
      rw [if_neg hrate, PQueue.arrivals, if_pos hsplit]
      by_cases hsegs : segs = []
      · rw [if_pos hsegs, hsegs]
        exact ⟨_, rfl, rfl, rfl, h₀⟩
      · obtain ⟨sch₂, hloop, h₂⟩ := segmentLoop_refines hP
          (segmentTimes (hdrLen skb) (pacingRate skb) segs skb.skbMstampNs) h₀ ht₀
        rw [if_neg hsegs, hloop]
        exact ⟨_, rfl, rfl, rfl, h₂⟩
  · rw [if_neg hgso, PQueue.arrivals, if_neg fun hcon => hgso hcon.1, hpush, hone]
    exact ⟨_, rfl, rfl, rfl, h₁⟩

/-- The part of `gq_dequeue` for a packet that is not due. -/
lemma armWatchdog_eq {index : ℕ} (hnum : sch.gq.numOfElements ≠ 0)
    (hlate : now < minTs sch.gq index) :
    armWatchdog sch now index
      = { sch := { sch with lastExpires := minTs sch.gq index }, skb := none
          watchdog := some (minTs sch.gq index) } := by
  rw [armWatchdog]
  exact if_neg (by omega)

/-- What a dequeue that returns nothing leaves as it was. -/
def SameContents (gq gq' : GradientQueue) : Prop :=
  gq'.main = gq.main ∧ gq'.buffer = gq.buffer ∧ gq'.numOfElements = gq.numOfElements

/-- **Dequeue** returns and does what the queue does. -/
theorem Refines.dequeue (hP : Fit P) (h : Refines P sch q) (hnow : now < 2 ^ 63) :
    ∃ r, gqDequeue sch now = some r ∧
      r.skb = (q.dequeue P now).2.1.map (fun e => (e.skb, e.key)) ∧
      r.watchdog = (q.dequeue P now).2.2 ∧ (r.skb = none → SameContents sch.gq r.sch.gq) ∧
      Refines P r.sch (q.dequeue P now).1 := by
  have hok := h.ok.dequeue hP.dvd hP.pos now
  have hsound := h.holds.sound
  cases hleast : q.least with
  | none =>
      have hnil := PQueue.least_eq_none.mp hleast
      have hnum : sch.gq.numOfElements = 0 := by rw [h.holds.total, hnil]; rfl
      have hmin := hsound.getMinIndex_nil hP fun j hj => by
        rw [h.holds.cell_eq hP hj, hnil]
        rfl
      rw [PQueue.dequeue_of_nil hnil] at hok ⊢
      rw [gqDequeue, gqExtract, hmin, Option.bind_some, if_pos hnum, Option.map_some]
      dsimp only
      rw [armWatchdog, if_pos (.inl hnum)]
      exact ⟨_, rfl, rfl, rfl, fun _ => ⟨rfl, rfl, rfl⟩,
        h.holds.restart hP hnil now, hok, h.limit_eq⟩
  | some e =>
      have hfirst := PQueue.firstLeast_of_least hleast
      have hne : q.held ≠ [] := List.ne_nil_of_mem hfirst.mem
      have ht := h.holds.times hne
      have hnum : sch.gq.numOfElements ≠ 0 := by
        rw [h.holds.total]
        exact (List.length_pos_iff.mpr hne).ne'
      obtain ⟨j, hj, hkey⟩ := h.holds.keyed hfirst.mem
      obtain ⟨tl, hslot⟩ := hfirst.slot_eq
      -- the cell of the least key is the first with packets
      have hcell : cells sch.gq j ≠ [] := by
        rw [h.holds.cell_eq hP hj, ← hkey, hslot]
        simp
      have hbefore : ∀ i < j, cells sch.gq i = [] := by
        intro i hi
        rw [h.holds.cell_eq hP (hi.trans hj), List.map_eq_nil_iff, List.eq_nil_iff_forall_not_mem]
        intro x hx
        obtain ⟨hxh, hxk⟩ := mem_slot.mp hx
        have hle := hfirst.le x hxh
        rw [hxk, hkey] at hle
        have hji := Nat.le_of_mul_le_mul_right (Nat.le_of_add_le_add_left hle) hP.granularity_pos
        omega
      obtain ⟨hmin, hroot⟩ := hsound.getMinIndex_eq hP hj hcell hbefore
      have hts : minTs sch.gq (sch.gq.spot j) = e.key := by
        rw [minTs_eq hP hsound.shaped ht hj hroot, hkey]
      rw [gqDequeue, gqExtract_eq hmin hroot hnum, hts]
      rcases Nat.lt_or_ge now e.key with hlt | hle
      · rw [PQueue.dequeue_of_lt hleast hlt] at hok ⊢
        rw [if_pos hlt, Option.map_some]
        dsimp only
        rw [armWatchdog_eq hnum (by rw [hts]; exact hlt), hts]
        exact ⟨_, rfl, rfl, rfl, fun _ => ⟨rfl, rfl, rfl⟩, h.holds, hok, h.limit_eq⟩
      · obtain ⟨side, hpop, hholds⟩ := h.holds.take hP ht h.ok.nodup hj hkey hslot
        have hturned := hholds.rotate hP (ht.put j _ side) hnow
        rw [PQueue.dequeue_of_le hleast hle] at hok ⊢
        rw [if_neg (not_lt.mpr hle), hpop, Option.map_some, Option.map_some]
        dsimp only
        rw [hts]
        refine ⟨_, rfl, rfl, rfl, fun hnone => absurd hnone (by simp), ?_, hok, h.limit_eq⟩
        rw [PQueue.leave]
        exact hturned

end Callbacks

end Eiffel
