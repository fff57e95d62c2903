import FlowBundler.Bess.Eiffel.Queues

/-!
The bitmaps of Eiffel and the sets of slots that they stand for.

* `Marked cfg e S`: the map of queue `q` is the set `S q`, every bucket with a packet is in it,
  and the buckets in it lie within the horizon.
* `Marked.ffs_eq_none_iff`, `Marked.ffs_least`: `ffs` finds the least slot of the main queue, or of
  the buffer queue when the main queue has none.
* `Marked.round`: a round of `Enqueue` adds the slot it selects; `Marked.front`: a rotation
  exchanges the sets; `Marked.service`: the service of a bucket takes its slot away when it is
  empty afterwards.
* `init_marked`: after `Init` the sets are empty.

The sets are existential in the invariants above this module: a bit of a set may be set although its
bucket is empty, namely after a packet was refused.  A slot is kept within the horizon so that its
start time, computed from the base time, has no more than one horizon to go; and the buffer queue
has slots only when there is a horizon at all.
-/

namespace Bess

namespace Eiffel

variable {cfg : SlotConfig} {e : Eiffel} {S : QueueId → Finset ℕ} {q : QueueId} {i : ℕ}

/-- The sets `S` are what the bitmaps stand for. -/
structure Marked (cfg : SlotConfig) (e : Eiffel) (S : QueueId → Finset ℕ) : Prop where
  marks : ∀ q, (e.mapOf q).Marks cfg.slots (S q)
  sub : ∀ q i, (e.queueOf q i).nodes ≠ [] → i ∈ S q
  counted : ∀ q i, (e.queueOf q i).Counted
  base : e.bufferTs = (e.mainTs + horizon cfg) % 2 ^ 64
  within : ∀ q, ∀ i ∈ S q, i * cfg.granularity < horizon cfg ∨ i = 0

namespace Marked

/-! ### Selecting a bucket -/

lemma map_ne_zero_iff (h : Marked cfg e S) (q : QueueId) :
    (e.mapOf q).bitMap 0 0 ≠ 0 ↔ (S q).Nonempty := (h.marks q).root_ne_zero_iff

/-- `ffs` finds nothing exactly when no bit is set. -/
lemma ffs_eq_none_iff (h : Marked cfg e S) : e.ffs = none ↔ ∀ q, S q = ∅ := by
  have hmain : e.mainMap.bitMap 0 0 ≠ 0 ↔ S .main ≠ ∅ :=
    (h.map_ne_zero_iff .main).trans Finset.nonempty_iff_ne_empty
  have hbuffer : e.bufferMap.bitMap 0 0 ≠ 0 ↔ S .buffer ≠ ∅ :=
    (h.map_ne_zero_iff .buffer).trans Finset.nonempty_iff_ne_empty
  rw [ffs]
  constructor
  · intro hnone q
    split at hnone
    · simp at hnone
    · rename_i hm
      split at hnone
      · simp at hnone
      · rename_i hb
        cases q with
        | main => exact not_not.mp fun hne => hm (hmain.mpr hne)
        | buffer => exact not_not.mp fun hne => hb (hbuffer.mpr hne)
  · intro hempty
    rw [if_neg fun hne => hmain.mp hne (hempty .main),
      if_neg fun hne => hbuffer.mp hne (hempty .buffer)]

/-- **`ffs`** finds the least slot of a queue, of the buffer queue only when the main queue has
none. -/
lemma ffs_least (h : Marked cfg e S) (hffs : e.ffs = some (i, q.num)) :
    i ∈ S q ∧ (∀ j ∈ S q, i ≤ j) ∧ (q = .buffer → S .main = ∅) := by
  have hleast : ∀ q, (e.mapOf q).bitMap 0 0 ≠ 0 → (e.mapOf q).firstIndex ∈ S q ∧
      ∀ j ∈ S q, (e.mapOf q).firstIndex ≤ j := by
    intro q hq
    have hne := (h.map_ne_zero_iff q).mp hq
    rw [(h.marks q).firstIndex hne]
    exact ⟨(S q).min'_mem hne, fun j hj => (S q).min'_le j hj⟩
  rw [ffs] at hffs
  split at hffs
  · rename_i hm
    cases q with
    | main =>
        obtain rfl := congrArg Prod.fst (Option.some.inj hffs)
        obtain ⟨hmem, hle⟩ := hleast .main hm
        exact ⟨hmem, hle, by simp⟩
    | buffer => exact absurd (congrArg Prod.snd (Option.some.inj hffs)) (by simp [QueueId.num])
  · rename_i hm
    split at hffs
    · rename_i hb
      cases q with
      | main => exact absurd (congrArg Prod.snd (Option.some.inj hffs)) (by simp [QueueId.num])
      | buffer =>
          obtain rfl := congrArg Prod.fst (Option.some.inj hffs)
          obtain ⟨hmem, hle⟩ := hleast .buffer hb
          refine ⟨hmem, hle, fun _ => ?_⟩
          rw [← Finset.not_nonempty_iff_eq_empty, ← h.map_ne_zero_iff .main]
          exact hm
    · simp at hffs

/-- The bucket that `DropPacketInsert` selects lies within the horizon. -/
lemma target_within (h : Marked cfg e S) {stamp : ℕ} (ht : e.target cfg stamp = some (q, i)) :
    i * cfg.granularity < horizon cfg ∨ i = 0 := by
  have hbase := h.base
  have hmod := Nat.mod_le (e.mainTs + horizon cfg) (2 ^ 64)
  rw [target] at ht
  split at ht
  · split at ht
    · obtain ⟨rfl, rfl⟩ := Prod.mk.inj (Option.some.inj ht)
      exact .inr rfl
    · obtain ⟨rfl, rfl⟩ := Prod.mk.inj (Option.some.inj ht)
      have hle := Nat.div_mul_le_self (stamp - e.mainTs) cfg.granularity
      exact .inl (by omega)
  · split at ht
    · simp at ht
    · obtain ⟨rfl, rfl⟩ := Prod.mk.inj (Option.some.inj ht)
      have hle := Nat.div_mul_le_self (stamp - e.bufferTs) cfg.granularity
      have hfar : (e.mainTs + horizon cfg + horizon cfg) % 2 ^ 64 ≤ e.bufferTs + horizon cfg := by
        rw [← Nat.mod_add_mod, ← hbase]
        exact Nat.mod_le _ _
      exact .inl (by omega)

/-- A bucket of the buffer queue is selected only when there is a horizon. -/
lemma target_buffer (h : Marked cfg e S) {stamp : ℕ}
    (ht : e.target cfg stamp = some (.buffer, i)) : 0 < horizon cfg := by
  have hbase := h.base
  rw [target] at ht
  split at ht
  · split at ht <;> simp at ht
  · split at ht
    · simp at ht
    · have hfar : (e.mainTs + horizon cfg + horizon cfg) % 2 ^ 64 ≤ e.bufferTs + horizon cfg := by
        rw [← Nat.mod_add_mod, ← hbase]
        exact Nat.mod_le _ _
      omega

lemma lt_slots (h : i * cfg.granularity < horizon cfg ∨ i = 0) : i < cfg.slots := by
  rcases h with h | rfl
  · have hle : horizon cfg ≤ cfg.granularity * cfg.slots := Nat.mod_le _ _
    rw [Nat.mul_comm] at hle
    exact lt_of_mul_lt_mul_right (lt_of_lt_of_le h hle) (Nat.zero_le _)
  · exact cfg.slots_pos

/-! ### The steps -/

/-- A call that leaves queues and base times alone. -/
lemma congr {e' : Eiffel} (h : Marked cfg e S) (hsame : SameQueues e e') : Marked cfg e' S := by
  have hmain : e'.mainTs = e.mainTs := congrFun hsame.ts .main
  have hbuffer : e'.bufferTs = e.bufferTs := congrFun hsame.ts .buffer
  refine ⟨fun q => ?_, fun q i => ?_, fun q i => ?_, ?_, h.within⟩
  · rw [hsame.map]
    exact h.marks q
  · rw [hsame.queue]
    exact h.sub q i
  · rw [hsame.queue]
    exact h.counted q i
  · rw [hmain, hbuffer]
    exact h.base

/-- The base times are reset. -/
lemma reset (h : Marked cfg e S) (now : ℕ) :
    Marked cfg { e with mainTs := now, bufferTs := (now + horizon cfg) % 2 ^ 64 } S := by
  refine ⟨fun q => ?_, fun q => ?_, fun q => ?_, rfl, h.within⟩
  · cases q
    · exact h.marks .main
    · exact h.marks .buffer
  · cases q
    · exact h.sub .main
    · exact h.sub .buffer
  · cases q
    · exact h.counted .main
    · exact h.counted .buffer

/-- A bucket and the bitmap of its queue change. -/
lemma update {e' : Eiffel} {b : ListBucket} {map : BitMap} {F : Finset ℕ} (h : Marked cfg e S)
    (hqueue : e'.queueOf = Function.update e.queueOf q (Function.update (e.queueOf q) i b))
    (hmap : e'.mapOf = Function.update e.mapOf q map) (hts : e'.tsOf = e.tsOf)
    (hmarks : map.Marks cfg.slots F) (hcount : b.Counted)
    (hsub : ∀ j, (Function.update (e.queueOf q) i b j).nodes ≠ [] → j ∈ F)
    (hwithin : ∀ j ∈ F, j * cfg.granularity < horizon cfg ∨ j = 0) :
    Marked cfg e' (Function.update S q F) := by
  have hmain : e'.mainTs = e.mainTs := congrFun hts .main
  have hbuffer : e'.bufferTs = e.bufferTs := congrFun hts .buffer
  refine ⟨fun q' => ?_, fun q' j hne => ?_, fun q' j => ?_, ?_, fun q' j hj => ?_⟩
  · rw [hmap]
    by_cases hq : q' = q
    · subst hq
      rwa [Function.update_self, Function.update_self]
    · rw [Function.update_of_ne hq, Function.update_of_ne hq]
      exact h.marks q'
  · rw [hqueue] at hne
    by_cases hq : q' = q
    · subst hq
      rw [Function.update_self] at hne ⊢
      exact hsub j hne
    · rw [Function.update_of_ne hq] at hne ⊢
      exact h.sub q' j hne
  · rw [hqueue]
    by_cases hj : q' = q ∧ j = i
    · obtain ⟨rfl, rfl⟩ := hj
      rwa [update_bucket_self]
    · rw [update_bucket_of_ne hj]
      exact h.counted q' j
  · rw [hmain, hbuffer]
    exact h.base
  · by_cases hq : q' = q
    · subst hq
      rw [Function.update_self] at hj
      exact hwithin j hj
    · rw [Function.update_of_ne hq] at hj
      exact h.within q' j hj

/-- The slots after a round of `Enqueue` with stamp `stamp`. -/
def after (cfg : SlotConfig) (e : Eiffel) (S : QueueId → Finset ℕ) (stamp : ℕ) :
    QueueId → Finset ℕ :=
  match e.target cfg stamp with
  | none => S
  | some (q, i) => Function.update S q (insert i (S q))

lemma mem_after {stamp j : ℕ} :
    j ∈ after cfg e S stamp q ↔ j ∈ S q ∨ e.target cfg stamp = some (q, j) := by
  rw [after]
  cases ht : e.target cfg stamp with
  | none => simp
  | some t =>
      obtain ⟨q', i⟩ := t
      dsimp only
      by_cases hq : q = q'
      · subst hq
        rw [Function.update_self, Finset.mem_insert, or_comm]
        simp [eq_comm]
      · rw [Function.update_of_ne hq]
        simp [Ne.symm hq]

/-- A bucket of the selected slot. -/
lemma select {e' : Eiffel} {b : ListBucket} {stamp : ℕ} (h : Marked cfg e S)
    (ht : e.target cfg stamp = some (q, i)) (hcount : b.Counted)
    (hqueue : e'.queueOf = Function.update e.queueOf q (Function.update (e.queueOf q) i b))
    (hmap : e'.mapOf = Function.update e.mapOf q ((e.mapOf q).setBitMap i))
    (hts : e'.tsOf = e.tsOf) : Marked cfg e' (after cfg e S stamp) := by
  have hwithin := h.target_within ht
  rw [after, ht]
  refine h.update hqueue hmap hts ((h.marks q).set (lt_slots hwithin)) hcount (fun j hne => ?_)
    fun j hj => ?_
  · by_cases hj : j = i
    · exact hj ▸ Finset.mem_insert_self i (S q)
    · rw [Function.update_of_ne hj] at hne
      exact Finset.mem_insert_of_mem (h.sub q j hne)
  · rcases Finset.mem_insert.mp hj with rfl | hj
    · exact hwithin
    · exact h.within q j hj

/-- **A round of `Enqueue`** adds the slot that it selects, also when the packet is not stored. -/
theorem round {stamp : ℕ} {node : PacketNode} {r : InsertResult} (h : Marked cfg e S)
    (hout : Outcome cfg e stamp node r) : Marked cfg r.eiffel (after cfg e S stamp) := by
  cases hout with
  | refused ht _ hsame =>
      rw [after, ht]
      exact h.congr hsame
  | exhausted q i ht _ _ hqueue hmap hts =>
      refine h.select ht (h.counted q i) ?_ hmap hts
      rw [Function.update_eq_self, Function.update_eq_self]
      exact hqueue
  | stored q i ht _ _ hqueue hmap hts _ =>
      refine h.select ht ?_ hqueue hmap hts
      exact congrArg (· + 1) (h.counted q i)

/-- **A rotation** exchanges the sets. -/
lemma front (h : Marked cfg e S) (q : QueueId) : Marked cfg (e.front cfg q) (frontOf S q) := by
  cases q with
  | main =>
      rw [frontOf_self]
      exact h
  | buffer =>
      refine ⟨fun q => ?_, fun q => ?_, fun q => ?_, rfl, fun q => ?_⟩
      · cases q with
        | main => exact h.marks .buffer
        | buffer => exact h.marks .main
      · cases q with
        | main => exact h.sub .buffer
        | buffer => exact h.sub .main
      · cases q with
        | main => exact h.counted .buffer
        | buffer => exact h.counted .main
      · cases q with
        | main => exact h.within .buffer
        | buffer => exact h.within .main

/-- **The service of a bucket** takes its slot away when it is empty afterwards. -/
lemma service {r : DequeueResult} (h : Marked cfg e S) (hmem : i ∈ S .main)
    (hserve : Service e i r) :
    Marked cfg r.eiffel (Function.update S .main
      (if (r.eiffel.queueOf .main i).nodes = [] then (S .main).erase i else S .main)) := by
  obtain ⟨b, hnodes, hcount, hqueue⟩ := hserve.queue
  have hself : r.eiffel.queueOf .main i = b := by
    rw [hqueue, update_bucket_self]
  have hmap := hserve.map
  rw [hself] at hmap ⊢
  refine h.update hqueue hmap hserve.ts ?_ hcount (fun j hne => ?_) fun j hj => ?_
  · split
    · exact (h.marks .main).free ((h.marks .main).lt _ hmem)
    · exact h.marks .main
  · by_cases hj : j = i
    · subst hj
      rw [Function.update_self] at hne
      rwa [if_neg hne]
    · rw [Function.update_of_ne hj] at hne
      have hj' := h.sub .main j hne
      split
      · exact Finset.mem_erase.mpr ⟨hj, hj'⟩
      · exact hj'
  · split at hj
    · exact h.within .main j (Finset.mem_of_mem_erase hj)
    · exact h.within .main j hj

/-- **The bucket that `ffs` found**, once its queue is the main queue. -/
lemma served (h : Marked cfg e S) (hffs : e.ffs = some (i, q.num)) :
    i ∈ S q ∧ Marked cfg (e.front cfg q) (frontOf S q) ∧
      Service (e.front cfg q) i ((e.front cfg q).serve cfg i) := by
  have hfront := h.front q
  exact ⟨(h.ffs_least hffs).1, hfront, serve_spec cfg (hfront.counted .main i)⟩

end Marked

/-! ### Initialisation -/

/-- The module after `Init`. -/
def Initial (cfg : SlotConfig) (e : Eiffel) : Prop :=
  ∃ now pktsNum flowToGen flowInfo pktgen,
    init cfg now pktsNum flowToGen flowInfo pktgen = some e

/-- After `Init` no bit is set. -/
lemma init_marked (h : Initial cfg e) : Marked cfg e fun _ => ∅ := by
  obtain ⟨now, pktsNum, flowToGen, flowInfo, pktgen, h⟩ := h
  rw [init, Option.map_eq_some_iff] at h
  obtain ⟨map, hmap, rfl⟩ := h
  refine ⟨fun q => ?_, fun q i hne => ?_, fun q i => ?_, rfl, by simp⟩
  · cases q <;> exact BitMap.new_marks cfg.slots_pos hmap
  · cases q <;> exact absurd rfl hne
  · cases q <;> exact rfl

end Eiffel

end Bess
