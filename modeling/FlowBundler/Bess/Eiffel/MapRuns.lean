import FlowBundler.Bess.Eiffel.BitMap

/-!
The layered bitmaps over all sequences of `SetBitMap` and `FreeBitMap`.

* `layersLoop_returns`: the constructor ends for every number of slots up to `2 ^ 60`.
* `MapOp`, `BitMap.run`: the calls, in any order and with repetitions; `SetSince ops i`: the slot
  `i` was set and not freed since.
* `marks_run`: the layers stay right for the slots that are set.
* `BitMap.first`: what `ffs` finds in a map, `Eiffel.ffs_eq`.
* `Represents slots map ops`: the map after the calls `ops`; `bitMap_represents`.

The set after the calls is a fold over them, and the slots of that set are those of `SetSince` by
induction on the calls from the last one backwards, since the last call about a slot decides.  The
layers stay right by one step lemma for each call.  What `Represents` says of the words of the
layers, bit by bit, is read off the definition of a right word in `Lib.Layers`.
-/

namespace Bess

open Dyadic Layers

/-- A call on a bitmap. -/
inductive MapOp where
  | set (index : ℕ)
  | free (index : ℕ)

namespace MapOp

def index : MapOp → ℕ
  | .set index => index
  | .free index => index

def apply (map : BitMap) : MapOp → BitMap
  | .set index => map.setBitMap index
  | .free index => map.freeBitMap index

/-- What a call does to the set of slots. -/
def member (F : Finset ℕ) : MapOp → Finset ℕ
  | .set index => insert index F
  | .free index => F.erase index

/-- The slot `i` was set by one of the calls, and by none of the later ones freed. -/
def SetSince (ops : List MapOp) (i : ℕ) : Prop :=
  ∃ before after, ops = before ++ .set i :: after ∧ .free i ∉ after

/-- The slots that are set after the calls. -/
def members (ops : List MapOp) : Finset ℕ := ops.foldl member ∅

variable {ops : List MapOp} {i : ℕ}

lemma not_setSince_nil (i : ℕ) : ¬ SetSince [] i := by
  rintro ⟨before, after, h, -⟩
  simp at h

/-- The last call decides, unless it is about another slot. -/
lemma setSince_snoc (op : MapOp) :
    SetSince (ops ++ [op]) i ↔ op = .set i ∨ op ≠ .free i ∧ SetSince ops i := by
  constructor
  · rintro ⟨before, after, h, hfree⟩
    rcases List.eq_nil_or_concat after with rfl | ⟨after, last, rfl⟩
    · obtain ⟨-, h⟩ := List.append_inj' h rfl
      exact .inl (List.singleton_inj.mp h)
    · rw [List.concat_eq_append] at h hfree
      rw [← List.cons_append, ← List.append_assoc] at h
      obtain ⟨hops, hop⟩ := List.append_inj' h rfl
      obtain rfl := List.singleton_inj.mp hop
      rw [List.mem_append, List.mem_singleton, not_or] at hfree
      exact .inr ⟨fun hop => hfree.2 hop.symm, before, after, hops, hfree.1⟩
  · rintro (rfl | ⟨hop, before, after, rfl, hfree⟩)
    · exact ⟨ops, [], rfl, by simp⟩
    · refine ⟨before, after ++ [op], by simp, ?_⟩
      rw [List.mem_append, List.mem_singleton, not_or]
      exact ⟨hfree, fun h => hop h.symm⟩

/-- By induction on the calls, the last one first. -/
lemma mem_members_iff : i ∈ members ops ↔ SetSince ops i := by
  induction ops using List.reverseRecOn with
  | nil => exact iff_of_false (by simp [members]) (not_setSince_nil i)
  | append_singleton ops op ih =>
      rw [setSince_snoc, ← ih, members, List.foldl_append, List.foldl_cons, List.foldl_nil,
        ← members]
      cases op with
      | set index => simp [member, eq_comm]
      | free index => simp [member, eq_comm]

end MapOp

open MapOp

namespace BitMap

variable {slots : ℕ} {map : BitMap} {F : Finset ℕ}

/-! ### The constructor -/

/-- The loop of the constructor ends after at most ten rounds, by induction on the rounds that
are left of these. -/
lemma layersLoop_returns (hle : slots ≤ 2 ^ 60) (left : ℕ) : ∀ {k fuel : ℕ}, k + left = 10 →
    left < fuel → ∃ n, layersLoop slots fuel (64 ^ k % 2 ^ 64) k = some n := by
  induction left with
  | zero =>
      rintro k (_ | fuel) hk hfuel
      · omega
      · obtain rfl : k = 10 := hk
        refine ⟨10, ?_⟩
        rw [layersLoop, if_neg (not_lt.mpr (hle.trans (by norm_num)))]
  | succ left ih =>
      rintro k (_ | fuel) hk hfuel
      · omega
      · rw [layersLoop]
        by_cases hgt : slots > 64 ^ k % 2 ^ 64
        · rw [if_pos hgt, Nat.mod_mul_mod, ← pow_succ]
          exact ih (by omega) (by omega)
        · exact ⟨k, if_neg hgt⟩

/-- **The constructor** returns. -/
lemma new_returns (hle : slots ≤ 2 ^ 60) : ∃ map, new slots = some map := by
  obtain ⟨n, hn⟩ := @layersLoop_returns slots hle 10 0 12 rfl (by norm_num)
  rw [pow_zero, Nat.mod_eq_of_lt (by norm_num)] at hn
  exact ⟨_, by rw [new, layers, hn]; rfl⟩

/-! ### The calls -/

/-- The map after the calls. -/
def run (map : BitMap) (ops : List MapOp) : BitMap := ops.foldl apply map

/-- One call. -/
lemma Marks.call (h : Marks slots map F) {op : MapOp} (hop : op.index < slots) :
    Marks slots (op.apply map) (op.member F) := by
  cases op with
  | set index => exact h.set hop
  | free index => exact h.free hop

/-- **Every sequence of calls** leaves the layers right for the slots that are set. -/
lemma marks_run {ops : List MapOp} : ∀ {map : BitMap} {F : Finset ℕ}, Marks slots map F →
    (∀ op ∈ ops, op.index < slots) → Marks slots (map.run ops) (ops.foldl member F) := by
  induction ops with
  | nil => exact fun h _ => h
  | cons op ops ih =>
      intro map F h hops
      exact ih (h.call (hops op List.mem_cons_self))
        fun op' hop' => hops op' (List.mem_cons_of_mem op hop')

/-! ### Reading the map -/

/-- What `ffs` finds in one of its maps. -/
def first (map : BitMap) : Option ℕ := if map.bitMap 0 0 ≠ 0 then some map.firstIndex else none

/-- The descent of `ffs` finds the least slot, and nothing exactly in an empty map. -/
lemma Marks.first_eq (h : Marks slots map F) (i : ℕ) :
    map.first = some i ↔ IsLeast (F : Set ℕ) i := by
  by_cases hne : F.Nonempty
  · rw [first, if_pos (h.root_ne_zero_iff.mpr hne), h.firstIndex hne, Option.some.injEq]
    constructor
    · rintro rfl
      exact F.isLeast_min' hne
    · exact fun hleast => (F.isLeast_min' hne).unique hleast
  · rw [first, if_neg fun hroot => hne (h.root_ne_zero_iff.mp hroot)]
    exact iff_of_false (by simp) fun hleast => hne ⟨i, hleast.1⟩

lemma Marks.first_eq_none (h : Marks slots map F) : map.first = none ↔ F = ∅ := by
  rw [first, ← Finset.not_nonempty_iff_eq_empty, ← h.root_ne_zero_iff]
  by_cases hroot : map.bitMap 0 0 ≠ 0
  · rw [if_pos hroot]
    simp [hroot]
  · rw [if_neg hroot]
    simp [hroot]

/-- A bit says whether the word below it is not `0`. -/
lemma Marks.testBit_iff (h : Marks slots map F) {l p j : ℕ} (hl : l + 1 < map.nLayers)
    (hj : j < 64) : (map.bitMap l p).testBit j = true ↔ map.bitMap (l + 1) (64 * p + j) ≠ 0 := by
  have hbelow := (h.bits (l + 1) hl (64 * p + j)).ne_zero_iff (by norm_num)
  rw [show map.nLayers - 1 - (l + 1) + 1 = map.nLayers - 1 - l by omega] at hbelow
  rw [hbelow, h.bits l (by omega) p]
  exact and_iff_right hj

/-- A word has 64 bits. -/
lemma Marks.word_lt (h : Marks slots map F) {l : ℕ} (hl : l < map.nLayers) (p : ℕ) :
    map.bitMap l p < 2 ^ 64 := by
  refine Nat.lt_pow_two_of_testBit _ fun j hj => ?_
  by_contra hbit
  rw [Bool.not_eq_false] at hbit
  exact absurd ((h.bits l hl p j).mp hbit).1 (by omega)

/-- Nothing is written beyond the `64 ^ l` words of a layer. -/
lemma Marks.outside (h : Marks slots map F) {l p : ℕ} (hl : l < map.nLayers) (hp : 64 ^ l ≤ p) :
    map.bitMap l p = 0 := by
  by_contra hne
  obtain ⟨x, hx, hq⟩ := ((h.bits l hl p).ne_zero_iff (by norm_num)).mp hne
  have hlt : x < 64 ^ l * 64 ^ (map.nLayers - 1 - l + 1) := by
    rw [← pow_add, show l + (map.nLayers - 1 - l + 1) = map.nLayers by omega]
    exact h.lt_pow hx
  have hdiv := Nat.div_lt_of_lt_mul (Nat.mul_comm _ _ ▸ hlt)
  omega

/-! ### The map after the calls -/

/-- The map has come to represent the slots that the calls have set and not freed since. -/
structure Represents (slots : ℕ) (map : BitMap) (ops : List MapOp) : Prop where
  bits : ∀ i < slots, map.bit i = true ↔ SetSince ops i
  layers : ∀ l, l + 1 < map.nLayers → ∀ p, ∀ j < 64,
    (map.bitMap l p).testBit j = true ↔ map.bitMap (l + 1) (64 * p + j) ≠ 0
  words : ∀ l < map.nLayers, ∀ p, map.bitMap l p < 2 ^ 64
  outside : ∀ l < map.nLayers, ∀ p, 64 ^ l ≤ p → map.bitMap l p = 0
  least : ∀ i, map.first = some i ↔ IsLeast {j | SetSince ops j} i
  empty : map.first = none ↔ ∀ i, ¬ SetSince ops i

lemma Marks.represents {ops : List MapOp} (h : Marks slots map (members ops)) :
    Represents slots map ops where
  bits := fun i _ => (h.bit_iff i).trans mem_members_iff
  layers := fun l hl p j hj => h.testBit_iff hl hj
  words := fun l hl p => h.word_lt hl p
  outside := fun l hl p hp => h.outside hl hp
  least := fun i => by
    have hset : {j | SetSince ops j} = (members ops : Set ℕ) := by
      ext j
      exact mem_members_iff.symm
    rw [h.first_eq, hset]
  empty := by
    rw [h.first_eq_none, Finset.eq_empty_iff_forall_notMem]
    exact forall_congr' fun i => not_congr mem_members_iff

end BitMap

/-- `ffs` looks into the main map first. -/
lemma Eiffel.ffs_eq (e : Eiffel) :
    e.ffs = (e.mainMap.first.map (·, 0)).or (e.bufferMap.first.map (·, 1)) := by
  rw [Eiffel.ffs, BitMap.first, BitMap.first]
  by_cases hmain : e.mainMap.bitMap 0 0 ≠ 0
  · rw [if_pos hmain, if_pos hmain]
    rfl
  · rw [if_neg hmain, if_neg hmain]
    by_cases hbuffer : e.bufferMap.bitMap 0 0 ≠ 0
    · rw [if_pos hbuffer, if_pos hbuffer]
      rfl
    · rw [if_neg hbuffer, if_neg hbuffer]
      rfl

/-- What `ffs` answers when its maps have come from the calls `ops` and `ops'`. -/
structure Finds (e : Eiffel) (ops ops' : List MapOp) : Prop where
  main : ∀ i, e.ffs = some (i, 0) ↔ IsLeast {j | SetSince ops j} i
  buffer : ∀ i, e.ffs = some (i, 1) ↔ (∀ j, ¬ SetSince ops j) ∧ IsLeast {j | SetSince ops' j} i
  empty : e.ffs = none ↔ (∀ j, ¬ SetSince ops j) ∧ ∀ j, ¬ SetSince ops' j

lemma BitMap.Represents.finds {slots : ℕ} {e : Eiffel} {ops ops' : List MapOp}
    (hmain : Represents slots e.mainMap ops) (hbuffer : Represents slots e.bufferMap ops') :
    Finds e ops ops' := by
  refine ⟨fun i => ?_, fun i => ?_, ?_⟩
  · rw [← hmain.least, e.ffs_eq]
    cases e.mainMap.first <;> cases e.bufferMap.first <;> simp
  · rw [← hmain.empty, ← hbuffer.least, e.ffs_eq]
    cases e.mainMap.first <;> cases e.bufferMap.first <;> simp
  · rw [← hmain.empty, ← hbuffer.empty, e.ffs_eq]
    cases e.mainMap.first <;> cases e.bufferMap.first <;> simp

/-- **The layered bitmap** represents, after any calls on slots below `slots`, exactly the slots
set and not freed since; `ffs` finds the least one, the main map's before the buffer map's. -/
theorem bitMap_represents {slots : ℕ} (hpos : 1 ≤ slots) (hle : slots ≤ 2 ^ 60) :
    ∃ map, BitMap.new slots = some map ∧
      (∀ ops : List MapOp, (∀ op ∈ ops, op.index < slots) →
        BitMap.Represents slots (map.run ops) ops) ∧
      ∀ (e : Eiffel) (ops ops' : List MapOp), (∀ op ∈ ops, op.index < slots) →
        (∀ op ∈ ops', op.index < slots) → e.mainMap = map.run ops → e.bufferMap = map.run ops' →
        Finds e ops ops' := by
  obtain ⟨map, hnew⟩ := BitMap.new_returns hle
  have hrun : ∀ ops : List MapOp, (∀ op ∈ ops, op.index < slots) →
      BitMap.Represents slots (map.run ops) ops := fun ops hops =>
    (BitMap.marks_run (BitMap.new_marks hpos hnew) hops).represents
  refine ⟨map, hnew, hrun, fun e ops ops' hops hops' hmain hbuffer => ?_⟩
  have hrepresents := hrun ops hops
  have hrepresents' := hrun ops' hops'
  rw [← hmain] at hrepresents
  rw [← hbuffer] at hrepresents'
  exact hrepresents.finds hrepresents'

/-- A map of a hundred slots, the seventieth set twice and the third set and freed. -/
theorem bitMap_represents_run :
    ∃ map, BitMap.new 100 = some map ∧
      (map.run [.set 70, .set 3, .free 3, .set 70]).first = some 70 := by
  obtain ⟨map, hnew, hrun, -⟩ := @bitMap_represents 100 (by norm_num) (by norm_num)
  refine ⟨map, hnew, ((hrun [.set 70, .set 3, .free 3, .set 70] ?_).least 70).mpr ?_⟩
  · simp [index]
  · have hset : {j | SetSince [.set 70, .set 3, .free 3, .set 70] j} = {70} := by
      ext j
      change SetSince _ j ↔ _
      rw [← mem_members_iff]
      simp [members, member]
    rw [hset]
    exact isLeast_singleton

end Bess
