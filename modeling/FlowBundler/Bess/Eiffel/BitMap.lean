import FlowBundler.Bess.Eiffel.Sched
import FlowBundler.Lib.Layers

/-!
The layered bitmaps of `flow.h` as sets of slots.

* `BitMap.bit`: the bit of a slot in the last layer.
* `Marks slots map F`: every layer of `map` is right for the set `F` of slots.
* `Marks.set`, `Marks.free`: `SetBitMap` adds a slot, `FreeBitMap` takes one away.
* `Marks.root_ne_zero_iff`, `Marks.firstIndex`: the root tells whether a slot is set, and the
  descent of `ffs` finds the least one.
* `new_marks`: a new map is empty.

The layers are the words of `Lib.Layers`, one layer a height.  Both loops go from the last layer up,
and stop at a word that was not `0` before a bit was set, or is not `0` after one was cleared; the
invariant of a loop (`Split`) is that the layers it has passed are right for the new set and the
others for the old one.  When it stops early, the word above the slot has another member below it,
and then the layers above are right for both sets.  The descent keeps to the words above the least
member, each of which has its lowest bit on the way to it.
-/

namespace Bess

namespace BitMap

open Dyadic Layers

/-- The bit of slot `i` in the last layer. -/
def bit (map : BitMap) (i : ℕ) : Bool := (map.bitMap (map.nLayers - 1) (i / 64)).testBit (i % 64)

/-- The layers of the map are right for the set `F` of slots. -/
structure Marks (slots : ℕ) (map : BitMap) (F : Finset ℕ) : Prop where
  layers_pos : 0 < map.nLayers
  layers_le : map.nLayers ≤ 10
  slots_le : slots ≤ 64 ^ map.nLayers
  lt : ∀ i ∈ F, i < slots
  bits : ∀ l < map.nLayers, ∀ p, BitOk 64 F (map.nLayers - 1 - l) p (map.bitMap l p)

variable {slots index : ℕ} {map : BitMap} {F : Finset ℕ}

/-! ### Places -/

/-- The place of a bit is its quotient and its remainder. -/
lemma place_eq {n : ℕ} (hn : n + 1 < 2 ^ 64) : place n = (n / 64, n % 64) := by
  have hand : (n + 1) &&& 63 = (n + 1) % 64 := Nat.and_two_pow_sub_one_eq_mod (n + 1) 6
  have hshift : (n + 1) >>> 6 = (n + 1) / 64 := Nat.shiftRight_eq_div_pow (n + 1) 6
  rw [place, Nat.mod_eq_of_lt hn]
  simp only [hand, hshift]
  split
  · rename_i htail
    refine Prod.ext ?_ ?_
    · dsimp only
      omega
    · dsimp only
      omega
  · rename_i htail
    refine Prod.ext ?_ ?_
    · dsimp only
      omega
    · dsimp only
      omega

lemma setWord_self (m : ℕ → ℕ → ℕ) (i k word : ℕ) : setWord m i k word i k = word := by
  rw [setWord, Function.update_self, Function.update_self]

lemma setWord_of_ne (m : ℕ → ℕ → ℕ) {i k : ℕ} (word : ℕ) {l p : ℕ} (h : l ≠ i ∨ p ≠ k) :
    setWord m i k word l p = m l p := by
  rw [setWord]
  by_cases hl : l = i
  · subst hl
    rw [Function.update_self, Function.update_of_ne (h.resolve_left (fun hne => hne rfl))]
  · rw [Function.update_of_ne hl]

/-! ### The loops -/

/-- The layers from `i` on are right for `G`, the ones above for `F`. -/
def Split (n i : ℕ) (F G : Finset ℕ) (m : ℕ → ℕ → ℕ) : Prop :=
  ∀ l < n, ∀ p, BitOk 64 (if l < i then F else G) (n - 1 - l) p (m l p)

/-- A loop may stop when the layers above do not see the change. -/
lemma Split.stop {n i : ℕ} {G : Finset ℕ} {m : ℕ → ℕ → ℕ} (h : Split n i F G m)
    (hsame : ∀ l < i, l < n → ∀ p a, BitOk 64 F (n - 1 - l) p a → BitOk 64 G (n - 1 - l) p a) :
    Split n 0 F G m := by
  intro l hl p
  have hbits := h l hl p
  rw [if_neg (Nat.not_lt_zero l)]
  split at hbits
  · rename_i hlt
    exact hsame l hlt hl p _ hbits
  · exact hbits

/-- One more layer is right. -/
lemma Split.layer {n i k word : ℕ} {G : Finset ℕ} {m : ℕ → ℕ → ℕ} (h : Split n (i + 1) F G m)
    (hself : BitOk 64 G (n - 1 - i) k word)
    (hne : ∀ p a, p ≠ k → BitOk 64 F (n - 1 - i) p a → BitOk 64 G (n - 1 - i) p a) :
    Split n i F G (setWord m i k word) := by
  intro l hl p
  have hbits := h l hl p
  rcases lt_trichotomy l i with hlt | heq | hlt
  · rw [if_pos hlt, setWord_of_ne m word (.inl hlt.ne)]
    rwa [if_pos (by omega)] at hbits
  · subst heq
    rw [if_neg (lt_irrefl l)]
    rw [if_pos (Nat.lt_succ_self l)] at hbits
    by_cases hp : p = k
    · subst hp
      rw [setWord_self]
      exact hself
    · rw [setWord_of_ne m word (.inr hp)]
      exact hne p _ hp hbits
  · rw [if_neg (by omega), setWord_of_ne m word (.inl hlt.ne')]
    rwa [if_neg (by omega)] at hbits

/-- The place of a slot in a layer. -/
lemma place_layer {n i : ℕ} (hi : i + 1 ≤ n) (hindex : index + 1 < 2 ^ 64) :
    place (index / 64 ^ (n - (i + 1)))
      = (index / 64 ^ (n - i), index / 64 ^ (n - 1 - i) % 64) := by
  have hle : index / 64 ^ (n - (i + 1)) ≤ index := Nat.div_le_self _ _
  rw [place_eq (by omega), Nat.div_div_eq_div_mul, ← pow_succ,
    show n - (i + 1) + 1 = n - i by omega, show n - (i + 1) = n - 1 - i by omega]

/-- The loop of `SetBitMap`, by induction on the layers that are left. -/
lemma setLoop_split {n : ℕ} (hindex : index + 1 < 2 ^ 64) : ∀ i ≤ n, ∀ m : ℕ → ℕ → ℕ,
    Split n i F (insert index F) m →
      Split n 0 F (insert index F) (setLoop i (index / 64 ^ (n - i)) m) := by
  intro i
  induction i with
  | zero => exact fun _ m h => h
  | succ i ih =>
      intro hi m h
      have hheight : n - i = n - 1 - i + 1 := by omega
      have hbits := h i (by omega)
      simp only [if_pos (Nat.lt_succ_self i)] at hbits
      have hlayer : Split n i F (insert index F) (setWord m i (index / 64 ^ (n - i))
          (m i (index / 64 ^ (n - i)) ||| 1 <<< (index / 64 ^ (n - 1 - i) % 64))) := by
        refine h.layer ?_ fun p a hp ha => ?_
        · have hself := hbits (index / 64 ^ (n - i))
          rw [hheight] at hself ⊢
          exact hself.insert_self (by norm_num)
        · rw [hheight] at hp
          exact ha.insert_of_ne (by norm_num) hp.symm
      rw [setLoop, place_layer hi hindex]
      dsimp only
      split
      · exact ih (by omega) _ hlayer
      · rename_i hold
        -- the word had a member below it, so that the layers above have the bits already
        refine hlayer.stop fun l hl _ p a ha => ha.insert_of_mem ?_
        have hmem := ((hbits _).ne_zero_iff (by norm_num)).mp hold
        rw [← hheight] at hmem
        exact mem_above (by omega) hmem

/-- The loop of `FreeBitMap`, by induction on the layers that are left. -/
lemma freeLoop_split {n : ℕ} (hindex : index + 1 < 2 ^ 64) :
    ∀ i ≤ n, ∀ m : ℕ → ℕ → ℕ, Split n i F (F.erase index) m →
      (¬ ∃ y ∈ F.erase index, y / 64 ^ (n - i) = index / 64 ^ (n - i)) →
      Split n 0 F (F.erase index) (freeLoop i (index / 64 ^ (n - i)) m) := by
  intro i
  induction i with
  | zero => exact fun _ m h _ => h
  | succ i ih =>
      intro hi m h hno
      have hheight : n - i = n - 1 - i + 1 := by omega
      have hbits := h i (by omega)
      simp only [if_pos (Nat.lt_succ_self i)] at hbits
      have hself : BitOk 64 (F.erase index) (n - 1 - i) (index / 64 ^ (n - i))
          (m i (index / 64 ^ (n - i)) &&&
            (2 ^ 64 - 1 - 1 <<< (index / 64 ^ (n - 1 - i) % 64))) := by
        have hword := hbits (index / 64 ^ (n - i))
        rw [hheight] at hword ⊢
        refine hword.erase_self (by norm_num) (by norm_num) ?_
        rwa [show n - (i + 1) = n - 1 - i by omega] at hno
      have hlayer := h.layer hself fun p a hp ha => by
        rw [hheight] at hp
        exact ha.erase_of_ne (by norm_num) hp.symm
      have hzero := hself.ne_zero_iff (by norm_num)
      rw [← hheight] at hzero
      rw [freeLoop, place_layer hi hindex]
      dsimp only
      split
      · rename_i hne
        refine hlayer.stop fun l hl _ p a ha => ha.erase_of_mem ?_
        exact mem_above (by omega) (hzero.mp hne)
      · rename_i hne
        exact ih (by omega) _ hlayer fun hex => hne (hzero.mpr hex)

namespace Marks

/-! ### The operations -/

lemma lt_two_pow (h : Marks slots map F) : slots ≤ 2 ^ 60 := by
  calc slots ≤ 64 ^ map.nLayers := h.slots_le
    _ ≤ 64 ^ 10 := Nat.pow_le_pow_right (by norm_num) h.layers_le
    _ = 2 ^ 60 := by norm_num

/-- **`SetBitMap`** adds a slot. -/
theorem set (h : Marks slots map F) (hindex : index < slots) :
    Marks slots (map.setBitMap index) (insert index F) := by
  have hslots := h.lt_two_pow
  have hloop := @setLoop_split index F map.nLayers (by omega) map.nLayers le_rfl map.bitMap
    fun l hl p => by
      rw [if_pos hl]
      exact h.bits l hl p
  rw [Nat.sub_self, pow_zero, Nat.div_one] at hloop
  refine ⟨h.layers_pos, h.layers_le, h.slots_le, fun i hi => ?_, fun l hl p => ?_⟩
  · rcases Finset.mem_insert.mp hi with rfl | hi
    · exact hindex
    · exact h.lt i hi
  · have hbits := hloop l hl p
    rwa [if_neg (Nat.not_lt_zero l)] at hbits

/-- **`FreeBitMap`** takes a slot away, if it is there. -/
theorem free (h : Marks slots map F) (hindex : index < slots) :
    Marks slots (map.freeBitMap index) (F.erase index) := by
  have hslots := h.lt_two_pow
  have hloop := @freeLoop_split index F map.nLayers (by omega) map.nLayers le_rfl map.bitMap
    (fun l hl p => by
      rw [if_pos hl]
      exact h.bits l hl p)
    (by
      rw [Nat.sub_self, pow_zero]
      rintro ⟨y, hy, hq⟩
      rw [Nat.div_one, Nat.div_one] at hq
      exact Finset.ne_of_mem_erase hy hq)
  rw [Nat.sub_self, pow_zero, Nat.div_one] at hloop
  refine ⟨h.layers_pos, h.layers_le, h.slots_le, fun i hi => h.lt i (Finset.mem_of_mem_erase hi),
    fun l hl p => ?_⟩
  have hbits := hloop l hl p
  rwa [if_neg (Nat.not_lt_zero l)] at hbits

/-! ### Reading the map -/

/-- The bits of the last layer are the set. -/
lemma bit_iff (h : Marks slots map F) (i : ℕ) : map.bit i = true ↔ i ∈ F := by
  have hlast := h.bits (map.nLayers - 1) (by have := h.layers_pos; omega) (i / 64) (i % 64)
  rw [Nat.sub_self, pow_zero] at hlast
  rw [bit, hlast]
  constructor
  · rintro ⟨-, x, hx, hq⟩
    rw [Nat.div_one, Nat.div_add_mod] at hq
    exact hq ▸ hx
  · intro hi
    exact ⟨Nat.mod_lt _ (by norm_num), i, hi, by rw [Nat.div_one, Nat.div_add_mod]⟩

lemma lt_pow (h : Marks slots map F) {i : ℕ} (hi : i ∈ F) : i < 64 ^ map.nLayers :=
  lt_of_lt_of_le (h.lt i hi) h.slots_le

/-- The root tells whether a slot is set. -/
lemma root_ne_zero_iff (h : Marks slots map F) : map.bitMap 0 0 ≠ 0 ↔ F.Nonempty := by
  have hpos := h.layers_pos
  rw [(h.bits 0 hpos 0).ne_zero_iff (by norm_num)]
  refine exists_congr fun x => and_iff_left_of_imp fun hx => ?_
  rw [show map.nLayers - 1 - 0 + 1 = map.nLayers by omega]
  exact Nat.div_eq_of_lt (h.lt_pow hx)

/-- The unsigned sum that `ffs` makes of a word and of the bit it found. -/
lemma word_sum {a b c : ℕ} (h : 64 * a + c = b) (hb : b < 2 ^ 60) :
    (c + 1 + 2 ^ 64 - 1 + a * 2 ^ 6) % 2 ^ 64 = b := by omega

/-- The lowest bit of the word above the least slot leads to it. -/
lemma ffsll_eq (h : Marks slots map F) {m : ℕ} (hm : m ∈ F) (hleast : ∀ y ∈ F, m ≤ y) {l : ℕ}
    (hl : l < map.nLayers) :
    (ffsll (map.bitMap l (m / 64 ^ (map.nLayers - l))) + 2 ^ 64 - 1
      + (m / 64 ^ (map.nLayers - l)) <<< 6) % 2 ^ 64 = m / 64 ^ (map.nLayers - (l + 1)) := by
  have hbits := h.bits l hl (m / 64 ^ (map.nLayers - l))
  have hheight : map.nLayers - 1 - l + 1 = map.nLayers - l := by omega
  have hne := (hbits.ne_zero_iff (by norm_num)).mpr ⟨m, hm, by rw [hheight]⟩
  have hfirst := hbits.first_eq (by norm_num) (by norm_num) hm hleast (by rw [hheight])
  have hlt : m / 64 ^ (map.nLayers - 1 - l) < 2 ^ 60 := by
    calc m / 64 ^ (map.nLayers - 1 - l) ≤ m := Nat.div_le_self _ _
      _ < slots := h.lt m hm
      _ ≤ 2 ^ 60 := h.lt_two_pow
  have hbelow : map.nLayers - (l + 1) = map.nLayers - 1 - l := by omega
  rw [ffsll, if_neg hne, Nat.shiftLeft_eq, hbelow]
  exact word_sum hfirst hlt

/-- The descent of `ffs`, by induction on the layers that are left. -/
lemma descend_eq (h : Marks slots map F) {m : ℕ} (hm : m ∈ F) (hleast : ∀ y ∈ F, m ≤ y) :
    ∀ k i, k + (i + 1) = map.nLayers →
      map.descend k (i + 1) (m / 64 ^ (map.nLayers - i))
        (ffsll (map.bitMap i (m / 64 ^ (map.nLayers - i)))) = m := by
  intro k
  induction k with
  | zero =>
      intro i hi
      have hlast : map.nLayers - (i + 1) = 0 := by omega
      rw [descend, h.ffsll_eq hm hleast (by omega), hlast, pow_zero, Nat.div_one]
  | succ k ih =>
      intro i hi
      have hnext := h.ffsll_eq hm hleast (show i < map.nLayers by omega)
      rw [descend, hnext]
      exact ih (i + 1) (by omega)

/-- **`ffs`** finds the least slot of the map. -/
theorem firstIndex (h : Marks slots map F) (hne : F.Nonempty) : map.firstIndex = F.min' hne := by
  have hpos := h.layers_pos
  have hm := F.min'_mem hne
  have hroot : F.min' hne / 64 ^ (map.nLayers - 0) = 0 := Nat.div_eq_of_lt (h.lt_pow hm)
  have hdesc := h.descend_eq hm (fun y hy => F.min'_le y hy) (map.nLayers - 1) 0 (by omega)
  rw [hroot] at hdesc
  exact hdesc

end Marks

/-! ### A new map -/

/-- When the loop of the constructor ends, `tmp` is not below the number of slots. -/
lemma layersLoop_le {n : ℕ} : ∀ fuel k, layersLoop slots fuel (64 ^ k % 2 ^ 64) k = some n →
    slots ≤ 64 ^ n % 2 ^ 64 := by
  intro fuel
  induction fuel with
  | zero => exact fun _ h => absurd h (by simp [layersLoop])
  | succ fuel ih =>
      intro k h
      rw [layersLoop] at h
      split at h
      · rw [Nat.mod_mul_mod, ← pow_succ] at h
        exact ih (k + 1) h
      · rename_i hle
        obtain rfl := Option.some.inj h
        exact not_lt.mp hle

/-- **A new map** is empty. -/
theorem new_marks (hpos : 0 < slots) (h : new slots = some map) : Marks slots map ∅ := by
  rw [new, Option.map_eq_some_iff] at h
  obtain ⟨n, hn, rfl⟩ := h
  rw [layers, Option.map_eq_some_iff] at hn
  obtain ⟨k, hk, rfl⟩ := hn
  have hle := layersLoop_le 12 0 hk
  have hk10 : k ≤ 10 := by
    by_contra hgt
    have hdvd : 2 ^ 64 ∣ 64 ^ k := by
      calc (2 : ℕ) ^ 64 ∣ 2 ^ 66 := Nat.pow_dvd_pow 2 (by norm_num)
        _ = 64 ^ 11 := by norm_num
        _ ∣ 64 ^ k := Nat.pow_dvd_pow 64 (by omega)
    rw [Nat.mod_eq_zero_of_dvd hdvd] at hle
    omega
  have hslots : slots ≤ 64 ^ k := hle.trans (Nat.mod_le _ _)
  refine ⟨?_, ?_, ?_, by simp, fun l _ p => .empty _ _ _⟩
  · dsimp only
    split
    · exact Nat.succ_pos _
    · rename_i hone
      refine Nat.pos_of_ne_zero fun hzero => ?_
      rw [hzero, pow_zero] at hslots
      omega
  · dsimp only
    split
    · rename_i hone
      -- one slot needs no round of the loop
      rw [hone] at hk
      simp [layersLoop] at hk
      omega
    · exact hk10
  · dsimp only
    split
    · exact hslots.trans (Nat.pow_le_pow_right (by norm_num) (Nat.le_succ k))
    · exact hslots

end BitMap

end Bess
