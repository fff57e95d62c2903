import Mathlib.Tactic

/-!
The offsets of packet metadata (`metadata.cc`): each scope component, an attribute with the modules
in which its value is alive, gets an offset in the metadata area of a packet.

* `ScopeComponent`, `computeNextOffset`, `place`, `assignOffsets`: the model.  The offsets are
  `int8_t`, and the queue of the components is any order by their offsets.
* `Nested`: two components that share a module with a third share one, or have the same size.
* **One offset.** `place` goes through the neighbours of a component by their offsets and takes the
  first gap.  `place_spec`, by induction on them, needs the ends of the neighbours in the same order
  as their offsets (`Ordered`).  A neighbour without room behind it ends far from the start, and the
  loop goes on with the code for this as its offset; no later neighbour is so near the start that
  the code would be taken for a gap before it (`place_noSpace`).
* **All offsets.** `Good`: what was given so far leaves room, and is apart from what it shares a
  module with.  Two neighbours of a component that do not share a module have the same size, so
  their ends are in order even if they overlap (`Good.ordered`).  `Good.assign` is the induction on
  the rounds.
* `assignOffsets_apart`: the components that share a module get disjoint offsets.  Without `Nested`
  two may overlap, as the last example shows.
-/

namespace Bess

/-! ### Data -/

/-- `ScopeComponent`, as far as the offsets go. -/
structure ScopeComponent where
  size : ℕ
  modules : List ℕ
  offset : ℤ
  assigned : Bool
  invalid : Bool

/-- `kMetadataTotalSize`. -/
def kMetadataTotalSize : ℕ := 128

/-- `kMetadataAttrMaxSize`. -/
def kMetadataAttrMaxSize : ℕ := 32

/-- `kMetadataOffsetNoWrite`. -/
def kMetadataOffsetNoWrite : ℤ := -1

/-- `kMetadataOffsetNoRead`. -/
def kMetadataOffsetNoRead : ℤ := -2

/-- `kMetadataOffsetNoSpace`. -/
def kMetadataOffsetNoSpace : ℤ := -3

/-- A value as `mt_offset_t`. -/
def toOffset (x : ℤ) : ℤ := (x + 128) % 256 - 128

/-- `align_ceil_pow2`. -/
def alignCeilPow2 (v : ℕ) : ℕ :=
  let v := v - 1
  let v := v ||| (v >>> 1)
  let v := v ||| (v >>> 2)
  let v := v ||| (v >>> 4)
  let v := v ||| (v >>> 8)
  let v := v ||| (v >>> 16)
  let v := v ||| (v >>> 32)
  v + 1

/-- `align_ceil`, for a power of two. -/
def alignCeil (v align : ℤ) : ℤ := (v + align - 1) / align * align

/-- `ComputeNextOffset`. -/
def computeNextOffset (currOffset : ℤ) (size : ℕ) : ℤ :=
  let currOffset := toOffset currOffset
  let roundedSize := toOffset (alignCeilPow2 size)
  let currOffset :=
    if currOffset % roundedSize ≠ 0 then toOffset (alignCeil currOffset roundedSize)
    else currOffset
  let overflow : ℤ := (currOffset % (2 ^ 32 : ℤ) + size) % (2 ^ 32 : ℤ)
  if (kMetadataTotalSize : ℤ) < overflow then kMetadataOffsetNoSpace else currOffset

namespace ScopeComponent

/-- `DisjointFrom`. -/
def disjointFrom (c d : ScopeComponent) : Bool := c.modules.all fun m => !d.modules.contains m

/-- The end of its bytes. -/
def stop (c : ScopeComponent) : ℤ := c.offset + c.size

/-- The loop over the components that share a module, the lowest offset first. -/
def place (size : ℕ) : ℤ → List ScopeComponent → ℤ
  | offset, [] => offset
  | offset, c :: rest =>
      if c.offset = kMetadataOffsetNoRead ∨ c.offset = kMetadataOffsetNoWrite ∨
          c.offset = kMetadataOffsetNoSpace then place size offset rest
      else if c.offset < offset + size then
        place size (computeNextOffset (c.offset + c.size) size) rest
      else offset

end ScopeComponent

/-- `scope_components_`. -/
abbrev Scopes := ℕ → ScopeComponent

namespace Scopes

variable (order : List ScopeComponent → List ScopeComponent)

/-- The components with an offset that share a module with the component `i`. -/
def neighbours (s : Scopes) (num i : ℕ) : List ScopeComponent :=
  ((List.range num).filter fun j => j ≠ i ∧ !(s i).disjointFrom (s j) ∧ (s j).assigned).map s

/-- One round of `AssignOffsets`; `order` is how the priority queue gives its elements. -/
def assignOne (num : ℕ) (s : Scopes) (i : ℕ) : Scopes :=
  if (s i).invalid then
    Function.update s i { s i with offset := kMetadataOffsetNoRead, assigned := true }
  else if (s i).assigned ∨ (s i).modules.length = 1 then s
  else Function.update s i { s i with
    offset := ScopeComponent.place (s i).size 0 (order (s.neighbours num i)), assigned := true }

/-- `AssignOffsets`, up to `FillOffsetArrays`. -/
def assignOffsets (num : ℕ) (s : Scopes) : Scopes :=
  (List.range num).foldl (assignOne order num) s

end Scopes

/-! ### One offset -/

/-- The sizes are rounded up to a power of two. -/
lemma alignCeilPow2_cases : ∀ size : Fin 33, 1 ≤ size.val →
    toOffset (alignCeilPow2 size) = 1 ∧ size.val ≤ 1 ∨
    toOffset (alignCeilPow2 size) = 2 ∧ size.val ≤ 2 ∨
    toOffset (alignCeilPow2 size) = 4 ∧ size.val ≤ 4 ∨
    toOffset (alignCeilPow2 size) = 8 ∧ size.val ≤ 8 ∨
    toOffset (alignCeilPow2 size) = 16 ∧ size.val ≤ 16 ∨ toOffset (alignCeilPow2 size) = 32 := by
  decide +kernel

/-- The next offset comes after the end of a component and leaves room; where there is none, the end
is far from the start. -/
lemma computeNextOffset_spec {stop : ℤ} {size : ℕ} (hstop : 1 ≤ stop) (hstop' : stop ≤ 128)
    (hpos : 1 ≤ size) (hle : size ≤ 32) :
    (computeNextOffset stop size = -3 ∧ (size : ℤ) + 29 ≤ stop) ∨
      (stop ≤ computeNextOffset stop size ∧ computeNextOffset stop size + size ≤ 128) := by
  have hcases := alignCeilPow2_cases ⟨size, by omega⟩ hpos
  dsimp only at hcases
  rcases hcases with ⟨h, _⟩ | ⟨h, _⟩ | ⟨h, _⟩ | ⟨h, _⟩ | ⟨h, _⟩ | h
  all_goals
    rw [computeNextOffset, h]
    simp only [toOffset, alignCeil, kMetadataTotalSize, kMetadataOffsetNoSpace]
    split_ifs <;> omega

namespace ScopeComponent

variable {c : ScopeComponent} {size : ℕ}

/-- An offset that was given: none, or one with room. -/
structure Placed (c : ScopeComponent) : Prop where
  pos : 1 ≤ c.size
  le : c.size ≤ 32
  cases : c.offset = kMetadataOffsetNoRead ∨ c.offset = kMetadataOffsetNoSpace ∨
    0 ≤ c.offset ∧ c.stop ≤ 128

/-- The next offset after a component. -/
lemma Placed.next (hc : Placed c) (hoff : 0 ≤ c.offset) (hpos : 1 ≤ size) (hle : size ≤ 32) :
    (computeNextOffset (c.offset + c.size) size = -3 ∧ (size : ℤ) + 29 ≤ c.stop) ∨
      (c.stop ≤ computeNextOffset (c.offset + c.size) size ∧
        computeNextOffset (c.offset + c.size) size + size ≤ 128) := by
  have hstop : c.stop ≤ 128 := by
    rcases hc.cases with h | h | h
    · rw [h] at hoff
      exact absurd hoff (by decide)
    · rw [h] at hoff
      exact absurd hoff (by decide)
    · exact h.2
  have hsize := hc.pos
  rw [stop] at hstop ⊢
  exact computeNextOffset_spec (by omega) hstop hpos hle

/-- A component without an offset is left out. -/
lemma Placed.skip_iff (hc : Placed c) :
    (c.offset = kMetadataOffsetNoRead ∨ c.offset = kMetadataOffsetNoWrite ∨
      c.offset = kMetadataOffsetNoSpace) ↔ c.offset < 0 := by
  constructor
  · rintro (h | h | h)
    · rw [h]; decide
    · rw [h]; decide
    · rw [h]; decide
  · intro hneg
    rcases hc.cases with h | h | h
    · exact .inl h
    · exact .inr (.inr h)
    · exact absurd h.1 (not_le.mpr hneg)

/-- Where there is no room, no later component is near the start. -/
lemma place_noSpace : ∀ {h : List ScopeComponent}, (∀ d ∈ h, Placed d) →
    (∀ d ∈ h, 0 ≤ d.offset → (size : ℤ) - 3 ≤ d.offset) → place size (-3) h = -3 := by
  intro h
  induction h with
  | nil => exact fun _ _ => rfl
  | cons c rest ih =>
      intro hplaced hfar
      rw [place]
      split
      · exact ih (fun d hd => hplaced d (List.mem_cons_of_mem c hd))
          fun d hd => hfar d (List.mem_cons_of_mem c hd)
      next hskip =>
        rw [(hplaced c List.mem_cons_self).skip_iff] at hskip
        have hc := hfar c List.mem_cons_self (not_lt.mp hskip)
        rw [if_neg (by omega)]

/-- The components in the order of their offsets, the ends in the same order. -/
def Ordered (h : List ScopeComponent) : Prop :=
  h.Pairwise fun c d => c.offset ≤ d.offset ∧ (0 ≤ c.offset → c.stop ≤ d.stop)

/-- **One offset**: there is no room, or it is apart from every component of the loop. -/
lemma place_spec (hpos : 1 ≤ size) (hle : size ≤ 32) :
    ∀ {h : List ScopeComponent} {offset : ℤ}, (∀ d ∈ h, Placed d) → Ordered h → 0 ≤ offset →
      offset + size ≤ 128 →
      place size offset h = -3 ∨
        0 ≤ place size offset h ∧ place size offset h + size ≤ 128 ∧
        (place size offset h = offset ∨
          ∃ d ∈ h, 0 ≤ d.offset ∧ d.stop ≤ place size offset h) ∧
        ∀ d ∈ h, 0 ≤ d.offset →
          d.stop ≤ place size offset h ∨ place size offset h + size ≤ d.offset := by
  intro h
  induction h with
  | nil => exact fun _ _ hoff hroom => .inr ⟨hoff, hroom, .inl rfl, nofun⟩
  | cons c rest ih =>
      intro offset hplaced hord hoff hroom
      obtain ⟨hfirst, hrest⟩ := List.pairwise_cons.mp hord
      have hplaced' : ∀ d ∈ rest, Placed d := fun d hd => hplaced d (List.mem_cons_of_mem c hd)
      have hc := hplaced c List.mem_cons_self
      rw [place]
      split
      next hskip =>
        rw [hc.skip_iff] at hskip
        rcases ih hplaced' hrest hoff hroom with h | ⟨h₁, h₂, h₃, h₄⟩
        · exact .inl h
        · refine .inr ⟨h₁, h₂, ?_, fun d hd hd' => ?_⟩
          · rcases h₃ with h₃ | ⟨d, hd, h₃⟩
            · exact .inl h₃
            · exact .inr ⟨d, List.mem_cons_of_mem c hd, h₃⟩
          · rcases List.mem_cons.mp hd with rfl | hd
            · omega
            · exact h₄ d hd hd'
      next hskip =>
        rw [hc.skip_iff, not_lt] at hskip
        split
        next hlt =>
          rcases hc.next hskip hpos hle with ⟨hnone, hfar⟩ | ⟨hafter, hroom'⟩
          · left
            rw [hnone]
            refine place_noSpace hplaced' fun d hd _ => ?_
            have := (hfirst d hd).1
            have := hc.le
            rw [stop] at hfar
            omega
          · have hsize := hc.pos
            have hpos' : 0 ≤ computeNextOffset (c.offset + c.size) size := by
              rw [stop] at hafter
              omega
            rcases ih hplaced' hrest hpos' hroom' with h | ⟨h₁, h₂, h₃, h₄⟩
            · exact .inl h
            · -- the loop ends after `c`, or after one that ends later
              have hend :
                  c.stop ≤ place size (computeNextOffset (c.offset + c.size) size) rest := by
                rcases h₃ with h₃ | ⟨d, hd, _, h₃⟩
                · rwa [h₃]
                · exact ((hfirst d hd).2 hskip).trans h₃
              refine .inr ⟨h₁, h₂, .inr ⟨c, List.mem_cons_self, hskip, hend⟩, fun d hd hd' => ?_⟩
              rcases List.mem_cons.mp hd with rfl | hd
              · exact .inl hend
              · exact h₄ d hd hd'
        next hlt =>
          refine .inr ⟨hoff, hroom, .inl rfl, fun d hd _ => .inr ?_⟩
          rcases List.mem_cons.mp hd with rfl | hd
          · exact not_lt.mp hlt
          · exact (not_lt.mp hlt).trans (hfirst d hd).1

end ScopeComponent

/-! ### All offsets -/

namespace Scopes

open ScopeComponent

variable {order : List ScopeComponent → List ScopeComponent} {num i j : ℕ} {s₀ s : Scopes}

/-- Two components are alive in some module together. -/
def Shares (s : Scopes) (i j : ℕ) : Prop := (s i).disjointFrom (s j) = false

/-- The bytes of two components are apart. -/
def Apart (c d : ScopeComponent) : Prop := c.stop ≤ d.offset ∨ d.stop ≤ c.offset

lemma shares_comm : s.Shares i j ↔ s.Shares j i := by
  have hiff : ∀ a b, s.Shares a b ↔ ∃ m ∈ (s a).modules, m ∈ (s b).modules := fun a b => by
    simp [Shares, ScopeComponent.disjointFrom]
  rw [hiff, hiff]
  exact ⟨fun ⟨m, h, h'⟩ => ⟨m, h', h⟩, fun ⟨m, h, h'⟩ => ⟨m, h', h⟩⟩

/-- Two components that share a module with a third share one, or have the same size. -/
def Nested (s : Scopes) : Prop :=
  ∀ i j k, j ≠ k → s.Shares i j → s.Shares i k → s.Shares j k ∨ (s j).size = (s k).size

/-- How the priority queue gives its elements: all of them, the lowest offset first. -/
def Sorts (order : List ScopeComponent → List ScopeComponent) : Prop :=
  ∀ l, (order l).Perm l ∧ (order l).Pairwise fun c d => c.offset ≤ d.offset

/-- What every round keeps. -/
structure Good (num : ℕ) (s₀ s : Scopes) : Prop where
  size : ∀ i, (s i).size = (s₀ i).size
  modules : ∀ i, (s i).modules = (s₀ i).modules
  placed : ∀ i, (s i).assigned = true → Placed (s i)
  apart : ∀ i j, i ≠ j → (s i).assigned = true → (s j).assigned = true → 0 ≤ (s i).offset →
    0 ≤ (s j).offset → s.Shares i j → Apart (s i) (s j)
  lt : ∀ i, (s i).assigned = true → i < num

lemma Good.shares (h : Good num s₀ s) : s.Shares i j ↔ s₀.Shares i j := by
  rw [Shares, Shares, ScopeComponent.disjointFrom, ScopeComponent.disjointFrom, h.modules,
    h.modules]

lemma mem_neighbours {d : ScopeComponent} : d ∈ s.neighbours num i ↔
    ∃ j < num, j ≠ i ∧ s.Shares i j ∧ (s j).assigned = true ∧ s j = d := by
  rw [neighbours, List.mem_map]
  simp only [List.mem_filter, List.mem_range, decide_eq_true_eq, Shares, Bool.not_eq_true']
  exact exists_congr fun j => by tauto

/-- The offset of one component changes. -/
lemma Good.update (h : Good num s₀ s) (hi : i < num) {o : ℤ}
    (hplaced : Placed { s i with offset := o, assigned := true })
    (hapart : 0 ≤ o → ∀ j, j ≠ i → (s j).assigned = true → 0 ≤ (s j).offset → s.Shares i j →
      Apart { s i with offset := o, assigned := true } (s j)) :
    Good num s₀ (Function.update s i { s i with offset := o, assigned := true }) := by
  have hsame : ∀ k, (Function.update s i { s i with offset := o, assigned := true } k).modules
      = (s k).modules ∧
      (Function.update s i { s i with offset := o, assigned := true } k).size = (s k).size :=
    fun k => by
      by_cases hk : k = i
      · rw [hk, Function.update_self]
        exact ⟨rfl, rfl⟩
      · rw [Function.update_of_ne hk]
        exact ⟨rfl, rfl⟩
  have hshares : ∀ a b,
      Shares (Function.update s i { s i with offset := o, assigned := true }) a b ↔
        s.Shares a b := fun a b => by
    rw [Shares, Shares, ScopeComponent.disjointFrom, ScopeComponent.disjointFrom, (hsame a).1,
      (hsame b).1]
  refine ⟨fun k => (hsame k).2.trans (h.size k), fun k => (hsame k).1.trans (h.modules k),
    fun k hk => ?_, fun a b hab ha hb hoa hob hsh => ?_, fun k hk => ?_⟩
  · by_cases hki : k = i
    · rw [hki, Function.update_self]
      exact hplaced
    · rw [Function.update_of_ne hki] at hk ⊢
      exact h.placed k hk
  · rw [hshares] at hsh
    by_cases hai : a = i
    · rw [hai] at hab hoa hsh ⊢
      rw [Function.update_self] at hoa ⊢
      rw [Function.update_of_ne hab.symm] at hb hob ⊢
      exact hapart hoa b hab.symm hb hob hsh
    · rw [Function.update_of_ne hai] at ha hoa ⊢
      by_cases hbi : b = i
      · rw [hbi] at hob hsh ⊢
        rw [Function.update_self] at hob ⊢
        exact (hapart hob a hai ha hoa (shares_comm.mp hsh)).symm
      · rw [Function.update_of_ne hbi] at hb hob ⊢
        exact h.apart a b hab ha hb hoa hob hsh
  · by_cases hki : k = i
    · exact hki ▸ hi
    · rw [Function.update_of_ne hki] at hk
      exact h.lt k hk

/-- The ends of the neighbours are in the order of their offsets. -/
lemma Good.ordered (h : Good num s₀ s) (hnested : s₀.Nested) (horder : Sorts order) :
    Ordered (order (s.neighbours num i)) := by
  obtain ⟨hperm, hsorted⟩ := horder (s.neighbours num i)
  refine hsorted.imp_of_mem fun {c d} hc hd hle => ⟨hle, fun hoff => ?_⟩
  obtain ⟨j, _, _, hij, hj, rfl⟩ := mem_neighbours.mp (hperm.mem_iff.mp hc)
  obtain ⟨k, _, _, hik, hk, rfl⟩ := mem_neighbours.mp (hperm.mem_iff.mp hd)
  have hpos := (h.placed k hk).pos
  by_cases hjk : j = k
  · rw [hjk]
  · rcases hnested i j k hjk (h.shares.mp hij) (h.shares.mp hik) with hsh | hsize
    · rcases h.apart j k hjk hj hk hoff (hoff.trans hle) (h.shares.mpr hsh) with hapart | hapart
      · rw [ScopeComponent.stop] at hapart ⊢
        rw [ScopeComponent.stop]
        omega
      · rw [ScopeComponent.stop] at hapart
        omega
    · rw [ScopeComponent.stop, ScopeComponent.stop, h.size, h.size, hsize]
      omega

/-- **One round** keeps what was given apart. -/
lemma Good.assignOne (h : Good num s₀ s) (hsize : ∀ i, 1 ≤ (s₀ i).size ∧ (s₀ i).size ≤ 32)
    (hnested : s₀.Nested) (horder : Sorts order) (hi : i < num) :
    Good num s₀ (Scopes.assignOne order num s i) := by
  have hpos : 1 ≤ (s i).size := h.size i ▸ (hsize i).1
  have hle : (s i).size ≤ 32 := h.size i ▸ (hsize i).2
  rw [Scopes.assignOne]
  split
  · exact h.update hi ⟨hpos, hle, .inl rfl⟩ fun hneg => absurd hneg (by decide)
  · split
    · exact h
    · have hperm := (horder (s.neighbours num i)).1
      have hplaced : ∀ d ∈ order (s.neighbours num i), Placed d := fun d hd => by
        obtain ⟨j, _, _, _, hj, rfl⟩ := mem_neighbours.mp (hperm.mem_iff.mp hd)
        exact h.placed j hj
      rcases place_spec hpos hle hplaced (h.ordered hnested horder) le_rfl (by omega) with
        hnone | ⟨hoff, hroom, _, hapart⟩
      · exact h.update hi ⟨hpos, hle, .inr (.inl hnone)⟩ fun hneg =>
          absurd (hnone ▸ hneg) (by decide)
      · refine h.update hi ⟨hpos, hle, .inr (.inr ⟨hoff, hroom⟩)⟩ fun _ j hji hj hoff' hsh => ?_
        have hmem : s j ∈ order (s.neighbours num i) :=
          hperm.mem_iff.mpr (mem_neighbours.mpr ⟨j, h.lt j hj, hji, hsh, hj, rfl⟩)
        exact (hapart (s j) hmem hoff').symm

/-- **All rounds**, by induction on them. -/
lemma Good.assign (hsize : ∀ i, 1 ≤ (s₀ i).size ∧ (s₀ i).size ≤ 32) (hnested : s₀.Nested)
    (horder : Sorts order) {is : List ℕ} : ∀ {s : Scopes}, Good num s₀ s → (∀ i ∈ is, i < num) →
      Good num s₀ (is.foldl (Scopes.assignOne order num) s) := by
  induction is with
  | nil => exact fun h _ => h
  | cons i is ih =>
      exact fun h hlt => ih (h.assignOne hsize hnested horder (hlt i List.mem_cons_self))
        fun j hj => hlt j (List.mem_cons_of_mem i hj)

/-- **The offsets are apart**: if two components that share a module with a third always share one
or have the same size, then every offset that is given leaves room for the attribute, and the bytes
of components that share a module do not overlap. -/
theorem assignOffsets_apart (hfresh : ∀ i, (s i).assigned = false)
    (hsize : ∀ i, 1 ≤ (s i).size ∧ (s i).size ≤ kMetadataAttrMaxSize) (hnested : s.Nested)
    (horder : Sorts order) :
    (∀ i, (assignOffsets order num s i).assigned = true →
      0 ≤ (assignOffsets order num s i).offset →
      (assignOffsets order num s i).offset + (s i).size ≤ kMetadataTotalSize) ∧
    ∀ i j, i ≠ j → (assignOffsets order num s i).assigned = true →
      (assignOffsets order num s j).assigned = true → 0 ≤ (assignOffsets order num s i).offset →
      0 ≤ (assignOffsets order num s j).offset → s.Shares i j →
      (assignOffsets order num s i).offset + (s i).size ≤ (assignOffsets order num s j).offset ∨
        (assignOffsets order num s j).offset + (s j).size
          ≤ (assignOffsets order num s i).offset := by
  have hnone : ∀ i, ¬ (s i).assigned = true := fun i h => by
    rw [hfresh i] at h
    cases h
  have hstart : Good num s s := ⟨fun _ => rfl, fun _ => rfl, fun i hi => absurd hi (hnone i),
    fun i _ _ hi => absurd hi (hnone i), fun i hi => absurd hi (hnone i)⟩
  have hgood : Good num s (assignOffsets order num s) :=
    Good.assign hsize hnested horder hstart fun i hi => List.mem_range.mp hi
  refine ⟨fun i hi hoff => ?_, fun i j hij hi hj hoff hoff' hsh => ?_⟩
  · rcases (hgood.placed i hi).cases with h | h | ⟨_, h⟩
    · rw [h] at hoff
      exact absurd hoff (by decide)
    · rw [h] at hoff
      exact absurd hoff (by decide)
    · rwa [ScopeComponent.stop, hgood.size] at h
  · have h := hgood.apart i j hij hi hj hoff hoff' (hgood.shares.mpr hsh)
    rwa [Apart, ScopeComponent.stop, ScopeComponent.stop, hgood.size, hgood.size] at h

/-! ### Three attributes -/

/-- The priority queue, as a sort by insertion. -/
def sorted (l : List ScopeComponent) : List ScopeComponent :=
  l.insertionSort fun c d => c.offset ≤ d.offset

lemma sorts_sorted : Sorts sorted := by
  have htotal : Std.Total fun c d : ScopeComponent => c.offset ≤ d.offset :=
    ⟨fun c d => le_total c.offset d.offset⟩
  have htrans : IsTrans ScopeComponent fun c d => c.offset ≤ d.offset :=
    ⟨fun _ _ _ h h' => h.trans h'⟩
  exact fun l => ⟨l.perm_insertionSort _, List.pairwise_insertionSort _ l⟩

/-- A component of `size` bytes that is alive in `modules`. -/
def component (size : ℕ) (modules : List ℕ) : ScopeComponent :=
  { size := size, modules := modules, offset := 0, assigned := false, invalid := false }

/-- Two attributes of two bytes that are never alive together, and one of four bytes that is alive
together with each of them. -/
def three : Scopes
  | 0 => component 2 [0, 2]
  | 1 => component 2 [1, 3]
  | 2 => component 4 [0, 1]
  | _ => component 1 []

/-- The small ones get the same bytes, and the large one comes after both. -/
theorem assignOffsets_apart_three :
    (assignOffsets sorted 3 three 0).offset = 0 ∧ (assignOffsets sorted 3 three 1).offset = 0 ∧
    (assignOffsets sorted 3 three 2).offset = 4 ∧
    ∀ i < 2, (assignOffsets sorted 3 three i).offset + (three i).size
        ≤ (assignOffsets sorted 3 three 2).offset ∨
      (assignOffsets sorted 3 three 2).offset + (three 2).size
        ≤ (assignOffsets sorted 3 three i).offset := by
  have hlt : ∀ {i j}, three.Shares i j → j < 3 := by
    intro i j h
    match j with
    | 0 | 1 | 2 => decide
    | j + 3 => cases shares_comm.mp h
  have hfresh : ∀ i, (three i).assigned = false := fun i => by
    match i with
    | 0 | 1 | 2 | i + 3 => rfl
  have hsize : ∀ i, 1 ≤ (three i).size ∧ (three i).size ≤ kMetadataAttrMaxSize := fun i => by
    match i with
    | 0 | 1 | 2 => exact ⟨by decide, by decide⟩
    | i + 3 => exact ⟨Nat.le_refl 1, (by decide : 1 ≤ kMetadataAttrMaxSize)⟩
  have hpairs : ∀ j < 3, ∀ k < 3, j ≠ k →
      (three j).disjointFrom (three k) = false ∨ (three j).size = (three k).size := by
    decide
  -- the small ones do not share a module, but they have the same size
  have hnested : three.Nested := fun i j k hjk hij hik => hpairs j (hlt hij) k (hlt hik) hjk
  have hapart : ∀ i j, i ≠ j → (assignOffsets sorted 3 three i).assigned = true → _ :=
    (assignOffsets_apart hfresh hsize hnested sorts_sorted).2
  refine ⟨by decide, by decide, by decide, fun i hi => ?_⟩
  match i, hi with
  | 0, _ => exact hapart 0 2 (by decide) (by decide) (by decide) (by decide) (by decide) rfl
  | 1, _ => exact hapart 1 2 (by decide) (by decide) (by decide) (by decide) (by decide) rfl

/-- Without the condition the last of four attributes gets bytes of the first. -/
example :
    let s : Scopes := fun i => match i with
      | 0 => component 8 [1, 2]
      | 1 => component 2 [3, 4]
      | 2 => component 2 [4, 5]
      | _ => component 2 [2, 5]
    (assignOffsets sorted 4 s 0).offset = 0 ∧ (assignOffsets sorted 4 s 3).offset = 4 := by
  decide

end Scopes

end Bess
