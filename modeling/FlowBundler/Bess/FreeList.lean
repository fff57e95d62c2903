import FlowBundler.Lib.Machine
import FlowBundler.Bess.Pool

/-!
The pool of packet nodes over all its operations: `MemoryPool` as a free list.

* `MemoryPool.build`, `MemoryPool.getNum`: the constructor and `GetNum` with their `int`
  counters; nothing where a counter overflows.
* `build_of_lt`, `build_of_le`: the pools that get built.
* `getNum_of_free`: the walk from the sentinel to the tail counts the free chain.
* `PoolWorld`, `PoolWorld.step`: a pool with the elements its users hold.
* `PoolWorld.Inv`, `inv_step`: the free chain is the blocks that nobody holds.
* `FreeList n uuid`: a pool of `n` blocks is a correct free list; `freeList_iff`: exactly when
  `n` is an `int`.

The walk of `GetNum` follows `next` until the tail; on a free chain it makes one round for each
block.  Its counter and the one of the constructor are of type `int`, and overflow for a pool of
`2^31` blocks or more, so that no such pool gets built.  The rest is one step lemma for each of the
two operations: `GetElement` takes the block at the tail, and `PutElement` links a taken one behind
it.
-/

namespace Bess

open Heap

namespace MemoryPool

variable {p : MemoryPool} {n x : ℕ} {free : List ℕ}

/-! ### The counters -/

/-- The `rounds` that the constructor's loop has left at the counter `i`, an `int`. -/
def buildLoop : ℕ → ℕ → MemoryPool → Option MemoryPool
  | 0, _, p => some p
  | rounds + 1, i, p => if i + 1 < 2 ^ 31 then buildLoop rounds (i + 1) (p.link i) else none

/-- The constructor. -/
def build (n uuid : ℕ) : Option MemoryPool :=
  buildLoop n 0
    { prev := fun _ => none, next := fun _ => none, parentId := fun _ => 0
      tail := 0, blockNum := n, size := n, uuid := uuid }

/-- The walk of `GetNum` at `block`; `room` is how far `count` is from the largest `int`. -/
def countTo (p : MemoryPool) : ℕ → ℕ → ℕ → Option ℕ
  | 0, block, count => if block = p.tail then some count else none
  | room + 1, block, count =>
      if block = p.tail then some count
      else
        match p.next block with
        -- a null pointer would be read through
        | none => none
        | some block => countTo p room block (count + 1)

def getNum (p : MemoryPool) : Option ℕ := countTo p (2 ^ 31 - 1) 0 0

/-- The loop, by induction on its rounds. -/
lemma buildLoop_of_lt (rounds : ℕ) : ∀ {i : ℕ} {p : MemoryPool}, i + rounds < 2 ^ 31 →
    buildLoop rounds i p = some ((List.range' i rounds).foldl link p) := by
  induction rounds with
  | zero => exact fun _ => rfl
  | succ rounds ih =>
      intro i p h
      rw [buildLoop, if_pos (by omega), ih (by omega), List.range'_succ, List.foldl_cons]

lemma buildLoop_of_le (rounds : ℕ) : ∀ {i : ℕ} {p : MemoryPool}, i < 2 ^ 31 →
    2 ^ 31 ≤ i + rounds → buildLoop rounds i p = none := by
  induction rounds with
  | zero =>
      intro i p hi h
      omega
  | succ rounds ih =>
      intro i p hi h
      rw [buildLoop]
      by_cases hnext : i + 1 < 2 ^ 31
      · rw [if_pos hnext]
        exact ih hnext (by omega)
      · rw [if_neg hnext]

/-- A pool whose size is an `int` is built. -/
lemma build_of_lt {uuid : ℕ} (h : n < 2 ^ 31) : build n uuid = some (init n uuid) := by
  rw [build, buildLoop_of_lt n (by omega), init, List.range_eq_range']

/-- The counter of a larger pool overflows. -/
lemma build_of_le {uuid : ℕ} (h : 2 ^ 31 ≤ n) : build n uuid = none :=
  buildLoop_of_le n (by norm_num) (by omega)

/-! ### The chain both ways -/

/-- Along a chain up to the tail the walk counts its links, by induction on the chain. -/
lemma countTo_of_chain : ∀ {l : List ℕ} {x room count : ℕ},
    (x :: l).IsChain (fun a b => p.next a = some b) → (x :: l).Nodup →
    (x :: l).getLast (List.cons_ne_nil x l) = p.tail → l.length ≤ room →
    p.countTo room x count = some (count + l.length) := by
  intro l
  induction l with
  | nil =>
      intro x room count _ _ hlast _
      rw [List.getLast_singleton] at hlast
      cases room <;> rw [countTo, if_pos hlast] <;> rfl
  | cons y l ih =>
      intro x room count hchain hnd hlast hroom
      rw [List.isChain_cons_cons] at hchain
      rw [List.getLast_cons_cons] at hlast
      have hne : x ≠ p.tail := by
        rintro rfl
        exact (List.nodup_cons.mp hnd).1 (hlast ▸ List.getLast_mem _)
      cases room with
      | zero => simp at hroom
      | succ room =>
          rw [List.length_cons] at hroom
          rw [countTo, if_neg hne, hchain.1]
          dsimp only
          rw [ih hchain.2 (List.nodup_cons.mp hnd).2 hlast (by omega), List.length_cons]
          congr 1
          omega

/-- `GetNum` counts the free chain. -/
lemma getNum_of_free (h : p.Free n free) (hlen : free.length < 2 ^ 31) :
    p.getNum = some free.length := by
  have hchain : (0 :: free.reverse).IsChain fun a b => p.next a = some b := by
    have hrev := List.isChain_reverse.mpr (h.stack.isChain.imp fun a b hab => hab.2)
    rwa [List.reverse_append, List.reverse_singleton, List.singleton_append] at hrev
  have hnd : (0 :: free.reverse).Nodup := by
    have hnodup := h.nodup
    rw [List.nodup_cons] at hnodup ⊢
    exact ⟨by rw [List.mem_reverse]; exact hnodup.1, List.nodup_reverse.mpr hnodup.2⟩
  have hlast : (0 :: free.reverse).getLast (List.cons_ne_nil _ _) = p.tail := by
    cases hfree : free with
    | nil =>
        have hstack := h.stack
        rw [hfree] at hstack
        exact Eq.symm hstack
    | cons x free =>
        have hstack := h.stack
        rw [hfree] at hstack
        rw [List.getLast_cons (by simp), List.getLast_reverse]
        exact hstack.1.symm
  rw [getNum, countTo_of_chain hchain hnd hlast (by rw [List.length_reverse]; omega),
    List.length_reverse, Nat.zero_add]

/-- `x` is met on the way from the sentinel along `next`. -/
def OnChain (p : MemoryPool) (x : ℕ) : Prop :=
  Relation.ReflTransGen (fun a b => p.next a = some b) 0 x

/-- The links of the free chain: it ends at the tail, and along it `prev` and `next` are inverse
to each other. -/
structure LinksInverse (p : MemoryPool) : Prop where
  tail_on : p.OnChain p.tail
  tail_last : p.next p.tail = none
  up : ∀ x, p.OnChain x → x ≠ p.tail → ∃ y, p.next x = some y ∧ p.prev y = some x
  down : ∀ x, p.OnChain x → x ≠ 0 → ∃ y, p.OnChain y ∧ p.prev x = some y ∧ p.next y = some x

lemma Free.linksInverse (h : p.Free n free) : p.LinksInverse where
  tail_on := h.stack.reach_of_mem h.stack.top_mem
  tail_last := h.last
  up := fun x hx hne => by
    obtain ⟨y, -, hlinks⟩ := h.stack.up (h.stack.mem_of_reach h.last hx) hne
    exact ⟨y, hlinks⟩
  down := fun x hx hne => by
    have hmem := (List.mem_cons.mp (h.stack.mem_of_reach h.last hx)).resolve_left hne
    obtain ⟨y, hy, hlinks⟩ := h.stack.down hmem
    exact ⟨y, h.stack.reach_of_mem hy, hlinks⟩

end MemoryPool

/-! ### The pool and its users -/

open MemoryPool

/-- A pool with the elements that its users have taken. -/
structure PoolWorld where
  pool : MemoryPool
  taken : Finset ℕ

inductive PoolOp where
  | get
  | put (x : ℕ)

namespace PoolWorld

variable {n : ℕ} {w : PoolWorld}

def step (w : PoolWorld) : PoolOp → Option PoolWorld
  | .get => some
      { pool := w.pool.getElement.2
        taken := w.pool.getElement.1.elim w.taken (insert · w.taken) }
  | .put x => some { pool := (w.pool.putElement (some x)).2, taken := w.taken.erase x }

/-- Only elements that are taken are given back. -/
def Allowed (w : PoolWorld) : PoolOp → Prop
  | .get => True
  | .put x => x ∈ w.taken

/-- The states of a pool that starts as `p` with nothing taken. -/
abbrev Reach (p : MemoryPool) : PoolWorld → Prop :=
  Machine.Reach step (fun w => w = { pool := p, taken := ∅ }) Allowed

/-- The free chain is the blocks that nobody has taken. -/
structure Inv (n : ℕ) (w : PoolWorld) (free : List ℕ) : Prop where
  chain : w.pool.Free n free
  num : w.pool.blockNum = free.length
  mem_free : ∀ x, x ∈ free ↔ (0 < x ∧ x ≤ n) ∧ x ∉ w.taken
  taken_le : ∀ x ∈ w.taken, 0 < x ∧ x ≤ n

namespace Inv

variable {free : List ℕ}

/-- Free and taken blocks make up the pool. -/
lemma length_add (h : w.Inv n free) : free.length + w.taken.card = n := by
  have hnd := (List.nodup_cons.mp h.chain.nodup).2
  have hunion : free.toFinset ∪ w.taken = Finset.Icc 1 n := by
    ext x
    rw [Finset.mem_union, List.mem_toFinset, h.mem_free, Finset.mem_Icc]
    have htaken := h.taken_le x
    constructor
    · rintro (hfree | hmem)
      · exact hfree.1
      · exact htaken hmem
    · intro hx
      by_cases hmem : x ∈ w.taken
      · exact .inr hmem
      · exact .inl ⟨hx, hmem⟩
  have hdisj : Disjoint free.toFinset w.taken := by
    rw [Finset.disjoint_left]
    intro x hx
    rw [List.mem_toFinset, h.mem_free] at hx
    exact hx.2
  rw [← List.toFinset_card_of_nodup hnd, ← Finset.card_union_of_disjoint hdisj, hunion,
    Nat.card_Icc, Nat.add_sub_cancel]

lemma init (n uuid : ℕ) :
    Inv n { pool := MemoryPool.init n uuid, taken := ∅ } (fullStack n) where
  chain := (free_init n uuid).1
  num := (free_init n uuid).2
  mem_free := fun x => by
    rw [mem_fullStack]
    simp
  taken_le := by simp

/-- What `GetElement` answers: nothing when all is taken, else a block that nobody holds. -/
lemma getElement (h : w.Inv n free) :
    (w.pool.getElement.1 = none ∧ free = [] ∧ w.pool.getElement.2 = w.pool) ∨
      ∃ x rest, w.pool.getElement.1 = some x ∧ free = x :: rest ∧
        w.pool.getElement.2.Free n rest ∧ w.pool.getElement.2.blockNum = rest.length := by
  cases hfree : free with
  | nil =>
      have hnum := h.num
      rw [hfree, List.length_nil] at hnum
      rw [getElement_nil hnum]
      exact .inl ⟨rfl, rfl, rfl⟩
  | cons x rest =>
      have hchain := h.chain
      have hnum := h.num
      rw [hfree] at hchain hnum
      obtain ⟨hret, hrest, hblocks⟩ := getElement_cons hchain hnum
      exact .inr ⟨x, rest, hret, rfl, hrest, hblocks⟩

/-- A taken element is accepted back. -/
lemma putElement (h : w.Inv n free) {x : ℕ} (hx : x ∈ w.taken) :
    (w.pool.putElement (some x)).1 = 0 ∧ (w.pool.putElement (some x)).2.Free n (x :: free) ∧
      (w.pool.putElement (some x)).2.blockNum = (x :: free).length := by
  obtain ⟨hpos, hle⟩ := h.taken_le x hx
  exact putElement_spec h.chain h.num hpos hle fun hmem => ((h.mem_free x).mp hmem).2 hx

/-- **One call** keeps the free chain the blocks that nobody has taken. -/
lemma step {w' : PoolWorld} {op : PoolOp} (h : w.Inv n free) (hok : w.Allowed op)
    (hstep : w.step op = some w') : ∃ free', w'.Inv n free' := by
  cases op with
  | get =>
      obtain rfl := Option.some_injective _ hstep
      rcases h.getElement with ⟨hret, hfree, hpool⟩ | ⟨x, rest, hret, rfl, hchain, hnum⟩
      · refine ⟨free, ?_⟩
        rw [hret, hpool]
        exact h
      · have hx := (h.mem_free x).mp List.mem_cons_self
        have hnd := List.nodup_cons.mp (List.nodup_cons.mp h.chain.nodup).2
        refine ⟨rest, hchain, hnum, fun y => ?_, fun y hy => ?_⟩
        · rw [hret]
          dsimp only [Option.elim]
          have hy := h.mem_free y
          rw [List.mem_cons] at hy
          rw [Finset.mem_insert, not_or]
          constructor
          · intro hmem
            have hyx : y ≠ x := by
              rintro rfl
              exact hnd.1 hmem
            obtain ⟨hle, hnot⟩ := hy.mp (.inr hmem)
            exact ⟨hle, hyx, hnot⟩
          · rintro ⟨hle, hyx, hnot⟩
            exact (hy.mpr ⟨hle, hnot⟩).resolve_left hyx
        · rw [hret] at hy
          rcases Finset.mem_insert.mp hy with rfl | hy
          · exact hx.1
          · exact h.taken_le y hy
  | put x =>
      obtain rfl := Option.some_injective _ hstep
      obtain ⟨-, hchain, hnum⟩ := h.putElement hok
      refine ⟨x :: free, hchain, hnum, fun y => ?_, fun y hy => ?_⟩
      · rw [List.mem_cons, h.mem_free, Finset.mem_erase]
        have hle := h.taken_le x hok
        by_cases hyx : y = x
        · subst hyx
          simp [hle]
        · simp [hyx]
      · exact h.taken_le y (Finset.mem_of_mem_erase hy)

end Inv

/-- Every state of a new pool. -/
lemma Reach.inv {uuid : ℕ} (h : Reach (MemoryPool.init n uuid) w) : ∃ free, w.Inv n free := by
  refine Machine.Reach.invariant (I := fun w => ∃ free, w.Inv n free) h ?_ ?_
  · rintro w rfl
    exact ⟨_, Inv.init n uuid⟩
  · rintro w w' op - ⟨free, hinv⟩ hok hstep
    exact hinv.step hok hstep

/-! ### The free list -/

/-- The pool of `n` blocks tells the truth about the elements its users hold. -/
structure Tells (n : ℕ) (w : PoolWorld) : Prop where
  null_iff : w.pool.getElement.1 = none ↔ w.taken.card = n
  fresh : ∀ x, w.pool.getElement.1 = some x → x ∉ w.taken
  accepted : ∀ x ∈ w.taken, (w.pool.putElement (some x)).1 = 0
  card_le : w.taken.card ≤ n
  blockNum : w.pool.blockNum = n - w.taken.card
  getNum : w.pool.getNum = some (n - w.taken.card)
  links : w.pool.LinksInverse

lemma Inv.tells {free : List ℕ} (h : w.Inv n free) (hn : n < 2 ^ 31) : w.Tells n := by
  have hlen := h.length_add
  refine ⟨?_, fun x hx => ?_, fun x hx => (h.putElement hx).1, by omega, by rw [h.num]; omega, ?_,
    h.chain.linksInverse⟩
  · rcases h.getElement with ⟨hret, rfl, -⟩ | ⟨x, rest, hret, rfl, -⟩
    · rw [List.length_nil] at hlen
      exact ⟨fun _ => by omega, fun _ => hret⟩
    · rw [List.length_cons] at hlen
      refine ⟨fun hnone => ?_, fun hcard => by omega⟩
      rw [hret] at hnone
      exact absurd hnone (by simp)
  · rcases h.getElement with ⟨hret, -⟩ | ⟨y, rest, hret, rfl, -⟩
    · rw [hret] at hx
      exact absurd hx (by simp)
    · rw [hret, Option.some.injEq] at hx
      exact ((h.mem_free x).mp (hx ▸ List.mem_cons_self)).2
  · rw [getNum_of_free h.chain (by omega)]
    congr 1
    omega

end PoolWorld

/-- A pool of `n` blocks is built, and is a correct free list in every state. -/
def FreeList (n uuid : ℕ) : Prop :=
  ∃ p, MemoryPool.build n uuid = some p ∧ ∀ w, PoolWorld.Reach p w → w.Tells n

/-- A pool whose size is not an `int` is never built. -/
lemma not_freeList {n : ℕ} (h : 2 ^ 31 ≤ n) (uuid : ℕ) : ¬ FreeList n uuid := by
  rintro ⟨p, hbuild, -⟩
  rw [build_of_le h] at hbuild
  exact absurd hbuild (by simp)

/-- **The memory pool** is a correct free list exactly when its size is an `int`. -/
theorem freeList_iff (n uuid : ℕ) : FreeList n uuid ↔ n < 2 ^ 31 := by
  constructor
  · intro h
    by_contra hge
    exact not_freeList (not_lt.mp hge) uuid h
  · intro h
    refine ⟨_, build_of_lt h, fun w hw => ?_⟩
    obtain ⟨free, hinv⟩ := PoolWorld.Reach.inv hw
    exact hinv.tells h

/-- Half the range of the size is lost. -/
theorem not_freeList_half : ¬ FreeList (2 ^ 31) 0 := not_freeList le_rfl 0

end Bess
