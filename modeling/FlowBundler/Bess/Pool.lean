import FlowBundler.Lib.Chain
import FlowBundler.Lib.Ring

/-!
`mempool-list.h` and `circular-queue.h`: the free list of packet nodes, and the queue of
flows to generate packets for.

* `MemoryPool`: the blocks of a pool with their links; block `0` is the sentinel `head`,
  and block `i + 1` is `pool_[i]`.  Elements are named by their blocks.
* `MemoryPool.Free p free`: the free chain of `p` is the stack `free`, its top at `tail`.
* `free_init`, `getElement_nil`, `getElement_cons`, `putElement_spec`: the constructor and
  the two operations on the stack.
* `CircularQueue`: the ring with `push`, `pop`, `elementsNum` and `reset`;
  `CircularQueue.Fifo q l`: the ring holds the list `l`, and `Fifo.push`, `Fifo.pop` are the
  operations on it.

The free chain is a doubly linked stack of the library, whose bottom is the sentinel: an element is
taken from the tail and put back behind it, so that the proofs follow the top of the stack and
never look further down.  The queue is a ring of the library; its constructor makes the size a
power of two, so that the mask of the source is a remainder.
-/

namespace Bess

open Heap

/-! ### The circular queue -/

structure CircularQueue where
  size : ℕ
  headPos : ℕ
  tailPos : ℕ
  memory : ℕ → ℕ

namespace CircularQueue

def isFull (q : CircularQueue) : Bool := (q.tailPos + 1) % q.size == q.headPos

/-- `Push`; a full queue is left alone and answers `-1`. -/
def push (q : CircularQueue) (data : ℕ) : ℤ × CircularQueue :=
  if q.isFull then (-1, q)
  else (0, { q with
    memory := Function.update q.memory q.tailPos data
    tailPos := (q.tailPos + 1) &&& (q.size - 1) })

def isEmpty (q : CircularQueue) : Bool := q.headPos == q.tailPos

def elementsNum (q : CircularQueue) : ℕ := (q.size - q.headPos + q.tailPos) &&& (q.size - 1)

def reset (q : CircularQueue) : CircularQueue := { q with tailPos := 0, headPos := 0 }

/-- `Pop`; an empty queue answers `{}`. -/
def pop (q : CircularQueue) : ℕ × CircularQueue :=
  if q.isEmpty then (0, q)
  else (q.memory q.headPos, { q with headPos := (q.headPos + 1) &&& (q.size - 1) })

/-- The loop of the constructor: double `m` until it is not below `size`. -/
def roundUp (size : ℕ) : ℕ → ℕ → ℕ
  | 0, m => m
  | fuel + 1, m => if m < size then roundUp size fuel (m * 2) else m

/-- The constructor; 32 rounds reach every size below `2^31`. -/
def init (size : ℕ) (memory : ℕ → ℕ) : CircularQueue :=
  { size := if size ≥ 2 ^ 31 then 2 ^ 31 else roundUp size 32 1
    headPos := 0, tailPos := 0, memory := memory }

/-- The elements of the queue, the oldest first. -/
def contents (q : CircularQueue) : List ℕ := Ring.cells q.size q.memory q.headPos q.elementsNum

/-- The queue has a power of two as its size and holds the list `l`. -/
structure Fifo (q : CircularQueue) (l : List ℕ) : Prop where
  size_eq : ∃ k, q.size = 2 ^ k
  holds : Ring.Holds q.size q.memory q.headPos q.tailPos l

namespace Fifo

variable {q : CircularQueue} {l : List ℕ} {x : ℕ}

/-- The mask is the remainder by the size. -/
lemma mask (h : q.Fifo l) (i : ℕ) : i &&& (q.size - 1) = i % q.size := by
  obtain ⟨k, hk⟩ := h.size_eq
  rw [hk]
  exact Nat.and_two_pow_sub_one_eq_mod i k

lemma isEmpty_iff (h : q.Fifo l) : q.isEmpty = true ↔ l = [] := by
  rw [isEmpty, beq_iff_eq]
  exact h.holds.empty_iff

lemma elementsNum_eq (h : q.Fifo l) : q.elementsNum = l.length := by
  rw [elementsNum, h.mask]
  exact h.holds.count_eq

lemma contents_eq (h : q.Fifo l) : q.contents = l := by
  rw [contents, h.elementsNum_eq]
  exact h.holds.cells_eq

/-- A `Push` into a queue that is not full. -/
lemma push (h : q.Fifo l) (hroom : l.length + 1 < q.size) (x : ℕ) :
    (q.push x).1 = 0 ∧ (q.push x).2.Fifo (l ++ [x]) ∧ (q.push x).2.size = q.size := by
  have hfull : ¬ q.isFull = true := by
    rw [isFull, beq_iff_eq, h.holds.full_iff]
    omega
  rw [CircularQueue.push, if_neg hfull]
  refine ⟨rfl, ⟨h.size_eq, ?_⟩, rfl⟩
  dsimp only
  rw [h.mask]
  exact h.holds.snoc hroom x

/-- A `Push` adds its element, or leaves a full queue alone. -/
lemma push_within (h : q.Fifo l) (x : ℕ) :
    ∃ l', (q.push x).2.Fifo l' ∧ ∀ t ∈ l', t ∈ l ∨ t = x := by
  by_cases hroom : l.length + 1 < q.size
  · exact ⟨l ++ [x], (h.push hroom x).2.1, fun t ht => by simpa using ht⟩
  · have hlen := h.holds.length_lt
    have hfull : q.isFull = true := by
      rw [isFull, beq_iff_eq, h.holds.full_iff]
      omega
    exact ⟨l, by rw [CircularQueue.push, if_pos hfull]; exact h, fun t ht => .inl ht⟩

/-- A `Pop` of the oldest element. -/
lemma pop (h : q.Fifo (x :: l)) :
    q.pop.1 = x ∧ q.pop.2.Fifo l ∧ q.pop.2.size = q.size := by
  have hne : ¬ q.isEmpty = true := by
    rw [h.isEmpty_iff]
    simp
  obtain ⟨hhead, hrest⟩ := h.holds.pop
  rw [CircularQueue.pop, if_neg hne]
  refine ⟨hhead, ⟨h.size_eq, ?_⟩, rfl⟩
  dsimp only
  rw [h.mask]
  exact hrest

/-- Pushing a list that fits. -/
lemma pushAll (xs : List ℕ) : ∀ {q : CircularQueue} {l : List ℕ}, q.Fifo l →
    l.length + xs.length < q.size →
    (xs.foldl (fun q x => (q.push x).2) q).Fifo (l ++ xs) ∧
      (xs.foldl (fun q x => (q.push x).2) q).size = q.size := by
  induction xs with
  | nil =>
      intro q l h _
      rw [List.append_nil]
      exact ⟨h, rfl⟩
  | cons x xs ih =>
      intro q l h hlen
      rw [List.length_cons] at hlen
      obtain ⟨-, hpush, hsize⟩ := h.push (by omega) x
      have hrest := ih hpush (by rw [hsize, List.length_append, List.length_singleton]; omega)
      rw [List.append_assoc] at hrest
      exact ⟨hrest.1, hrest.2.trans hsize⟩

/-- Pushing a list, with or without room for it. -/
lemma pushAll_within (xs : List ℕ) : ∀ {q : CircularQueue} {l : List ℕ}, q.Fifo l →
    ∃ l', (xs.foldl (fun q x => (q.push x).2) q).Fifo l' ∧ ∀ t ∈ l', t ∈ l ∨ t ∈ xs := by
  induction xs with
  | nil => exact fun h => ⟨_, h, fun t ht => .inl ht⟩
  | cons x xs ih =>
      intro q l h
      obtain ⟨l₁, h₁, hmem₁⟩ := h.push_within x
      obtain ⟨l', h', hmem⟩ := ih h₁
      refine ⟨l', h', fun t ht => ?_⟩
      rcases hmem t ht with ht | ht
      · rcases hmem₁ t ht with ht | rfl
        · exact .inl ht
        · exact .inr List.mem_cons_self
      · exact .inr (List.mem_cons_of_mem x ht)

lemma reset (h : q.Fifo l) : q.reset.Fifo [] :=
  ⟨h.size_eq, .nil _ (Nat.lt_of_le_of_lt (Nat.zero_le _) h.holds.head_lt)⟩

end Fifo

end CircularQueue

/-! ### The memory pool -/

structure MemoryPool where
  prev : ℕ → Option ℕ
  next : ℕ → Option ℕ
  parentId : ℕ → ℕ
  tail : ℕ
  blockNum : ℕ
  size : ℕ
  uuid : ℕ

namespace MemoryPool

/-- One round of the constructor's loop: block `i + 1` is built and linked behind `tail`. -/
def link (p : MemoryPool) (i : ℕ) : MemoryPool :=
  { p with
    next := Function.update (Function.update p.next p.tail (some (i + 1))) (i + 1) none
    prev := Function.update p.prev (i + 1) (some p.tail)
    parentId := Function.update p.parentId (i + 1) p.uuid
    tail := i + 1 }

/-- The constructor; `uuid` is the hash of the pool's name. -/
def init (n uuid : ℕ) : MemoryPool :=
  (List.range n).foldl link
    { prev := fun _ => none, next := fun _ => none, parentId := fun _ => 0
      tail := 0, blockNum := n, size := n, uuid := uuid }

def getElement (p : MemoryPool) : Option ℕ × MemoryPool :=
  if p.blockNum = 0 then (none, p)
  else
    match p.prev p.tail with
    -- a null pointer would be written through
    | none => (none, p)
    | some t =>
        (some p.tail, { p with
          tail := t
          next := Function.update p.next t none
          blockNum := p.blockNum - 1 })

def putElement (p : MemoryPool) (elt : Option ℕ) : ℤ × MemoryPool :=
  match elt with
  | none => (-1, p)
  | some block =>
      if p.parentId block ≠ p.uuid then (-1, p)
      else (0, { p with
        next := Function.update (Function.update p.next p.tail (some block)) block none
        prev := Function.update p.prev block (some p.tail)
        tail := block
        blockNum := p.blockNum + 1 })

/-! ### The free chain -/

/-- The free chain of the pool is the stack `free`; `n` blocks belong to the pool. -/
structure Free (p : MemoryPool) (n : ℕ) (free : List ℕ) : Prop where
  stack : Stack p.prev p.next 0 p.tail free
  last : p.next p.tail = none
  nodup : (0 :: free).Nodup
  parent : ∀ x, 0 < x → x ≤ n → p.parentId x = p.uuid

variable {p : MemoryPool} {n x : ℕ} {free : List ℕ}

/-- Linking a fresh block behind the tail puts it on top of the stack. -/
lemma stack_push {prev next : ℕ → Option ℕ} {t : ℕ} (hst : Stack prev next 0 t free)
    (hnd : (0 :: free).Nodup) (hx : x ∉ 0 :: free) :
    Stack (Function.update prev x (some t))
      (Function.update (Function.update next t (some x)) x none) 0 x (x :: free) := by
  have hne : ∀ z ∈ 0 :: free, z ≠ x := fun z hz hzx => hx (hzx ▸ hz)
  refine ⟨rfl, t, Function.update_self _ _ _, ?_, hst.congr hnd ?_ ?_⟩
  · rw [Function.update_of_ne (hne t hst.top_mem), Function.update_self]
  · exact fun z hz => Function.update_of_ne (hne z (List.mem_cons_of_mem 0 hz)) _ _
  · intro z hz hzt
    rw [Function.update_of_ne (hne z hz), Function.update_of_ne hzt]

lemma Free.link (h : p.Free n free) (hn : n + 1 ∉ 0 :: free) :
    (p.link n).Free (n + 1) ((n + 1) :: free) where
  stack := stack_push h.stack h.nodup hn
  last := Function.update_self _ _ _
  nodup := by
    have hnd := h.nodup
    rw [List.nodup_cons] at hnd ⊢
    refine ⟨?_, List.nodup_cons.mpr ⟨fun hmem => hn (List.mem_cons_of_mem 0 hmem), hnd.2⟩⟩
    rintro (_ | ⟨_, hmem⟩)
    exact hnd.1 hmem
  parent := fun x hx hxn => by
    rw [MemoryPool.link]
    dsimp only
    by_cases hxe : x = n + 1
    · rw [hxe, Function.update_self]
    · rw [Function.update_of_ne hxe]
      exact h.parent x hx (by omega)

/-- The blocks of a new pool, from the tail down. -/
def fullStack : ℕ → List ℕ
  | 0 => []
  | n + 1 => (n + 1) :: fullStack n

lemma mem_fullStack : x ∈ fullStack n ↔ 0 < x ∧ x ≤ n := by
  induction n with
  | zero =>
      rw [fullStack, List.mem_nil_iff, false_iff]
      omega
  | succ n ih =>
      rw [fullStack, List.mem_cons, ih]
      omega

lemma length_fullStack (n : ℕ) : (fullStack n).length = n := by
  induction n with
  | zero => rfl
  | succ n ih => rw [fullStack, List.length_cons, ih]

/-- The loop of the constructor, by induction on its rounds. -/
lemma free_foldl_link (h : p.Free 0 []) (n : ℕ) :
    ((List.range n).foldl MemoryPool.link p).Free n (fullStack n) ∧
      ((List.range n).foldl MemoryPool.link p).blockNum = p.blockNum := by
  induction n with
  | zero => exact ⟨h, rfl⟩
  | succ n ih =>
      rw [List.range_succ, List.foldl_append]
      refine ⟨ih.1.link ?_, ih.2⟩
      rw [List.mem_cons, mem_fullStack]
      omega

/-- A new pool has all its blocks free. -/
lemma free_init (n uuid : ℕ) :
    (init n uuid).Free n (fullStack n) ∧ (init n uuid).blockNum = (fullStack n).length := by
  obtain ⟨hfree, hnum⟩ := free_foldl_link
    (show Free { prev := fun _ => none, next := fun _ => none, parentId := fun _ => 0, tail := 0,
                 blockNum := n, size := n, uuid := uuid } 0 [] from
      ⟨rfl, rfl, by simp, fun x hx hx0 => by omega⟩) n
  exact ⟨hfree, hnum.trans (length_fullStack n).symm⟩

/-- An empty pool has no element. -/
lemma getElement_nil (hnum : p.blockNum = 0) : p.getElement = (none, p) := by
  rw [getElement, if_pos hnum]

/-- Otherwise the top of the stack is taken. -/
lemma getElement_cons (h : p.Free n (x :: free)) (hnum : p.blockNum = (x :: free).length) :
    p.getElement.1 = some x ∧ p.getElement.2.Free n free ∧
      p.getElement.2.blockNum = free.length := by
  obtain ⟨htail, y, hprev, hnext, hrest⟩ := h.stack
  have hpos : p.blockNum ≠ 0 := by
    rw [hnum]
    simp
  have hnd : (0 :: free).Nodup := h.nodup.sublist ((List.sublist_cons_self x free).cons_cons 0)
  rw [getElement, if_neg hpos, htail, hprev]
  refine ⟨rfl, ⟨?_, Function.update_self _ _ _, hnd, h.parent⟩, ?_⟩
  · exact hrest.congr hnd (fun _ _ => rfl) fun z _ hz => Function.update_of_ne hz _ _
  · dsimp only
    rw [hnum, List.length_cons, Nat.add_sub_cancel]

/-- Returning a block of the pool that is not free puts it on top of the stack. -/
lemma putElement_spec (h : p.Free n free) (hnum : p.blockNum = free.length) (hx : 0 < x)
    (hxn : x ≤ n) (hfree : x ∉ free) :
    (p.putElement (some x)).1 = 0 ∧ (p.putElement (some x)).2.Free n (x :: free) ∧
      (p.putElement (some x)).2.blockNum = (x :: free).length := by
  have hnot : x ∉ 0 :: free := by
    rintro (_ | ⟨_, hmem⟩)
    · exact absurd hx (by simp)
    · exact hfree hmem
  rw [putElement, if_neg (not_not.mpr (h.parent x hx hxn))]
  refine ⟨rfl, ⟨stack_push h.stack h.nodup hnot, Function.update_self _ _ _, ?_, h.parent⟩, ?_⟩
  · have hnd := h.nodup
    rw [List.nodup_cons] at hnd ⊢
    refine ⟨?_, List.nodup_cons.mpr ⟨hfree, hnd.2⟩⟩
    rintro (_ | ⟨_, hmem⟩)
    · exact absurd hx (by simp)
    · exact hnd.1 hmem
  · dsimp only
    rw [hnum, List.length_cons]

end MemoryPool

end Bess
