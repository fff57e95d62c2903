import FlowBundler.Lib.Fifo
import FlowBundler.Bess.Pool

/-!
The queue of tokens over all its operations: `CircularQueue` as a bounded first-in first-out
list.

* `CircularQueue.isLeast_size`: the constructor rounds the requested size up to a power of two.
* `CircularQueue.Bounded q n l`: a queue of `n` cells, a number that 32 bits leave room for,
  holds `l`.
* `CircularQueue.step`, `step_simulates`: the operations, and the list that each of them keeps.
* `CircularQueue.Tells q l`: every observer of the queue tells the truth about `l`, computed in
  32 bits as well.
* `circularQueue_fifo`: after every list of operations.

The queue simulates the bounded list of `Lib.Fifo` along the ring of `Lib.Ring`, operation by
operation, so that it answers every list of operations as the list does.  Sizes are powers of two up
to `2^31`, so the index formulas, which the code computes modulo the size or in 32 bits, do not lose
anything; the only subtraction that may go below zero is taken modulo `2^32`, of which the size is a
divisor.
-/

namespace Bess

open BoundedFifo

namespace CircularQueue

variable {q : CircularQueue} {n : ℕ} {l : List ℕ}

/-! ### The size -/

/-- A power of two is the least that reaches `size` when the smaller ones do not. -/
lemma isLeast_of_below {size k : ℕ} (hsize : size ≤ 2 ^ k) (hbelow : ∀ j < k, 2 ^ j < size) :
    IsLeast {m | (∃ j, m = 2 ^ j) ∧ size ≤ m} (2 ^ k) := by
  refine ⟨⟨⟨k, rfl⟩, hsize⟩, ?_⟩
  rintro _ ⟨⟨j, rfl⟩, hj⟩
  refine Nat.pow_le_pow_right (by norm_num) ?_
  by_contra hlt
  exact absurd hj (not_le.mpr (hbelow j (not_le.mp hlt)))

/-- The loop of the constructor, by induction on the rounds it has left. -/
lemma isLeast_roundUp {size : ℕ} (fuel : ℕ) : ∀ {k : ℕ}, size ≤ 2 ^ (k + fuel) →
    (∀ j < k, 2 ^ j < size) →
    IsLeast {m | (∃ j, m = 2 ^ j) ∧ size ≤ m} (roundUp size fuel (2 ^ k)) := by
  induction fuel with
  | zero => exact fun hsize hbelow => isLeast_of_below hsize hbelow
  | succ fuel ih =>
      intro k hsize hbelow
      rw [roundUp]
      by_cases hlt : 2 ^ k < size
      · -- another round
        rw [if_pos hlt, ← Nat.pow_succ]
        refine ih (by rwa [Nat.succ_add_eq_add_succ]) fun j hj => ?_
        rcases Nat.lt_succ_iff_lt_or_eq.mp hj with hj | rfl
        · exact hbelow j hj
        · exact hlt
      · rw [if_neg hlt]
        exact isLeast_of_below (not_lt.mp hlt) hbelow

/-- The size of a queue that was asked to hold `size`. -/
structure RoundedUp (size n : ℕ) : Prop where
  least : size ≤ 2 ^ 31 → IsLeast {m | (∃ j, m = 2 ^ j) ∧ size ≤ m} n
  capped : 2 ^ 31 ≤ size → n = 2 ^ 31

/-- **The size** is the least power of two that reaches the request, and `2 ^ 31` beyond. -/
lemma isLeast_size (size : ℕ) (memory : ℕ → ℕ) : RoundedUp size (init size memory).size := by
  rw [init]
  dsimp only
  by_cases hsize : size ≥ 2 ^ 31
  · rw [if_pos hsize]
    refine ⟨fun hle => ?_, fun _ => rfl⟩
    obtain rfl : size = 2 ^ 31 := le_antisymm hle hsize
    exact isLeast_of_below le_rfl fun j hj => Nat.pow_lt_pow_right (by norm_num) hj
  · rw [if_neg hsize]
    refine ⟨fun hle => ?_, fun hge => absurd hge hsize⟩
    exact isLeast_roundUp (k := 0) 32 (hle.trans (Nat.pow_le_pow_right (by norm_num) (by norm_num)))
      (fun j hj => absurd hj (Nat.not_lt_zero j))

lemma RoundedUp.le {size : ℕ} (h : RoundedUp size n) : n ≤ 2 ^ 31 := by
  by_cases hsize : size ≤ 2 ^ 31
  · exact (h.least hsize).2 ⟨⟨31, rfl⟩, hsize⟩
  · exact (h.capped (le_of_not_ge hsize)).le

lemma RoundedUp.pow {size : ℕ} (h : RoundedUp size n) : ∃ k, n = 2 ^ k := by
  by_cases hsize : size ≤ 2 ^ 31
  · exact (h.least hsize).1.1
  · exact ⟨31, h.capped (le_of_not_ge hsize)⟩

/-! ### The operations -/

/-- What an operation returns to its caller. -/
inductive Returned where
  | status (ret : ℤ)
  | data (x : ℕ)
  | void

def step (q : CircularQueue) : Request ℕ → Returned × CircularQueue
  | .push x => (.status (q.push x).1, (q.push x).2)
  | .pop => (.data q.pop.1, q.pop.2)
  | .reset => (.void, q.reset)

/-- How the queue returns an answer of the list. -/
def returned : Answer ℕ → Returned
  | .pushed true => .status 0
  | .pushed false => .status (-1)
  | .popped none => .data 0
  | .popped (some x) => .data x
  | .done => .void

/-- A queue of `n` cells holds the list `l`, and `n` leaves room in 32 bits. -/
structure Bounded (n : ℕ) (q : CircularQueue) (l : List ℕ) : Prop where
  fifo : q.Fifo l
  size_eq : q.size = n
  le : n ≤ 2 ^ 31

lemma Bounded.full_iff (h : q.Bounded n l) : q.isFull = true ↔ l.length = n - 1 := by
  have hlen := h.fifo.holds.length_lt
  rw [h.size_eq] at hlen
  rw [isFull, beq_iff_eq, h.fifo.holds.full_iff, h.size_eq]
  omega

/-- A `Push` into a full queue. -/
lemma Bounded.push_full (h : q.Bounded n l) (hfull : l.length = n - 1) (x : ℕ) :
    q.push x = (-1, q) := by
  rw [CircularQueue.push, if_pos (h.full_iff.mpr hfull)]

/-- A `Pop` from an empty queue. -/
lemma Bounded.pop_nil (h : q.Bounded n []) : q.pop = (0, q) := by
  rw [CircularQueue.pop, if_pos (h.fifo.isEmpty_iff.mpr rfl)]

/-- **One operation** answers as the list does, and keeps the queue on it. -/
lemma step_simulates (h : q.Bounded n l) (op : Request ℕ) :
    (q.step op).1 = returned (BoundedFifo.step (n - 1) l op).1 ∧
      (q.step op).2.Bounded n (BoundedFifo.step (n - 1) l op).2 := by
  have hlen := h.fifo.holds.length_lt
  rw [h.size_eq] at hlen
  cases op with
  | push x =>
      by_cases hroom : l.length < n - 1
      · obtain ⟨hret, hfifo, hsize⟩ := h.fifo.push (by rw [h.size_eq]; omega) x
        rw [step_push_of_lt hroom, step, hret]
        exact ⟨rfl, hfifo, hsize.trans h.size_eq, h.le⟩
      · rw [step_push_of_le (not_lt.mp hroom), step, h.push_full (by omega)]
        exact ⟨rfl, h⟩
  | pop =>
      cases l with
      | nil =>
          rw [step, h.pop_nil]
          exact ⟨rfl, h⟩
      | cons x l =>
          obtain ⟨hret, hfifo, hsize⟩ := h.fifo.pop
          rw [step, hret]
          exact ⟨rfl, hfifo, hsize.trans h.size_eq, h.le⟩
  | reset => exact ⟨rfl, h.fifo.reset, h.size_eq, h.le⟩

lemma bounded_init (size : ℕ) (memory : ℕ → ℕ) :
    (init size memory).Bounded (init size memory).size [] := by
  have hsize := isLeast_size size memory
  obtain ⟨k, hk⟩ := hsize.pow
  exact ⟨⟨⟨k, hk⟩, .nil _ (hk ▸ Nat.two_pow_pos k)⟩, rfl, hsize.le⟩

/-! ### The observers -/

/-- The queue tells the truth about the list `l`, of at most `size - 1` elements; the last three
fields are the index formulas in 32 bits. -/
structure Tells (q : CircularQueue) (l : List ℕ) : Prop where
  length_le : l.length ≤ q.size - 1
  head_lt : q.headPos < q.size
  tail_lt : q.tailPos < q.size
  contents : q.contents = l
  empty : q.isEmpty = true ↔ l = []
  full : q.isFull = true ↔ l.length = q.size - 1
  count : q.elementsNum = l.length
  count32 : ((q.size + 2 ^ 32 - q.headPos) % 2 ^ 32 + q.tailPos) % 2 ^ 32 &&& (q.size - 1) =
    l.length
  mask32 : ∀ pos < q.size, (pos + 1) % 2 ^ 32 &&& (q.size - 1) = (pos + 1) % q.size
  full32 : (q.tailPos + 1) % 2 ^ 32 % q.size = (q.tailPos + 1) % q.size

/-- The subtraction that may wrap in 32 bits does not change the count. -/
lemma Bounded.tells (h : q.Bounded n l) : q.Tells l := by
  have hn := h.le
  rw [← h.size_eq] at hn
  have hhead := h.fifo.holds.head_lt
  have htail := h.fifo.holds.tail_lt
  have hlen := h.fifo.holds.length_lt
  refine ⟨by omega, hhead, htail, h.fifo.contents_eq, h.fifo.isEmpty_iff, ?_, h.fifo.elementsNum_eq,
    ?_, fun pos hpos => ?_, ?_⟩
  · rw [h.size_eq]
    exact h.full_iff
  · rw [← h.fifo.elementsNum_eq, elementsNum]
    congr 1
    omega
  · rw [h.fifo.mask, Nat.mod_eq_of_lt (a := pos + 1) (by omega)]
  · rw [Nat.mod_eq_of_lt (a := q.tailPos + 1) (b := 2 ^ 32) (by omega)]

/-- **The circular queue** is a bounded first-in first-out list: whatever the requested size and
the operations, it answers as the list of capacity `size - 1` does, it tells the truth about the
list it has come to hold, and a refused operation leaves it as it was. -/
theorem circularQueue_fifo (size : ℕ) (memory : ℕ → ℕ) (ops : List (Request ℕ)) :
    let queue := Answering.run step (init size memory) ops
    let list := Answering.run (BoundedFifo.step ((init size memory).size - 1)) [] ops
    RoundedUp size queue.2.size ∧ queue.1 = list.1.map returned ∧ queue.2.Tells list.2 ∧
      (list.2.length = queue.2.size - 1 → ∀ x, queue.2.push x = (-1, queue.2)) ∧
      (list.2 = [] → queue.2.pop = (0, queue.2)) := by
  obtain ⟨hanswers, hlast⟩ := Answering.run_simulates (R := Bounded (init size memory).size)
    (fun q l op h => step_simulates h op) ops (bounded_init size memory)
  refine ⟨?_, hanswers, hlast.tells, fun hfull => ?_, fun hnil => ?_⟩
  · rw [hlast.size_eq]
    exact isLeast_size size memory
  · rw [hlast.size_eq] at hfull
    exact hlast.push_full hfull
  · rw [hnil] at hlast
    exact hlast.pop_nil

end CircularQueue

end Bess
