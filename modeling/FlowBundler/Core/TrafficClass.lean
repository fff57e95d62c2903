import FlowBundler.Lib.Heap

/-!
The tree of traffic classes of a worker (`traffic_class.h`, `traffic_class.cc`).

* `PriorityTrafficClass`, `WeightedFairTrafficClass`, `RoundRobinTrafficClass`,
  `RateLimitTrafficClass`, `LeafTrafficClass`: the data of the five policies, each with what its
  `AddChild`, `RemoveChild`, `UnblockTowardsRoot`, `BlockTowardsRoot` and
  `FinishAndAccountTowardsRoot` do to the class itself.
* `TrafficClass`: one class of any policy, known by its address, a number; its record holds its
  parent, its wake-up time, its `blocked_` flag and the data of its policy.
* `unblockTowardsRoot`, `blockTowardsRoot`, `finishTowardsRoot`: the walks up the tree.

What a class does by itself takes the `blocked_` flags of the others as a function, so that it can
be stated and proved for one class; only the walks see the whole tree.  They take fuel and answer
`none` when it runs out, or when the code would read an element that does not exist.  The `double`
arithmetic of a weighted fair class and the heap algorithms of the standard library are the
parameter `Platform`; the passes are of any linear order.
-/

namespace Bess

open MinHeap

/-- `resource_t`. -/
inductive Resource where
  | count
  | cycle
  | packet
  | bit
  deriving DecidableEq, Repr

/-- `resource_arr_t`: what one run of a task used. -/
structure Usage where
  count : ℕ
  cycle : ℕ
  packet : ℕ
  bit : ℕ
  deriving DecidableEq, Repr

def Usage.get (usage : Usage) : Resource → ℕ
  | .count => usage.count
  | .cycle => usage.cycle
  | .packet => usage.packet
  | .bit => usage.bit

/-! ### The data of the policies -/

/-- `PriorityTrafficClass::ChildData`. -/
structure PriorityChild where
  priority : ℕ
  c : ℕ
  deriving DecidableEq, Repr

/-- `PriorityTrafficClass`. -/
structure PriorityTrafficClass where
  firstRunnable : ℕ
  children : List PriorityChild

/-- `WeightedFairTrafficClass::ChildData`; `pass` is also `remain`, which shares its place. -/
structure FairChild (κ : Type) where
  stride : κ
  pass : κ
  c : ℕ

/-- `WeightedFairTrafficClass`. -/
structure WeightedFairTrafficClass (κ : Type) where
  resource : Resource
  runnable : List (FairChild κ)
  blocked : List (FairChild κ)

/-- `RoundRobinTrafficClass`. -/
structure RoundRobinTrafficClass where
  nextChild : ℕ
  runnable : List ℕ
  blocked : List ℕ
  allChildren : List ℕ

/-- `RateLimitTrafficClass`; the limit is in work units per cycle, the burst and the tokens are in
work units. -/
structure RateLimitTrafficClass where
  resource : Resource
  limit : ℕ
  maxBurst : ℕ
  tokens : ℕ
  lastTsc : ℕ
  child : Option ℕ

/-- `LeafTrafficClass`. -/
structure LeafTrafficClass where
  waitCycles : ℕ

/-- The constants `POLICY_PRIORITY` to `POLICY_LEAF`. -/
inductive PolicyKind where
  | priority
  | weightedFair
  | roundRobin
  | rateLimit
  | leaf
  deriving DecidableEq, Repr

/-- The policy of a class, with its data. -/
inductive TrafficPolicy (κ : Type) where
  | priority (p : PriorityTrafficClass)
  | weightedFair (w : WeightedFairTrafficClass κ)
  | roundRobin (r : RoundRobinTrafficClass)
  | rateLimit (l : RateLimitTrafficClass)
  | leaf (l : LeafTrafficClass)

/-- `TrafficClass`. -/
structure TrafficClass (κ : Type) where
  parent : Option ℕ
  wakeupTime : ℕ
  blocked : Bool
  policy : TrafficPolicy κ

/-- The arithmetic of `double` that a weighted fair class uses, the heap algorithms of the standard
library, and the frequency of the clock. -/
structure Platform (κ : Type) [LinearOrder κ] where
  zero : κ
  /-- `STRIDE1 / (double)share` -/
  stride : ℤ → κ
  /-- `stride * consumed / QUANTUM` -/
  passDelta : κ → ℕ → κ
  add : κ → κ → κ
  fairHeap : StdHeap (FairChild κ) κ
  wakeupHeap : StdHeap ℕ ℕ
  tscHz : ℕ

variable {κ : Type} [LinearOrder κ]

/-! ### Priority -/

namespace PriorityTrafficClass

/-- The first child from `first` on that is not blocked. -/
def seek (flags : ℕ → Bool) (p : PriorityTrafficClass) (first : ℕ) : PriorityTrafficClass :=
  { p with firstRunnable := first + (p.children.drop first).findIdx fun d => !flags d.c }

/-- The loop of `InsertSorted`, on the elements before the last from the back. -/
def insertBack (d : PriorityChild) : List PriorityChild → List PriorityChild
  | [] => [d]
  | prev :: rest => if d.priority < prev.priority then prev :: insertBack d rest
      else d :: prev :: rest

/-- `InsertSorted`. -/
def insertSorted (l : List PriorityChild) (d : PriorityChild) : List PriorityChild :=
  (insertBack d l.reverse).reverse

def addChild (p : PriorityTrafficClass) (c priority : ℕ) : Option PriorityTrafficClass :=
  if p.children.any fun d => d.priority == priority then none
  else some { p with children := insertSorted p.children { priority := priority, c := c } }

def removeChild (p : PriorityTrafficClass) (c : ℕ) : Option PriorityTrafficClass :=
  let i := p.children.findIdx fun d => d.c == c
  if i < p.children.length then
    some { firstRunnable := if i < p.firstRunnable then p.firstRunnable - 1 else p.firstRunnable
           children := p.children.eraseIdx i }
  else none

def finish (flags : ℕ → Bool) (child : ℕ) (p : PriorityTrafficClass) : PriorityTrafficClass :=
  if flags child then p.seek flags p.firstRunnable else p

end PriorityTrafficClass

/-! ### Weighted fair -/

namespace WeightedFairTrafficClass

variable (pf : Platform κ)

/-- `NextPass`: the pass of the child to be scheduled next. -/
def nextPass (runnable : List (FairChild κ)) : κ :=
  match runnable with
  | [] => pf.zero
  | d :: _ => d.pass

/-- One step of the loop of `UnblockTowardsRoot`. -/
def release (flags : ℕ → Bool) (s : List (FairChild κ) × List (FairChild κ)) (d : FairChild κ) :
    List (FairChild κ) × List (FairChild κ) :=
  if flags d.c then (s.1, s.2 ++ [d])
  else (pf.fairHeap.push FairChild.pass s.1 { d with pass := pf.add (nextPass pf s.1) d.pass }, s.2)

def unblock (flags : ℕ → Bool) (w : WeightedFairTrafficClass κ) : WeightedFairTrafficClass κ :=
  let s := w.blocked.foldl (release pf flags) (w.runnable, [])
  { w with runnable := s.1, blocked := s.2 }

def block (flags : ℕ → Bool) (w : WeightedFairTrafficClass κ) : WeightedFairTrafficClass κ :=
  match pf.fairHeap.deleteSingle FairChild.pass (fun d => flags d.c) w.runnable with
  | some (d, rest) => { w with runnable := rest, blocked := w.blocked ++ [d] }
  | none => w

/-- `none` when the share is zero; the flag tells whether `UnblockTowardsRoot` is called. -/
def addChild (w : WeightedFairTrafficClass κ) (blocked : Bool) (c : ℕ) (share : ℤ) :
    Option (WeightedFairTrafficClass κ × Bool) :=
  if share = 0 then none
  else
    let d : FairChild κ := { stride := pf.stride share, pass := nextPass pf w.runnable, c := c }
    if blocked then some ({ w with blocked := w.blocked ++ [d] }, false)
    else some ({ w with runnable := pf.fairHeap.push FairChild.pass w.runnable d }, true)

def removeChild (w : WeightedFairTrafficClass κ) (c : ℕ) :
    Option (WeightedFairTrafficClass κ × Bool) :=
  if w.blocked.any fun d => d.c == c then
    some ({ w with blocked := w.blocked.eraseP fun d => d.c == c }, false)
  else
    match pf.fairHeap.deleteSingle FairChild.pass (fun d => d.c == c) w.runnable with
    | some (_, rest) => some ({ w with runnable := rest }, true)
    | none => none

def finish (flags : ℕ → Bool) (child : ℕ) (usage : Usage) (w : WeightedFairTrafficClass κ) :
    Option (WeightedFairTrafficClass κ) :=
  match w.runnable with
  | [] => none
  | item :: rest =>
      let passDelta := pf.passDelta item.stride (usage.get w.resource)
      if flags child then
        some { w with runnable := pf.fairHeap.pop FairChild.pass (item :: rest)
                      blocked := w.blocked ++ [{ item with pass := passDelta }] }
      else
        let item' := { item with pass := pf.add item.pass passDelta }
        some { w with runnable := decreaseKeyTop FairChild.pass ((item :: rest).set 0 item') }

end WeightedFairTrafficClass

/-! ### Round robin -/

namespace RoundRobinTrafficClass

/-- Wrap around for round robin. -/
def wrap (r : RoundRobinTrafficClass) : RoundRobinTrafficClass :=
  if r.runnable.length ≤ r.nextChild then { r with nextChild := 0 } else r

def unblock (flags : ℕ → Bool) (r : RoundRobinTrafficClass) : RoundRobinTrafficClass :=
  { r with runnable := r.runnable ++ r.blocked.filter (fun c => !flags c)
           blocked := r.blocked.filter flags }

/-- The runnable child at `i` is taken out of the list. -/
def eraseAt (r : RoundRobinTrafficClass) (i : ℕ) : RoundRobinTrafficClass :=
  wrap { r with runnable := r.runnable.eraseIdx i
                nextChild := if i < r.nextChild then r.nextChild - 1 else r.nextChild }

/-- The loop of `BlockTowardsRoot`; each round erases a child or goes on to the next. -/
def blockLoop (flags : ℕ → Bool) : ℕ → ℕ → RoundRobinTrafficClass → RoundRobinTrafficClass
  | 0, _, r => r
  | fuel + 1, i, r =>
      match r.runnable[i]? with
      | none => r
      | some c =>
          if flags c then
            blockLoop flags fuel i (({ r with blocked := r.blocked ++ [c] }).eraseAt i)
          else blockLoop flags fuel (i + 1) r

def block (flags : ℕ → Bool) (r : RoundRobinTrafficClass) : RoundRobinTrafficClass :=
  blockLoop flags r.runnable.length 0 r

def addChild (r : RoundRobinTrafficClass) (blocked : Bool) (c : ℕ) : RoundRobinTrafficClass :=
  if blocked then { r with blocked := r.blocked ++ [c], allChildren := r.allChildren ++ [c] }
  else { r with runnable := r.runnable ++ [c], allChildren := r.allChildren ++ [c] }

def removeChild (r : RoundRobinTrafficClass) (c : ℕ) : Option (RoundRobinTrafficClass × Bool) :=
  let r := { r with allChildren := r.allChildren.erase c }
  if c ∈ r.blocked then some ({ r with blocked := r.blocked.erase c }, false)
  else if c ∈ r.runnable then some (r.eraseAt (r.runnable.idxOf c), true)
  else none

def finish (flags : ℕ → Bool) (child : ℕ) (usage : Usage) (r : RoundRobinTrafficClass) :
    Option RoundRobinTrafficClass :=
  if flags child then
    if r.nextChild < r.runnable.length then
      some (wrap { r with runnable := r.runnable.eraseIdx r.nextChild
                          blocked := r.blocked ++ [child] })
    else none
  else some (wrap { r with nextChild := r.nextChild + usage.count })

end RoundRobinTrafficClass

/-! ### Rate limit -/

/-- `to_work_units`. -/
def toWorkUnits (x : ℕ) : ℕ := x * 2 ^ 32 % 2 ^ 64

/-- `to_work_units_per_cycle`. -/
def toWorkUnitsPerCycle (tscHz x : ℕ) : ℕ := x * 2 ^ 32 / tscHz % 2 ^ 64

namespace RateLimitTrafficClass

/-- The tokens at the end of a run, before it is paid for. -/
def tokensAt (l : RateLimitTrafficClass) (tsc : ℕ) : ℕ :=
  (l.tokens + l.limit * ((tsc + 2 ^ 64 - l.lastTsc) % 2 ^ 64)) % 2 ^ 64

/-- The run costs more than there is. -/
def Exceeds (l : RateLimitTrafficClass) (usage : Usage) (tsc : ℕ) : Prop :=
  l.tokensAt tsc < toWorkUnits (usage.get l.resource)

instance (l : RateLimitTrafficClass) (usage : Usage) (tsc : ℕ) :
    Decidable (l.Exceeds usage tsc) := inferInstanceAs (Decidable (_ < _))

/-- When a throttled class may go on. -/
def wakeup (l : RateLimitTrafficClass) (usage : Usage) (tsc : ℕ) : ℕ :=
  (tsc + (toWorkUnits (usage.get l.resource) - l.tokensAt tsc) / l.limit) % 2 ^ 64

/-- The tokens are paid, up to the burst; a class that exceeds them is left with none. -/
def finish (l : RateLimitTrafficClass) (usage : Usage) (tsc : ℕ) : RateLimitTrafficClass :=
  { l with
    lastTsc := tsc
    tokens := if l.Exceeds usage tsc then 0
      else min (l.tokensAt tsc - toWorkUnits (usage.get l.resource)) l.maxBurst }

end RateLimitTrafficClass

/-! ### One class -/

namespace TrafficClass

variable (pf : Platform κ) (flags : ℕ → Bool)

/-- The children that the lists of a class hold. -/
def children (t : TrafficClass κ) : List ℕ :=
  match t.policy with
  | .priority p => p.children.map PriorityChild.c
  | .weightedFair w => (w.runnable ++ w.blocked).map FairChild.c
  | .roundRobin r => r.runnable ++ r.blocked
  | .rateLimit l => l.child.toList
  | .leaf _ => []

/-- `policy_`, the constant. -/
def kind (t : TrafficClass κ) : PolicyKind :=
  match t.policy with
  | .priority _ => .priority
  | .weightedFair _ => .weightedFair
  | .roundRobin _ => .roundRobin
  | .rateLimit _ => .rateLimit
  | .leaf _ => .leaf

/-- `PickNextChild`. -/
def pickNextChild (t : TrafficClass κ) : Option ℕ :=
  match t.policy with
  | .priority p => p.children[p.firstRunnable]?.map PriorityChild.c
  | .weightedFair w => w.runnable.head?.map FairChild.c
  | .roundRobin r => r.runnable[r.nextChild]?
  | .rateLimit l => l.child
  | .leaf _ => none

/-- The child of a rate limit class is missing or blocked. -/
def childBlocked (l : RateLimitTrafficClass) : Bool :=
  match l.child with
  | none => true
  | some c => flags c

/-- `UnblockTowardsRoot`, what it does to the class itself. -/
def unblock (tsc : ℕ) (t : TrafficClass κ) : TrafficClass κ :=
  match t.policy with
  | .priority p =>
      let p := p.seek flags 0
      { t with policy := .priority p, blocked := decide (p.children.length ≤ p.firstRunnable) }
  | .weightedFair w =>
      let w := w.unblock pf flags
      { t with policy := .weightedFair w, blocked := w.runnable.isEmpty }
  | .roundRobin r =>
      let r := r.unblock flags
      { t with policy := .roundRobin r, blocked := r.runnable.isEmpty }
  | .rateLimit l =>
      { t with policy := .rateLimit { l with lastTsc := tsc }
               blocked := decide (t.wakeupTime ≠ 0) || childBlocked flags l }
  | .leaf l => { t with policy := .leaf l, blocked := false }

/-- `BlockTowardsRoot`, what it does to the class itself. -/
def block (t : TrafficClass κ) : TrafficClass κ :=
  match t.policy with
  | .priority p =>
      let p := p.seek flags p.firstRunnable
      { t with policy := .priority p, blocked := decide (p.firstRunnable = p.children.length) }
  | .weightedFair w =>
      let w := w.block pf flags
      { t with policy := .weightedFair w, blocked := w.runnable.isEmpty }
  | .roundRobin r =>
      let r := r.block flags
      { t with policy := .roundRobin r, blocked := r.runnable.isEmpty }
  | .rateLimit l => { t with blocked := childBlocked flags l }
  | .leaf l => { t with policy := .leaf l, blocked := false }

/-- `FinishAndAccountTowardsRoot` of a class above the leaf, what it does to the class itself; the
flag tells whether the class is added to the wake-up queue. -/
def finish (child : ℕ) (usage : Usage) (tsc : ℕ) (t : TrafficClass κ) :
    Option (TrafficClass κ × Bool) :=
  match t.policy with
  | .priority p =>
      let p := p.finish flags child
      some ({ t with policy := .priority p
                     blocked := if flags child then decide (p.firstRunnable = p.children.length)
                       else t.blocked }, false)
  | .weightedFair w =>
      (w.finish pf flags child usage).map fun w' =>
        ({ t with policy := .weightedFair w'
                  blocked := if flags child then w'.runnable.isEmpty else t.blocked }, false)
  | .roundRobin r =>
      (r.finish flags child usage).map fun r' =>
        ({ t with policy := .roundRobin r'
                  blocked := if flags child then r'.runnable.isEmpty else t.blocked }, false)
  | .rateLimit l =>
      let sleeps := decide (l.Exceeds usage tsc ∧ l.limit ≠ 0)
      some ({ t with policy := .rateLimit (l.finish usage tsc)
                     wakeupTime := if sleeps then l.wakeup usage tsc else t.wakeupTime
                     blocked := t.blocked || decide (l.Exceeds usage tsc) || flags child }, sleeps)
  | .leaf _ => some (t, false)

/-- What distinguishes a child for its parent: a priority, a share, or nothing. -/
inductive ChildArg where
  | priority (priority : ℕ)
  | share (share : ℤ)
  | none

/-- `AddChild`, what it does to the parent; the flag tells whether it calls
`UnblockTowardsRoot`. -/
def addChild (t : TrafficClass κ) (blocked : Bool) (c : ℕ) (arg : ChildArg) :
    Option (TrafficClass κ × Bool) :=
  match t.policy, arg with
  | .priority p, .priority priority =>
      (p.addChild c priority).map fun p' => ({ t with policy := .priority p' }, true)
  | .weightedFair w, .share share =>
      (w.addChild pf blocked c share).map fun (w', notify) =>
        ({ t with policy := .weightedFair w' }, notify)
  | .roundRobin r, .none => some ({ t with policy := .roundRobin (r.addChild blocked c) }, true)
  | .rateLimit l, .none =>
      if l.child = Option.none then
        some ({ t with policy := .rateLimit { l with child := some c } }, true)
      else Option.none
  | _, _ => Option.none

/-- `RemoveChild`, what it does to the parent; the flag tells whether it calls
`BlockTowardsRoot`. -/
def removeChild (t : TrafficClass κ) (c : ℕ) : Option (TrafficClass κ × Bool) :=
  match t.policy with
  | .priority p => (p.removeChild c).map fun p' => ({ t with policy := .priority p' }, true)
  | .weightedFair w =>
      (w.removeChild pf c).map fun (w', notify) => ({ t with policy := .weightedFair w' }, notify)
  | .roundRobin r =>
      (r.removeChild c).map fun (r', notify) => ({ t with policy := .roundRobin r' }, notify)
  | .rateLimit l =>
      if l.child = some c then
        some ({ t with policy := .rateLimit { l with child := Option.none } }, true)
      else Option.none
  | .leaf _ => Option.none

end TrafficClass

/-! ### The walks towards the root -/

/-- All classes, by their addresses. -/
abbrev Classes (κ : Type) := ℕ → TrafficClass κ

namespace Classes

variable (pf : Platform κ) (tc : Classes κ)

/-- The `blocked_` flags. -/
def flags (c : ℕ) : Bool := (tc c).blocked

/-- The wake-up times, by which the wake-up queue is ordered. -/
def wakeupTime (c : ℕ) : ℕ := (tc c).wakeupTime

/-- `UnblockTowardsRoot`: the parent is told if the class became unblocked. -/
def unblockTowardsRoot : ℕ → Classes κ → ℕ → ℕ → Option (Classes κ)
  | 0, _, _, _ => none
  | fuel + 1, tc, c, tsc =>
      let t := (tc c).unblock pf tc.flags tsc
      let tc' := Function.update tc c t
      match t.parent with
      | some p =>
          if (tc c).blocked && !t.blocked then unblockTowardsRoot fuel tc' p tsc else some tc'
      | none => some tc'

/-- `BlockTowardsRoot`: the parent is told if the class became blocked. -/
def blockTowardsRoot : ℕ → Classes κ → ℕ → Option (Classes κ)
  | 0, _, _ => none
  | fuel + 1, tc, c =>
      let t := (tc c).block pf tc.flags
      let tc' := Function.update tc c t
      match t.parent with
      | some p =>
          if !(tc c).blocked && t.blocked then blockTowardsRoot fuel tc' p else some tc'
      | none => some tc'

/-- `FinishAndAccountTowardsRoot` from the parent of `child` on, with the wake-up queue. -/
def finishTowardsRoot : ℕ → Classes κ × List ℕ → Option ℕ → ℕ → Usage → ℕ →
    Option (Classes κ × List ℕ)
  | 0, _, _, _, _, _ => none
  | _ + 1, s, none, _, _, _ => some s
  | fuel + 1, (tc, queue), some c, child, usage, tsc =>
      ((tc c).finish pf tc.flags child usage tsc).bind fun (t, sleeps) =>
        let tc' := Function.update tc c t
        let queue' := if sleeps then pf.wakeupHeap.push (wakeupTime tc') queue c else queue
        finishTowardsRoot fuel (tc', queue') t.parent c usage tsc

end Classes

end Bess
