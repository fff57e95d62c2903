import FlowBundler.Core.TrafficClass
import FlowBundler.Lib.Forest
import FlowBundler.Lib.Machine

/-!
The scheduler of a worker (`scheduler.h`), and the operations on its tree of traffic classes.

* `NewClass`, `create`: the classes that can be made, with the data their constructors give them.
* `Scheduler`: all classes that were created, the root, the wake-up queue and the checkpoint.
* `wakeTCs`, `next`, `account`: what both schedulers do in a round; `scheduleOnceDefault` and
  `scheduleOnceExperimental` are the rounds themselves, the second of which puts a leaf without
  packets to sleep and wakes it up after twice its last wait.
* `addChild`, `removeChild`, `attachOrphan`, `adjustDefault`, `removeRoot`, `updateTcParams`: the
  changes that commands make to the tree.
* `Op`, `step`: the operations of a run.

A class is created at the next free address, and none is given twice.  `rdtsc()` and the result of a
task are arguments, so that a run is determined by its operations.  An operation answers `none`
where it would not return or read what does not exist; a command that is refused returns `false`.
-/

namespace Bess

open MinHeap

variable {κ : Type} [LinearOrder κ]

/-! ### New classes -/

/-- What the constructors of the classes take. -/
inductive NewClass where
  | priority
  | weightedFair (resource : Resource)
  | roundRobin
  | rateLimit (resource : Resource) (limit maxBurst : ℕ)
  | leaf

/-- `LeafTrafficClass::kInitialWaitCycles`. -/
def kInitialWaitCycles : ℕ := 2 ^ 14

/-- The data a class starts with; `set_limit` and `set_max_burst` take resource units. -/
def NewClass.policy (pf : Platform κ) : NewClass → TrafficPolicy κ
  | .priority => .priority { firstRunnable := 0, children := [] }
  | .weightedFair resource =>
      .weightedFair { resource := resource, runnable := [], blocked := [] }
  | .roundRobin => .roundRobin { nextChild := 0, runnable := [], blocked := [], allChildren := [] }
  | .rateLimit resource limit maxBurst =>
      .rateLimit { resource := resource
                   limit := toWorkUnitsPerCycle pf.tscHz limit
                   maxBurst := toWorkUnits maxBurst
                   tokens := 0
                   lastTsc := 0
                   child := none }
  | .leaf => .leaf { waitCycles := kInitialWaitCycles }

/-- A new class has no parent; only a leaf is not blocked. -/
def NewClass.create (pf : Platform κ) (new : NewClass) : TrafficClass κ :=
  { parent := none
    wakeupTime := 0
    blocked := match new with
      | .leaf => false
      | _ => true
    policy := new.policy pf }

/-! ### The scheduler -/

/-- `Scheduler`, with all classes that were created. -/
structure Scheduler (κ : Type) where
  tc : Classes κ
  num : ℕ
  root : Option ℕ
  defaultRr : Option ℕ
  wakeupQueue : List ℕ
  checkpoint : ℕ

namespace Scheduler

/-- `task_result`. -/
structure TaskResult where
  block : Bool
  packets : ℕ
  bits : ℕ

variable (pf : Platform κ)

/-- The fuel of a walk: there are not more classes above one than were created. -/
def fuel (s : Scheduler κ) : ℕ := s.num + 1

/-! #### Choosing a leaf -/

/-- `WakeTCs`: the classes whose wake-up time has passed, the earliest first. -/
def wakeTCs (walk tsc : ℕ) : ℕ → Classes κ × List ℕ → Option (Classes κ × List ℕ)
  | 0, _ => none
  | _ + 1, (tc, []) => some (tc, [])
  | fuel + 1, (tc, c :: queue) =>
      let wakeupTime := (tc c).wakeupTime
      if wakeupTime < tsc then
        let queue' := pf.wakeupHeap.pop tc.wakeupTime (c :: queue)
        let tc' : Classes κ := Function.update tc c { tc c with wakeupTime := 0 }
        (Classes.unblockTowardsRoot pf walk tc' c wakeupTime).bind fun tc'' =>
          wakeTCs walk tsc fuel (tc'', queue')
      else some (tc, c :: queue)

/-- The loop of `Next`. -/
def pickLeaf (tc : Classes κ) : ℕ → ℕ → Option ℕ
  | 0, _ => none
  | fuel + 1, c =>
      if (tc c).kind = .leaf then some c else (tc c).pickNextChild.bind (pickLeaf tc fuel)

/-- `Next`; a scheduler without a root that may run has no leaf. -/
def next (s : Scheduler κ) (tsc : ℕ) : Option (Scheduler κ × Option ℕ) :=
  (wakeTCs pf s.fuel tsc (s.wakeupQueue.length + 1) (s.tc, s.wakeupQueue)).bind
    fun (tc, queue) =>
      let s' := { s with tc := tc, wakeupQueue := queue }
      match s.root with
      | none => some (s', none)
      | some root =>
          if (tc root).blocked then some (s', none)
          else (pickLeaf tc s.fuel root).map fun leaf => (s', some leaf)

/-! #### Running it -/

/-- The usage of a run. -/
def usage (checkpoint now : ℕ) (ret : TaskResult) : Usage :=
  { count := 1
    cycle := (now + 2 ^ 64 - checkpoint) % 2 ^ 64
    packet := ret.packets
    bit := ret.bits }

/-- The accounting of a run. -/
def account (s : Scheduler κ) (leaf : ℕ) (usage : Usage) (now : ℕ) : Option (Scheduler κ) :=
  (Classes.finishTowardsRoot pf s.fuel (s.tc, s.wakeupQueue) (s.tc leaf).parent leaf usage now).map
    fun (tc, queue) => { s with tc := tc, wakeupQueue := queue, checkpoint := now }

/-- `DefaultScheduler::ScheduleOnce`. -/
def scheduleOnceDefault (s : Scheduler κ) (now : ℕ) (ret : TaskResult) : Option (Scheduler κ) :=
  (s.next pf s.checkpoint).bind fun (s, next) =>
    match next with
    | some leaf => s.account pf leaf (usage s.checkpoint now ret) now
    | none => some { s with checkpoint := now }

def kMaxWait : ℕ := 2 ^ 20

/-- `wait_cycles`; zero for a class that is not a leaf. -/
def waitCycles (t : TrafficClass κ) : ℕ :=
  match t.policy with
  | .leaf l => l.waitCycles
  | _ => 0

/-- `set_wait_cycles`. -/
def setWaitCycles (t : TrafficClass κ) (waitCycles : ℕ) : TrafficClass κ :=
  match t.policy with
  | .leaf _ => { t with policy := .leaf { waitCycles := waitCycles } }
  | _ => t

/-- The wait of a leaf that is put to sleep: twice its last one, up to a bound. -/
def wait (s : Scheduler κ) (leaf : ℕ) : ℕ := min kMaxWait (waitCycles (s.tc leaf) * 2 % 2 ^ 64)

/-- A leaf without packets is put to sleep. -/
def putToSleep (s : Scheduler κ) (leaf now : ℕ) : Scheduler κ :=
  let t := { setWaitCycles (s.tc leaf) (s.wait leaf) with
    blocked := true, wakeupTime := (now + s.wait leaf) % 2 ^ 64 }
  let tc : Classes κ := Function.update s.tc leaf t
  { s with tc := tc, wakeupQueue := pf.wakeupHeap.push tc.wakeupTime s.wakeupQueue leaf }

/-- The leaf will sleep for half as long. -/
def shortenWait (s : Scheduler κ) (leaf : ℕ) : Scheduler κ :=
  let wait := (waitCycles (s.tc leaf) + 1) % 2 ^ 64 / 2
  { s with tc := Function.update s.tc leaf (setWaitCycles (s.tc leaf) wait) }

/-- `ExperimentalScheduler::ScheduleOnce`. -/
def scheduleOnceExperimental (s : Scheduler κ) (now : ℕ) (ret : TaskResult) :
    Option (Scheduler κ) :=
  (s.next pf s.checkpoint).bind fun (s, next) =>
    match next with
    | some leaf =>
        if ret.packets = 0 ∧ ret.block then
          (s.putToSleep pf leaf now).account pf leaf ⟨0, 0, 0, 0⟩ now
        else (s.shortenWait leaf).account pf leaf (usage s.checkpoint now ret) now
    | none => some { s with checkpoint := now }

/-! #### Changing the tree -/

/-- `CreateTrafficClass`. -/
def create (s : Scheduler κ) (new : NewClass) : Scheduler κ :=
  { s with tc := Function.update s.tc s.num (new.create pf), num := s.num + 1 }

/-- `AddChild`. -/
def addChild (s : Scheduler κ) (p c : ℕ) (arg : TrafficClass.ChildArg) (tsc : ℕ) :
    Option (Scheduler κ × Bool) :=
  if (s.tc c).parent.isSome then some (s, false)
  else
    match (s.tc p).addChild pf (s.tc c).blocked c arg with
    | none => some (s, false)
    | some (t, notify) =>
        let tc := Function.update (Function.update s.tc c { s.tc c with parent := some p }) p t
        if notify then
          (Classes.unblockTowardsRoot pf s.fuel tc p tsc).map fun tc' =>
            ({ s with tc := tc' }, true)
        else some ({ s with tc := tc }, true)

/-- `RemoveChild`. -/
def removeChild (s : Scheduler κ) (p c : ℕ) : Option (Scheduler κ × Bool) :=
  if (s.tc c).parent ≠ some p then some (s, false)
  else
    match (s.tc p).removeChild pf c with
    | none => some (s, false)
    | some (t, notify) =>
        let tc := Function.update (Function.update s.tc c { s.tc c with parent := none }) p t
        if notify then
          (Classes.blockTowardsRoot pf s.fuel tc p).map fun tc' => ({ s with tc := tc' }, true)
        else some ({ s with tc := tc }, true)

/-- `AttachOrphan`; the clock is read for each class that is added. -/
def attachOrphan (s : Scheduler κ) (c tsc tsc' : ℕ) : Option (Scheduler κ × Bool) :=
  match s.root, s.defaultRr with
  | none, _ => some ({ s with root := some c }, true)
  | some _, some rr => s.addChild pf rr c .none tsc
  | some root, none =>
      let rr := s.num
      let s₁ := { s.create pf .roundRobin with defaultRr := some rr }
      (s₁.addChild pf rr root .none tsc).bind fun (s₂, _) =>
        (s₂.addChild pf rr c .none tsc').map fun (s₃, _) => ({ s₃ with root := some rr }, true)

/-- `AdjustDefault`; the class that is deleted stays where nothing refers to it. -/
def adjustDefault (s : Scheduler κ) : Option (Scheduler κ) :=
  match s.root, s.defaultRr with
  | some root, some rr =>
      match (s.tc rr).policy with
      | .roundRobin r =>
          match r.allChildren with
          | [] => some { s with root := none, defaultRr := none }
          | [c] => (s.removeChild pf root c).map fun (s', _) =>
              { s' with root := some c, defaultRr := none }
          | _ => some s
      | _ => none
  | _, _ => some s

/-- `RemoveRoot`. -/
def removeRoot (s : Scheduler κ) (c : ℕ) : Scheduler κ × Bool :=
  if s.root = some c ∧ s.defaultRr = none then ({ s with root := none }, true) else (s, false)

/-- `UpdateTcParams`, for a class whose policy has parameters. -/
def updateTcParams (s : Scheduler κ) (c : ℕ) (resource : Resource) (limit maxBurst : Option ℕ) :
    Scheduler κ :=
  match (s.tc c).policy with
  | .rateLimit l =>
      let l' := { l with
        resource := resource
        limit := (limit.map (toWorkUnitsPerCycle pf.tscHz)).getD l.limit
        maxBurst := (maxBurst.map toWorkUnits).getD l.maxBurst }
      { s with tc := Function.update s.tc c { s.tc c with policy := .rateLimit l' } }
  | .weightedFair w =>
      let w' := { w with resource := resource }
      { s with tc := Function.update s.tc c { s.tc c with policy := .weightedFair w' } }
  | _ => s

/-! #### Runs -/

/-- The operations on a scheduler. -/
inductive Op where
  | create (new : NewClass)
  | addChild (p c : ℕ) (arg : TrafficClass.ChildArg) (tsc : ℕ)
  | removeChild (p c : ℕ)
  | attachOrphan (c tsc tsc' : ℕ)
  | adjustDefault
  | removeRoot (c : ℕ)
  | updateTcParams (c : ℕ) (resource : Resource) (limit maxBurst : Option ℕ)
  | scheduleOnceDefault (now : ℕ) (ret : TaskResult)
  | scheduleOnceExperimental (now : ℕ) (ret : TaskResult)

def step (s : Scheduler κ) : Op → Option (Scheduler κ)
  | .create new => some (s.create pf new)
  | .addChild p c arg tsc => (s.addChild pf p c arg tsc).map Prod.fst
  | .removeChild p c => (s.removeChild pf p c).map Prod.fst
  | .attachOrphan c tsc tsc' => (s.attachOrphan pf c tsc tsc').map Prod.fst
  | .adjustDefault => s.adjustDefault pf
  | .removeRoot c => some (s.removeRoot c).1
  | .updateTcParams c resource limit maxBurst =>
      some (s.updateTcParams pf c resource limit maxBurst)
  | .scheduleOnceDefault now ret => s.scheduleOnceDefault pf now ret
  | .scheduleOnceExperimental now ret => s.scheduleOnceExperimental pf now ret

end Scheduler

end Bess
