import FlowBundler.Bess.Generator
import FlowBundler.Lib.Explore

/-!
The graph of modules (`module_graph.cc`, `module.h`, `module.cc`, `gate.cc`) and the module `Queue`
(`modules/queue.cc`), which tells the tasks above it when it is overloaded.

* `Module`, `ModuleGraph`: modules with their gates, and for each the tasks above it.
* `connect`, `disconnect`, `destroy`: the changes of the graph.
* `updateParentsAs`, `updateTaskGraph`: the search for the tasks above each module.
* `signalOverload`, `signalUnderload`, `processBatch`, `runTask`: the data path of a queue.
* `Pipeline`, `Op`, `step`: a run of commands, batches and tasks.  The workers are paused and
  resumed by operations of their own, since commands that take a gate or a module away need them
  paused, and since `ResumeAll` runs the hooks that update the graph while `ResumeWorker` does not.

A module is known by its address, a number, which is never given twice.  A module that was destroyed
is not in `all`; an operation that would use its memory answers `none`, and so does a search that
does not come to an end.  The ring of a queue is a list, its `double` factors are rational: for
powers of two below 2^15 both round the same way.
-/

namespace Bess

/-! ### Data -/

/-- `Queue`; `bess::Packet` stands for its address and its length. -/
structure Queue where
  ring : List Packet
  size : ℕ
  backpressure : Bool
  burst : ℕ
  highWater : ℕ
  lowWater : ℕ
  enqueued : ℕ
  dequeued : ℕ
  dropped : ℕ

/-- `Module`.  An output gate is connected to an input gate, which is known by its module and its
index. -/
structure Module where
  isTask : Bool
  numIGates : ℕ
  numOGates : ℕ
  ogates : List (Option (ℕ × ℕ))
  parentTasks : List ℕ
  childrenOverload : ℤ
  overload : Bool
  queue : Option Queue

/-- `ModuleGraph`, with the priorities of the input gates. -/
structure ModuleGraph where
  num : ℕ
  mods : ℕ → Module
  all : List ℕ
  tasks : List ℕ
  priority : ℕ × ℕ → ℕ
  changesMade : Bool

/-- `MAX_GATES`. -/
def maxGates : ℕ := 8192

/-! ### The queue by itself -/

namespace Queue

/-- `AdjustWaterLevels`, with the ratios `0.90` and `0.15`. -/
def adjustWaterLevels (q : Queue) : Queue :=
  { q with highWater := q.size * 90 / 100, lowWater := q.size * 15 / 100 }

/-- `Resize`; a ring has room for one packet less than its slots. -/
def resize (q : Queue) (slots : ℕ) : Queue :=
  let q' := { q with ring := q.ring.take (slots - 1), size := slots }
  if q.backpressure then q'.adjustWaterLevels else q'

/-- `SetSize`. -/
def setSize (q : Queue) (size : ℕ) : Option Queue :=
  if size < 4 ∨ 16384 < size then none
  else if size &&& (size - 1) ≠ 0 then none
  else some (q.resize size)

/-- `DEFAULT_QUEUE_SIZE`. -/
def defaultQueueSize : ℕ := 1024

/-- `Init`. -/
def init (size : ℕ) (backpressure : Bool) : Option Queue :=
  let q : Queue := { ring := [], size := 0, backpressure := backpressure, burst := kMaxBurst,
                     highWater := 0, lowWater := 0, enqueued := 0, dequeued := 0, dropped := 0 }
  if size ≠ 0 then q.setSize size else some (q.resize defaultQueueSize)

/-- `CommandSetBurst`. -/
def setBurst (q : Queue) (burst : ℕ) : Option Queue :=
  if kMaxBurst < burst then none else some { q with burst := burst }

/-- `SetRuntimeConfig`. -/
def setRuntimeConfig (q : Queue) (size : ℕ) (backpressure : Bool) : Option Queue :=
  (if q.size ≠ size ∧ size ≠ 0 then q.setSize size else some q).map fun q =>
    { q with backpressure := backpressure }

/-- `ProcessBatch`: what does not fit is dropped. -/
def enqueue (q : Queue) (batch : List Packet) : Queue :=
  let queued := batch.take (q.size - 1 - q.ring.length)
  { q with ring := q.ring ++ queued
           enqueued := q.enqueued + queued.length
           dropped := q.dropped + (batch.length - queued.length) }

/-- The packets that a task takes from the queue. -/
def front (q : Queue) : List Packet := q.ring.take q.burst

/-- They leave the queue. -/
def dequeue (q : Queue) : Queue :=
  { q with ring := q.ring.drop q.burst, dequeued := q.dequeued + q.front.length }

end Queue

/-! ### The graph -/

namespace ModuleGraph

variable (g : ModuleGraph)

/-- The modules behind the connected gates of a module, in the order of the gates. -/
def next (m : ℕ) : List ℕ := (g.mods m).ogates.filterMap fun gate => gate.map Prod.fst

def isTask (m : ℕ) : Bool := (g.mods m).isTask

/-- A module changes. -/
def set (m : ℕ) (module : Module) : ModuleGraph :=
  { g with mods := Function.update g.mods m module }

/-- `CreateModule`, for a module whose initialisation succeeds. -/
def create (isTask : Bool) (numIGates numOGates : ℕ) (queue : Option Queue) : ModuleGraph :=
  { g with
    num := g.num + 1
    mods := Function.update g.mods g.num
      { isTask := isTask, numIGates := numIGates, numOGates := numOGates, ogates := []
        parentTasks := [], childrenOverload := 0, overload := false, queue := queue }
    all := g.num :: g.all
    tasks := if isTask then g.num :: g.tasks else g.tasks }

/-- A vector with the gate at `o` set; it is resized if it is too short. -/
def setGate (ogates : List (Option (ℕ × ℕ))) (o : ℕ) (gate : Option (ℕ × ℕ)) :
    List (Option (ℕ × ℕ)) :=
  (ogates ++ List.replicate (o + 1 - ogates.length) none).set o gate

/-- An input gate that exists: some output gate is connected to it. -/
def connected (igate : ℕ × ℕ) : Bool := g.all.any fun m => (g.mods m).ogates.contains (some igate)

/-- `ConnectModules` with `ConnectGate`; an input gate that is created has priority zero. -/
def connect (m o m' i : ℕ) : ModuleGraph × Bool :=
  if (g.mods m).numOGates ≤ o ∨ maxGates ≤ o ∨ (g.mods m').numIGates ≤ i ∨ maxGates ≤ i then
    (g, false)
  else if ((g.mods m).ogates[o]?.getD none).isSome then ({ g with changesMade := true }, false)
  else
    ({ g.set m { g.mods m with ogates := setGate (g.mods m).ogates o (some (m', i)) } with
        changesMade := true
        priority := if g.connected (m', i) then g.priority
          else Function.update g.priority (m', i) 0 }, true)

/-- `DisconnectModule` with `DisconnectGate`. -/
def disconnect (m o : ℕ) : ModuleGraph × Bool :=
  if (g.mods m).numOGates ≤ o then (g, false)
  else ({ g.set m { g.mods m with ogates := (g.mods m).ogates.set o none } with
            changesMade := true }, true)

/-- `DestroyModule` with `Destroy`: every gate from or to the module is disconnected. -/
def destroy (m : ℕ) : ModuleGraph :=
  { g with
    mods := fun k => { g.mods k with
      ogates := if k = m then [] else (g.mods k).ogates.map fun gate =>
        gate.filter fun igate => igate.1 ≠ m }
    all := g.all.erase m
    tasks := g.tasks.erase m
    changesMade := true }

/-! #### The tasks above a module -/

/-- `AddParentTask`. -/
def addParentTask (task : ℕ) (mods : ℕ → Module) (m : ℕ) : ℕ → Module :=
  Function.update mods m { mods m with parentTasks := (mods m).parentTasks ++ [task] }

/-- What `UpdateParentsAs` does at a module. -/
def parentAs (task : ℕ) (mods : ℕ → Module) (m : ℕ) : ℕ → Module :=
  if g.isTask m then addParentTask task mods m else mods

/-- `UpdateParentsAs`: a task that is found gets the parent, and is not searched further. -/
def updateParentsAs (task fuel : ℕ) (s : List ℕ × (ℕ → Module)) (m : ℕ) :
    Option (List ℕ × (ℕ → Module)) :=
  Explore.visit g.next g.isTask (g.parentAs task) fuel s m

/-- `UpdateSingleTaskGraph`. -/
def updateSingleTaskGraph (task : ℕ) : Option ModuleGraph :=
  ((g.next task).foldlM (fun s m => if m ∈ s.1 then some s else g.updateParentsAs task g.num s m)
    ([task], g.mods)).map fun s => { g with mods := s.2 }

/-- The loop of `PropagateIGatePriority` and `SetIGatePriority`, over the gates of a module:
gates on the way, or with a longer way already, are left out. -/
def raiseIGates (g : ModuleGraph) : ℕ → List (ℕ × ℕ) → ℕ → (ℕ × ℕ → ℕ) → ℕ →
    Option (ℕ × ℕ → ℕ)
  | 0, _, _, _, _ => none
  | fuel + 1, visited, m, prio, priority =>
      (g.mods m).ogates.foldlM (fun prio gate =>
        match gate with
        | none => some prio
        | some igate =>
            if igate ∈ visited ∨ priority ≤ prio igate then some prio
            else
              let prio' := Function.update prio igate priority
              -- `PropagateIGatePriority`
              if g.isTask igate.1 then some prio'
              else raiseIGates g fuel (igate :: visited) igate.1 prio' (priority + 1)) prio

/-- The input gates, once for each gate that is connected to them. -/
def igates : List (ℕ × ℕ) := (List.range g.num).flatMap fun m => (g.mods m).ogates.filterMap id

/-- `SetIGatePriority`; a way has no gate twice. -/
def setIGatePriority (task : ℕ) : Option ModuleGraph :=
  (g.raiseIGates (g.igates.length + 1) [] task g.priority 1).map fun prio =>
    { g with priority := prio }

/-- `CleanTaskGraph`. -/
def cleanTaskGraph : ModuleGraph :=
  { g with mods := fun m =>
      if m ∈ g.tasks ∧ m ∈ g.all then { g.mods m with parentTasks := [] } else g.mods m }

/-- `UpdateTaskGraph`; the indices of the gates and the tasks' tables by them are left out. -/
def updateTaskGraph : Option ModuleGraph :=
  if !g.changesMade then some g
  else
    (g.tasks.foldlM (fun g task =>
      if task ∈ g.all then
        (g.updateSingleTaskGraph task).bind fun g => g.setIGatePriority task
      else some g) g.cleanTaskGraph).map fun g => { g with changesMade := false }

/-! #### Signals -/

/-- A counter of a task above a module. -/
def signal (d : ℤ) (mods : ℕ → Module) (p : ℕ) : ℕ → Module :=
  Function.update mods p { mods p with childrenOverload := (mods p).childrenOverload + d }

/-- The loop over the tasks above a module, and the flag that the module keeps. -/
def signalParents (d : ℤ) (overload : Bool) (m : ℕ) : ModuleGraph :=
  let mods := (g.mods m).parentTasks.foldl (signal d) g.mods
  { g with mods := Function.update mods m { mods m with overload := overload } }

/-- `SignalOverload`; a task that was destroyed must not be written to. -/
def signalOverload (m : ℕ) : Option ModuleGraph :=
  if (g.mods m).overload then some g
  else if (g.mods m).parentTasks.all (· ∈ g.all) then some (g.signalParents 1 true m)
  else none

/-- `SignalUnderload`. -/
def signalUnderload (m : ℕ) : Option ModuleGraph :=
  if !(g.mods m).overload then some g
  else if (g.mods m).parentTasks.all (· ∈ g.all) then some (g.signalParents (-1) false m)
  else none

/-! #### The data path of a queue -/

/-- `Queue::ProcessBatch`. -/
def processBatch (m : ℕ) (q : Queue) (batch : List Packet) : Option ModuleGraph :=
  let q' := q.enqueue batch
  let g' := g.set m { g.mods m with queue := some q' }
  if q'.backpressure ∧ q'.highWater < q'.ring.length then g'.signalOverload m else some g'

/-- `Queue::RunTask`, with the packets that it hands on. -/
def runTask (m : ℕ) (q : Queue) : Option (ModuleGraph × List Packet) :=
  if 0 < (g.mods m).childrenOverload then some (g, [])
  else if q.front = [] then some (g, [])
  else
    let q' := q.dequeue
    let g' := g.set m { g.mods m with queue := some q' }
    (if q'.backpressure ∧ q'.ring.length < q'.lowWater then g'.signalUnderload m else some g').map
      fun g'' => (g'', q.front)

end ModuleGraph

/-! ### Runs -/

/-- The graph, with whether the workers run. -/
structure Pipeline where
  graph : ModuleGraph
  running : Bool

namespace Pipeline

/-- The operations; a queue is named by its module.  `resume` is `ResumeAll`, or the end of a
`WorkerPauser`, which update the graph first; `resumeWorker` is `ResumeWorker`, which does not. -/
inductive Op where
  | create (isTask : Bool) (numIGates numOGates : ℕ)
  | createQueue (size : ℕ) (backpressure : Bool)
  | connect (m o m' i : ℕ)
  | disconnect (m o : ℕ)
  | destroy (m : ℕ)
  | pause
  | resume
  | resumeWorker
  | setBurst (m burst : ℕ)
  | setSize (m size : ℕ)
  | setRuntimeConfig (m size : ℕ) (backpressure : Bool)
  | processBatch (m : ℕ) (batch : List Packet)
  | runTask (m : ℕ)

/-- A command for the queue of a module; it may be refused. -/
def command (w : Pipeline) (m : ℕ) (f : Queue → Option Queue) : Pipeline :=
  match ((w.graph.mods m).queue).bind f with
  | some q => { w with graph := w.graph.set m { w.graph.mods m with queue := some q } }
  | none => w

def step (w : Pipeline) : Op → Option Pipeline
  | .create isTask numIGates numOGates =>
      some { w with graph := w.graph.create isTask numIGates numOGates none }
  | .createQueue size backpressure =>
      match Queue.init size backpressure with
      | some q => some { w with graph := w.graph.create true 1 1 (some q) }
      | none => some w
  | .connect m o m' i => some { w with graph := (w.graph.connect m o m' i).1 }
  | .disconnect m o => some { w with graph := (w.graph.disconnect m o).1 }
  | .destroy m => some { w with graph := w.graph.destroy m }
  | .pause => some { w with running := false }
  | .resume => w.graph.updateTaskGraph.map fun g => { graph := g, running := true }
  | .resumeWorker => some { w with running := true }
  | .setBurst m burst => some (w.command m fun q => q.setBurst burst)
  | .setSize m size => some (w.command m fun q => q.setSize size)
  | .setRuntimeConfig m size backpressure =>
      some (w.command m fun q => q.setRuntimeConfig size backpressure)
  | .processBatch m batch =>
      (w.graph.mods m).queue.bind fun q =>
        (w.graph.processBatch m q batch).map fun g => { w with graph := g }
  | .runTask m =>
      (w.graph.mods m).queue.bind fun q =>
        (w.graph.runTask m q).map fun s => { w with graph := s.1 }

/-- What the commands see to: modules that exist; a gate or a module is taken away while the
workers are paused, and packets move while they run. -/
def Admits (w : Pipeline) : Op → Prop
  | .connect m _ m' _ => m ∈ w.graph.all ∧ m' ∈ w.graph.all
  | .disconnect m _ => m ∈ w.graph.all ∧ w.running = false
  | .destroy m => m ∈ w.graph.all ∧ w.running = false
  | .setBurst m _ => m ∈ w.graph.all
  | .setSize m _ => m ∈ w.graph.all
  | .setRuntimeConfig m _ _ => m ∈ w.graph.all
  | .processBatch m _ => m ∈ w.graph.all ∧ w.running = true ∧ (w.graph.mods m).queue.isSome
  | .runTask m => m ∈ w.graph.all ∧ w.running = true ∧ (w.graph.mods m).queue.isSome
  | _ => True

/-- No modules yet. -/
def init : Pipeline where
  graph :=
    { num := 0
      mods := fun _ =>
        { isTask := false, numIGates := 0, numOGates := 0, ogates := [], parentTasks := []
          childrenOverload := 0, overload := false, queue := none }
      all := []
      tasks := []
      priority := fun _ => 0
      changesMade := false }
  running := false

end Pipeline

end Bess
