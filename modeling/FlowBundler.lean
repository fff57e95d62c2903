import FlowBundler.Lib.Dyadic
import FlowBundler.Lib.Loop
import FlowBundler.Lib.Wheel
import FlowBundler.Lib.Chain
import FlowBundler.Lib.Ledger
import FlowBundler.Lib.Tally
import FlowBundler.Lib.Machine
import FlowBundler.Lib.Ring
import FlowBundler.Lib.Fifo
import FlowBundler.Lib.Shelf
import FlowBundler.Lib.Occupancy
import FlowBundler.Lib.Pacing
import FlowBundler.Lib.Layers
import FlowBundler.Lib.Lookup
import FlowBundler.Lib.Marks
import FlowBundler.Lib.Windows
import FlowBundler.Lib.Heap
import FlowBundler.Lib.Forest
import FlowBundler.Lib.Bucket
import FlowBundler.Lib.Spread
import FlowBundler.Kernel.Calendar
import FlowBundler.Kernel.Sched
import FlowBundler.Kernel.Run
import FlowBundler.Kernel.Repr
import FlowBundler.Kernel.Timing
import FlowBundler.Kernel.Enqueue
import FlowBundler.Kernel.Dequeue
import FlowBundler.Kernel.Invariant
import FlowBundler.Kernel.Service
import FlowBundler.Kernel.Drain
import FlowBundler.Kernel.Conservation
import FlowBundler.Kernel.FlowOrder
import FlowBundler.Kernel.Contents
import FlowBundler.Kernel.Limit
import FlowBundler.Kernel.Teardown
import FlowBundler.Kernel.Lookup
import FlowBundler.Kernel.Search
import FlowBundler.Kernel.Congestion
import FlowBundler.Kernel.CongestionRate
import FlowBundler.Kernel.Gq
import FlowBundler.Kernel.Carousel.Sched
import FlowBundler.Kernel.Carousel.Operations
import FlowBundler.Kernel.Carousel.Accounts
import FlowBundler.Kernel.Carousel.Wheel
import FlowBundler.Kernel.Carousel.Aliasing
import FlowBundler.Kernel.Eiffel.Sched
import FlowBundler.Kernel.Eiffel.Tree
import FlowBundler.Kernel.Eiffel.Priority
import FlowBundler.Kernel.Eiffel.Operations
import FlowBundler.Kernel.Eiffel.Service
import FlowBundler.Kernel.Eiffel.Reset
import FlowBundler.Kernel.Eiffel.Occupied
import FlowBundler.Kernel.Eiffel.Sizing
import FlowBundler.Kernel.Eiffel.Range
import FlowBundler.Bess.Pool
import FlowBundler.Bess.FreeList
import FlowBundler.Bess.Bundler
import FlowBundler.Bess.Run
import FlowBundler.Bess.Repr
import FlowBundler.Bess.Operations
import FlowBundler.Bess.Bookkeeping
import FlowBundler.Bess.Timing
import FlowBundler.Bess.Scan
import FlowBundler.Bess.Service
import FlowBundler.Bess.FlowOrder
import FlowBundler.Bess.Generator
import FlowBundler.Bess.TokenQueue
import FlowBundler.Bess.Task
import FlowBundler.Bess.Progress
import FlowBundler.Bess.Templates
import FlowBundler.Bess.Accounts
import FlowBundler.Bess.Tokens
import FlowBundler.Bess.Lookup
import FlowBundler.Bess.Rotation
import FlowBundler.Bess.Report
import FlowBundler.Bess.Bytes
import FlowBundler.Bess.Shifts
import FlowBundler.Bess.Rejection
import FlowBundler.Bess.ListBucket
import FlowBundler.Bess.Pacing
import FlowBundler.Bess.Estimator
import FlowBundler.Bess.Carousel.Sched
import FlowBundler.Bess.Carousel.Wheel
import FlowBundler.Bess.Eiffel.Sched
import FlowBundler.Bess.Eiffel.BitMap
import FlowBundler.Bess.Eiffel.MapRuns
import FlowBundler.Bess.Eiffel.Queues
import FlowBundler.Bess.Eiffel.Marked
import FlowBundler.Bess.Eiffel.Horizon
import FlowBundler.Bess.Eiffel.Run
import FlowBundler.Bess.Eiffel.Service
import FlowBundler.Bess.Eiffel.Rotation
import FlowBundler.Bess.Eiffel.Bits
import FlowBundler.Bess.Counts
import FlowBundler.Bess.OwnTokens
import FlowBundler.Core.TrafficClass
import FlowBundler.Core.Policies
import FlowBundler.Core.Children
import FlowBundler.Core.Tree
import FlowBundler.Core.Scheduler
import FlowBundler.Core.Rounds
import FlowBundler.Core.Changes
import FlowBundler.Core.Service
import FlowBundler.Core.RateLimit
import FlowBundler.Core.Fair
import FlowBundler.Lib.Explore
import FlowBundler.Core.ModuleGraph
import FlowBundler.Core.TaskGraph
import FlowBundler.Core.Overload
import FlowBundler.Core.Metadata
import FlowBundler.Core.ActiveWorkers
import FlowBundler.Core.Placement
