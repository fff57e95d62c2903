import FlowBundler.Kernel.Invariant

/-!
The search of `dfb_dequeue` for the next packet, when the bitmap is not empty and nothing is due.

* `EntersSearch`: the scan up to the clock has found nothing, and the head time it stopped at.
* `searchTime`, `searchEmpty`: the times the search tests, as 64-bit words, and the test.
* `next_search_ends`: in every reached state the search ends at a bucket with a packet.

That a dequeue returns is known from the invariants.  A dequeue that enters the search ends as the
search does (`dequeueCalendar_search`), so the search ends as well, and what a loop of the library
has done when it ended tells how many buckets it tested and that all but the last were empty.
-/

namespace Dfb

variable {P : Params} {sch : Qdisc} {now t : ℕ}

/-- The step of the scan and of the search, `granularity`. -/
def scanGranularity (sch : Qdisc) : ℕ := 1 <<< (sch.priv.highestRateQid + minGranScale) % 2 ^ 64

/-- The head time at which the scan up to the clock ends when it finds no packet. -/
def scanEnd (sch : Qdisc) (now : ℕ) : Option ℕ :=
  (Loop.whileDue now (scanGranularity sch) (dfbScanRound sch sch.priv.highestRateQid) (2 ^ 64)
    (sch.priv.headTime &&& dfbHeadTimeMask sch.priv.highestRateQid)).bind Sum.getRight?

/-- `dfb_dequeue` at the clock `now` finds nothing in `sch->q` and nothing due in a calendar that is
not empty: its scan ends at the head time `t`. -/
def EntersSearch (sch : Qdisc) (now t : ℕ) : Prop :=
  sch.q = [] ∧ sch.priv.bitmap ≠ 0 ∧ scanEnd sch now = some t

instance (sch : Qdisc) (now t : ℕ) : Decidable (EntersSearch sch now t) :=
  inferInstanceAs (Decidable (_ ∧ _ ∧ _))

/-- The value of `next_time` at the test number `n` of a search that starts at `t`. -/
def searchTime (sch : Qdisc) (t n : ℕ) : ℕ := (t + n * scanGranularity sch) % 2 ^ 64

/-- `dfb_bucket_is_empty` of the bucket that the search looks up at a time. -/
def searchEmpty (sch : Qdisc) (s : ℕ) : Bool :=
  dfbBucketIsEmpty (sch.bucket (dfbFindRealLocation sch.priv.highestRateQid s))

/-- The `do … while` loop of the search, for at most `rounds` rounds. -/
def nextSearch (sch : Qdisc) (t rounds : ℕ) : Option ℕ :=
  Loop.doUntil (scanGranularity sch) (fun s => !searchEmpty sch s) rounds
    ((t + 2 ^ 64 - scanGranularity sch) % 2 ^ 64)

lemma scanGranularity_le (sch : Qdisc) : scanGranularity sch ≤ 2 ^ 64 :=
  (Nat.mod_lt _ (by norm_num)).le

/-- The search subtracts one step before it starts, and adds it back in its first round. -/
lemma searchTime_eq (sch : Qdisc) (t n : ℕ) :
    ((t + 2 ^ 64 - scanGranularity sch) % 2 ^ 64 + (n + 1) * scanGranularity sch) % 2 ^ 64
      = searchTime sch t n := by
  have hle := scanGranularity_le sch
  have hsum : t + 2 ^ 64 - scanGranularity sch + (n + 1) * scanGranularity sch
      = t + n * scanGranularity sch + 2 ^ 64 := by
    rw [Nat.add_mul, Nat.one_mul]
    omega
  rw [Nat.mod_add_mod, hsum, Nat.add_mod_right, searchTime]

/-- A dequeue that enters the search ends as the search does. -/
lemma dequeueCalendar_search (henter : EntersSearch sch now t) :
    dfbDequeueCalendar sch now = (nextSearch sch t (2 ^ 64)).map fun next =>
      { sch := { sch with priv := { sch.priv with
          headTime := now &&& dfbHeadTimeMask sch.priv.highestRateQid } }
        skb := none, watchdog := some next } := by
  obtain ⟨-, hbits, hend⟩ := henter
  obtain ⟨out, hscan, hright⟩ := Option.bind_eq_some_iff.mp hend
  rw [Sum.getRight?_eq_some_iff] at hright
  rw [hright] at hscan
  rw [dfbDequeueCalendar]
  dsimp only
  rw [if_neg hbits, ← scanGranularity, hscan]
  dsimp only
  cases hsearch : nextSearch sch t (2 ^ 64) with
  | none =>
      simp only [nextSearch, searchEmpty] at hsearch
      rw [hsearch]
      rfl
  | some next =>
      simp only [nextSearch, searchEmpty] at hsearch
      rw [hsearch]
      rfl

/-- **The search for the next packet ends**: in every state reached with times below `2^62`, a
`dfb_dequeue` that enters the search tests finitely many buckets, the last of which is the first
with a packet, and then arms the watchdog at the time of that bucket. -/
theorem next_search_ends {w : World} (hw : Reach P World.Admits w) (hnow : now < 2 ^ 62)
    (henter : EntersSearch w.sch now t) :
    ∃ n, nextSearch w.sch t (n + 1) = some (searchTime w.sch t n) ∧
      searchEmpty w.sch (searchTime w.sch t n) = false ∧
      (∀ j < n, searchEmpty w.sch (searchTime w.sch t j) = true) ∧
      ∀ tTime, ∃ r, dfbDequeue P w.sch now tTime = some r ∧ r.skb = none ∧
        r.watchdog = some (searchTime w.sch t n) := by
  have hinv := reach_inv hw
  obtain ⟨r, hrun, -⟩ := calendar_spec hinv.repr hinv.timed hnow
  obtain ⟨next, hsearch, hr⟩ := Option.map_eq_some_iff.mp (dequeueCalendar_search henter ▸ hrun)
  obtain ⟨n, -, rfl, hstop, hbefore, hends⟩ := Loop.doUntil_some hsearch
  rw [searchTime_eq] at hr hstop hends
  refine ⟨n, hends, by simpa using hstop, fun j hj => ?_, fun tTime => ?_⟩
  · have hj := hbefore j hj
    rw [searchTime_eq] at hj
    simpa using hj
  · refine ⟨{ r with sch := dfbDequeueDone P r.sch r.skb tTime }, ?_, ?_, ?_⟩
    · rw [dfbDequeue, henter.1]
      dsimp only
      rw [hrun, Option.map_some]
    · rw [← hr]
    · rw [← hr]

/-- Two packets due at 5000 and 9500 nanoseconds, at a granule of 512 nanoseconds.  Once the first
is gone a dequeue at 6000 enters the search at 6144. -/
theorem next_search_ends_run :
    ∃ w, Reach plainParams World.Admits w ∧ EntersSearch w.sch 6000 6144 ∧
      nextSearch w.sch 6144 7 = some 9216 ∧
      ∃ n, nextSearch w.sch 6144 (n + 1) = some (searchTime w.sch 6144 n) ∧
        searchEmpty w.sch (searchTime w.sch 6144 n) = false ∧
        (∀ j < n, searchEmpty w.sch (searchTime w.sch 6144 j) = true) ∧
        ∀ tTime, ∃ r, dfbDequeue plainParams w.sch 6000 tTime = some r ∧ r.skb = none ∧
          r.watchdog = some (searchTime w.sch 6144 n) := by
  obtain ⟨w, hw, henter, hseventh⟩ := exists_reach plainParams World.Admits
    [.enqueue 1 (pacedSkb 2500000000 5000) [], .enqueue 2 (pacedSkb 2500000000 9500) [],
      .dequeue 5000 5000]
    (fun w => EntersSearch w.sch 6000 6144 ∧ nextSearch w.sch 6144 7 = some 9216)
    (by decide +kernel)
  exact ⟨w, hw, henter, hseventh, next_search_ends hw (by norm_num) henter⟩

end Dfb
