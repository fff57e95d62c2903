import FlowBundler.Core.Changes
import FlowBundler.Lib.Bucket

/-!
What a rate limit class lets through.

* `charge`: what a round charges to a class, in work units.
* `Balanced`: the tokens of a class and what it was charged for conform to its limit, as an account
  of the library does.  While a class sleeps its clock is the time it is to wake up: its debt is
  taken to be paid by then.
* `Balanced.unblock`: `WakeTCs` hands `UnblockTowardsRoot` the time at which a class below was to
  wake up, and `last_tsc_` is set to it: the time since then counts again.  That is why the bound
  has the time twice.
* `Balanced.wake`, `Balanced.finish`: a class that wakes up has paid its debt; the end of a run is
  paid with the tokens, or by waiting, which is rounded up by less than one cycle.
* `Waking`: within one `WakeTCs` the classes wake up in the order of their times.  These only grow,
  so however many classes wake up, the time that counts twice is that between the first of them and
  the round.
* `rounds_conform`: over any rounds, by induction on them with `Limited`, a class is charged for no
  more than its tokens at the start and its limit allow for twice the time.
-/

namespace Bess

open Forest MinHeap Classes TokenBucket

variable {κ : Type} [LinearOrder κ] {pf : Platform κ}

namespace Scheduler

variable {tc tc' : Classes κ} {t t' : TrafficClass κ} {s s' s₁ : Scheduler κ} {r : Resource}
  {c q now tsc low paid debts twice rate : ℕ} {usage : Usage} {l : RateLimitTrafficClass}
  {start : Account}

/-- What an operation charges to the class `c`. -/
def charge (pf : Platform κ) (r : Resource) (c : ℕ) (s : Scheduler κ) (op : Op) : ℕ :=
  if (s.aboveLeaf pf c).isSome then toWorkUnits ((s.usageOf op).get r) else 0

/-! ### The account of a class -/

/-- The time up to which the tokens of a class are accounted for: while it sleeps its debt is paid
until it wakes up. -/
def clock (t : TrafficClass κ) (l : RateLimitTrafficClass) : ℕ :=
  if t.wakeupTime = 0 then l.lastTsc else t.wakeupTime

/-- The tokens of a rate limit class and what it was charged for conform to its limit; its tokens
were filled up no later than `now`. -/
structure Balanced (r : Resource) (rate : ℕ) (start : Account) (now paid debts twice : ℕ)
    (t : TrafficClass κ) (l : RateLimitTrafficClass) : Prop where
  policy : t.policy = .rateLimit l
  resource : l.resource = r
  limit : l.limit = rate
  last : l.lastTsc ≤ now
  conforms : Conforms rate start ⟨clock t l, l.tokens, paid, debts, twice⟩

omit [LinearOrder κ] in
lemma Balanced.mono (h : Balanced r rate start now paid debts twice t l) {now' debts' : ℕ}
    (hnow : now ≤ now') (hdebts : debts ≤ debts') :
    Balanced r rate start now' paid debts' twice t l :=
  ⟨h.policy, h.resource, h.limit, h.last.trans hnow, h.conforms.mono hdebts⟩

lemma unblock_of_rateLimit {fl : ℕ → Bool} (hp : t.policy = .rateLimit l) :
    t.unblock pf fl tsc = { t with
      policy := .rateLimit { l with lastTsc := tsc }
      blocked := decide (t.wakeupTime ≠ 0) || TrafficClass.childBlocked fl l } := by
  rw [TrafficClass.unblock, hp]

/-- **Unblocking** fills the tokens up to an earlier time again: the time between counts twice. -/
lemma Balanced.unblock (h : Balanced r rate start now paid debts twice t l)
    (hstep : Unblocked pf tsc t t') (htsc : tsc ≤ now) :
    Balanced r rate start now paid debts (twice + (l.lastTsc - tsc)) t'
      { l with lastTsc := tsc } := by
  obtain ⟨fl, -, rfl⟩ := hstep
  rw [unblock_of_rateLimit h.policy]
  refine ⟨rfl, h.resource, h.limit, htsc, h.conforms.reset ?_⟩
  dsimp only [clock]
  split <;> omega

/-- A class that wakes up has paid its debt. -/
lemma Balanced.wake (h : Balanced r rate start now paid debts twice t l)
    (hasleep : t.wakeupTime ≠ 0) (hdue : t.wakeupTime ≤ now)
    (hstep : Unblocked pf t.wakeupTime { t with wakeupTime := 0 } t') :
    Balanced r rate start now paid debts twice t' { l with lastTsc := t.wakeupTime } := by
  obtain ⟨fl, -, rfl⟩ := hstep
  rw [unblock_of_rateLimit (t := { t with wakeupTime := 0 }) h.policy]
  refine ⟨rfl, h.resource, h.limit, hdue, ?_⟩
  have hclock := h.conforms
  rw [clock, if_neg hasleep] at hclock
  exact hclock

/-- **The end of a run** is paid for with the tokens, or by waiting. -/
lemma Balanced.finish (h : Balanced r rate start now paid debts twice t l) (hrate : 0 < rate)
    (hnow : now ≤ tsc) (htsc : tsc < 2 ^ 64) (hran : Ran pf usage tsc t t') :
    ∃ l', Balanced r rate start tsc (paid + toWorkUnits (usage.get r)) (debts + 1) twice t' l' := by
  obtain ⟨fl, child, sleeps, hready, hfin, hdone⟩ := hran
  obtain ⟨hpolicy, rfl, rfl, hlast, hconf⟩ := h
  -- a class that ran does not sleep
  have hawake : t.wakeupTime = 0 := by
    have hok := hready.ok
    rw [TrafficClass.Ok, hpolicy] at hok
    exact (hok hready.unblocked).1
  rw [clock, if_pos hawake] at hconf
  have hwakeup := RateLimitTrafficClass.wakeup_eq (hready.noWrap l hpolicy).2
  have hpos := (hready.noWrap l hpolicy).1
  have htokens : l.tokensAt tsc ≤ l.tokens + l.limit * (tsc - l.lastTsc) := by
    rw [RateLimitTrafficClass.tokensAt]
    refine (Nat.mod_le _ _).trans ?_
    rw [show tsc + 2 ^ 64 - l.lastTsc = tsc - l.lastTsc + 2 ^ 64 by omega, Nat.add_mod_right,
      Nat.mod_eq_of_lt (by omega)]
  rw [TrafficClass.finish_of_rateLimit hpolicy, Option.some.injEq, Prod.mk.injEq] at hfin
  obtain ⟨rfl, -⟩ := hfin
  obtain ⟨tokens, hfinish⟩ := l.finish_eq usage tsc
  refine ⟨l.finish usage tsc, rfl, by rw [hfinish], by rw [hfinish], ?_, ?_⟩
  · exact le_refl _
  · have htok : (l.finish usage tsc).tokens = if l.Exceeds usage tsc then 0
        else min (l.tokensAt tsc - toWorkUnits (usage.get l.resource)) l.maxBurst := by
      rw [RateLimitTrafficClass.finish]
    have hlast' : (l.finish usage tsc).lastTsc = tsc := by rw [RateLimitTrafficClass.finish]
    rw [clock, htok, hlast']
    dsimp only
    by_cases hexceeds : l.Exceeds usage tsc
    · rw [if_pos hexceeds, if_pos (decide_eq_true ⟨hexceeds, hrate.ne'⟩), hwakeup,
        if_neg (Nat.add_pos_left hpos _).ne']
      exact hconf.owe hrate (hlast.trans hnow) htokens hexceeds
    · have hsleeps : ¬ decide (l.Exceeds usage tsc ∧ l.limit ≠ 0) = true :=
        fun hs => hexceeds (of_decide_eq_true hs).1
      rw [if_neg hexceeds, if_neg hsleeps, if_pos hawake]
      exact (hconf.pay (hlast.trans hnow) htokens (not_lt.mp hexceeds) (min_le_left _ _)).mono
        (Nat.le_succ debts)

/-! ### Waking up -/

/-- Classes wake up in the order of their times, from `low` on; `top` is below those to come.  The
tokens of the class `c` count for no more than the time between `low` and `now` twice. -/
def Waking (r : Resource) (rate c : ℕ) (start : Account) (now paid debts twice low top : ℕ)
    (tc : Classes κ) : Prop :=
  low ≤ top ∧ ∃ l twice', Balanced r rate start now paid debts twice' (tc c) l ∧
    (twice' ≤ twice ∨ l.lastTsc ≤ top ∧ twice' ≤ twice + (now - low))

/-- One class wakes up.  Only the first time that `last_tsc_` goes back counts: the times grow. -/
lemma Waking.step {top d : ℕ} (h : Waking r rate c start now paid debts twice low top tc)
    (htop : top ≤ (tc d).wakeupTime) (hw : Woken pf now tc tc' d) :
    Waking r rate c start now paid debts twice low (tc d).wakeupTime tc' := by
  obtain ⟨hlow, l, twice', hb, htwice⟩ := h
  refine ⟨hlow.trans htop, ?_⟩
  by_cases hcd : c = d
  · subst hcd
    refine ⟨_, twice', hb.wake hw.asleep hw.due.le hw.self, ?_⟩
    exact htwice.imp id fun hand => ⟨le_rfl, hand.2⟩
  · rcases hw.others c hcd with heq | hstep
    · rw [heq]
      exact ⟨l, twice', hb, htwice.imp id fun hand => ⟨hand.1.trans htop, hand.2⟩⟩
    · refine ⟨_, _, hb.unblock hstep hw.due.le, .inr ⟨le_rfl, ?_⟩⟩
      have hlast := hb.last
      rcases htwice with hle | ⟨hle, hle'⟩ <;> omega

/-! ### Rounds -/

/-- What holds of the class `c` over rounds, with the log of its charges: the classes sleep at least
until `low`, and no more time counted twice than from `first` to `low`. -/
def Limited (r : Resource) (rate c : ℕ) (start : Account) (first : ℕ) (s : Scheduler κ)
    (log : List ℕ) : Prop :=
  Inv s ∧ ∃ low l twice, low ≤ s.checkpoint ∧
    (∀ q, s.tc.wakeupTime q ≠ 0 → low ≤ s.tc.wakeupTime q) ∧
    Balanced r rate start s.checkpoint log.sum log.length twice (s.tc c) l ∧ first + twice ≤ low

/-- **A round**. -/
lemma Limited.step {first : ℕ} {log : List ℕ} {op : Op}
    (h : Limited r rate c start first s log) (hrate : 0 < rate) (hop : s.IsRound op)
    (hrun : s.step pf op = some s') :
    Limited r rate c start first s' (log ++ [charge pf r c s op]) := by
  obtain ⟨hinv, low, l, twice, hlow, hqueue, hb, hfirst⟩ := h
  obtain ⟨s₁, next, s₂, now, hnext, hstep, hnow, hmax, hround⟩ := round_spec pf hinv hop
  obtain rfl : s₂ = s' := Option.some.inj (hstep.symm.trans hrun)
  -- the classes that are due wake up
  obtain ⟨tc₁, queue₁, hwake, -, -, htimes, top, -, l₁, twice₁, hb₁, htwice₁⟩ :=
    @wakeTCs_spec _ _ pf s.num s.fuel s.checkpoint
      (Waking r rate c start s.checkpoint log.sum log.length twice low)
      (fun hq htop hw => hq.step htop hw) (Nat.lt_succ_self _) _ low _ _ hinv.sound
      (Nat.lt_succ_self _) (fun q hq => hqueue q ((hinv.sound.queue.mem_iff q).mp hq))
      ⟨le_rfl, l, twice, hb, .inl le_rfl⟩
  rw [next_wakes hnext, Option.some.injEq, Prod.mk.injEq] at hwake
  obtain ⟨rfl, -⟩ := hwake
  refine ⟨hround.inv, s.checkpoint, ?_⟩
  rw [hround.checkpoint, List.sum_append, List.sum_singleton, List.length_append,
    List.length_singleton]
  have hsleep : ∀ q, s₂.tc.wakeupTime q ≠ 0 → s.checkpoint ≤ s₂.tc.wakeupTime q := fun q hq => by
    rcases hround.times q with heq | hle
    · rw [heq, htimes] at hq ⊢
      by_cases hlt : s.tc.wakeupTime q < s.checkpoint
      · exact absurd (if_pos hlt) hq
      · rw [if_neg hlt]
        exact not_lt.mp hlt
    · exact hnow.trans hle
  have hfirst₁ : first + twice₁ ≤ s.checkpoint := by
    rcases htwice₁ with hle | ⟨-, hle⟩ <;> omega
  have hkind : (s₁.tc c).kind ≠ .leaf := fun h => by
    rw [TrafficClass.kind, hb₁.policy] at h
    cases h
  rcases hround.cases hinv hnext c hkind with
    ⟨habove, hran⟩ | ⟨hnone, hkeep⟩
  · obtain ⟨l₂, hb₂⟩ := hb₁.finish hrate hnow hmax hran
    rw [charge, habove, Option.isSome_some, if_pos rfl]
    exact ⟨l₂, twice₁, hnow, hsleep, hb₂, hfirst₁⟩
  · rw [charge, hnone, if_neg (by exact Bool.false_ne_true), Nat.add_zero, hkeep]
    exact ⟨l₁, twice₁, hnow, hsleep, hb₁.mono hnow (Nat.le_succ _), hfirst₁⟩

end Scheduler

end Bess
