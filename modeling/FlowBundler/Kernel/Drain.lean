import FlowBundler.Kernel.Service

/-!
Draining the qdisc: the host dequeues until nothing is left.

* `Host`: the qdisc with the watchdog that its last dequeue armed, and the packets that were handed
  over; `Host.step`: one dequeue.
* `Host.Prompt`: a dequeue after one that armed the watchdog comes when it fires, or later.
* `Host.load`: two dequeues for each packet, one less while the watchdog is armed; a prompt dequeue
  lowers it.  It hands over a packet, or it arms the watchdog; and the dequeue after that, coming in
  time, finds the occupied bucket for which the watchdog was armed (`Inv.hit_of_armed`).
* `prompt_dequeues_drain`: twice as many dequeues as there are packets hand each over once, by
  induction on the dequeues with `Host.Inv`.
-/

namespace Dfb

open Ledger Dyadic

/-- The qdisc, the watchdog of the last dequeue and the packets handed over. -/
structure Host where
  world : World
  watchdog : Option ℕ
  sent : List ℕ

namespace Host

/-- One dequeue, at `now` and `tTime`. -/
def step (P : Params) (h : Host) (times : ℕ × ℕ) : Option Host :=
  (dfbDequeue P h.world.sch times.1 times.2).bind fun r =>
    (h.world.step P (.dequeue times.1 times.2)).map fun w =>
      { world := w, watchdog := r.watchdog, sent := h.sent ++ r.skb.toList }

/-- A dequeue comes when the watchdog fires, or later; without one it comes at any time. -/
def Prompt (h : Host) (times : ℕ × ℕ) : Prop :=
  times.1 < 2 ^ 62 ∧ ∀ wake ∈ h.watchdog, wake ≤ times.1

instance (h : Host) (times : ℕ × ℕ) : Decidable (h.Prompt times) :=
  inferInstanceAs (Decidable (_ ∧ _))

/-- The packets that are not handed over yet. -/
def waiting (h : Host) : List ℕ := h.world.sch.q ++ h.world.held.map Stored.ptr

/-- Two dequeues for each packet, one less while the watchdog is armed. -/
def load (h : Host) : ℕ := 2 * h.waiting.length - if h.watchdog.isSome then 1 else 0

/-- A watchdog at `wake` is for an occupied bucket that the scan reaches. -/
structure Armed (sch : Qdisc) (held : List Stored) (wake : ℕ) : Prop where
  q : sch.q = []
  dvd : 2 ^ sch.priv.highestRateQid ∣ wake
  low : floorTo sch.priv.highestRateQid sch.priv.headTime ≤ wake
  occupied : bucketAt held (wake + 2 ^ sch.priv.highestRateQid) ≠ []

/-- The invariant of the dequeues. -/
structure Inv (h : Host) : Prop where
  world : h.world.Inv
  armed : ∀ wake, h.watchdog = some wake → Armed h.world.sch h.world.held wake

variable {P : Params} {h h' : Host} {times : ℕ × ℕ}

lemma popFromBucket_q (sch : Qdisc) (loc : DfbLocation) :
    (dfbPopFromBucket sch loc).2.q = sch.q := by
  rw [dfbPopFromBucket]
  split
  · rfl
  · rfl

/-- After a watchdog a packet is returned. -/
lemma Inv.hit_of_armed (hinv : h.Inv) (hp : h.Prompt times) {r₀ : DequeueResult}
    (hout : CalendarOutcome h.world.sch h.world.held times.1 h.world.sch.priv.highestRateQid r₀)
    (hnone : r₀.skb = none) : h.watchdog = none := by
  cases hw : h.watchdog with
  | none => rfl
  | some wake =>
      have ha := hinv.armed wake hw
      obtain ⟨p, hskb⟩ := hout.hit_of_occupied wake ha.dvd ha.low (hp.2 wake hw) ha.occupied
      rw [hnone] at hskb
      cases hskb

/-- What a dequeue leaves and hands over: a packet that waited, or nothing and a watchdog that is
armed if packets wait. -/
lemma Inv.outcome (hinv : h.Inv) (hp : h.Prompt times) {r : DequeueResult}
    (hcases : DequeueCases h.world.sch h.world.held times.1 r)
    (hrun : dfbDequeue P h.world.sch times.1 times.2 = some r) :
    (r.skb.toList ++
        (r.sch.q ++ (without Stored.ptr h.world.held (popped h.world r)).map Stored.ptr)).Perm
      h.waiting ∧
      ((∃ p, r.skb = some p ∧ r.watchdog = none) ∨
        r.skb = none ∧ r.watchdog = none ∧ h.waiting = [] ∨
        r.skb = none ∧ h.watchdog = none ∧ h.waiting ≠ [] ∧ ∃ wake, r.watchdog = some wake ∧
          Armed r.sch (without Stored.ptr h.world.held (popped h.world r)) wake) := by
  have hpopped := hinv.world.popped_eq hcases
  cases hcases with
  | unpaced p rest hq hsame hmem =>
      rw [dfbDequeue, hq] at hrun
      dsimp only at hrun
      rw [Option.some.injEq] at hrun
      have hq' : r.sch.q = rest := by
        rw [← hrun]
        exact (sameCalendar_dequeueDone P { h.world.sch with q := rest } (some p) times.2).2.2
      have hskb : r.skb = some p := by rw [← hrun]
      refine ⟨?_, .inl ⟨p, hskb, by rw [← hrun]⟩⟩
      rw [popped, if_neg (by simp [hq]), without_eq_self (by simp), hq', hskb, waiting, hq]
      exact List.Perm.refl _
  | calendar hq r₀ hout hsame hmem hsch hskb hwake =>
      have hheld : (popped h.world r ++ (without Stored.ptr h.world.held
          (popped h.world r)).map Stored.ptr).Perm (h.world.held.map Stored.ptr) := by
        have hperm := (perm_named_without Stored.ptr h.world.held (popped h.world r)).map Stored.ptr
        rwa [List.map_append, ← hpopped] at hperm
      have hpop : popped h.world r = r.skb.toList := if_pos hq
      have hq₀ : r₀.sch.q = [] := by
        cases hout with
        | empty hnil => exact hq
        | hit t e rest hdue hlow hahead hbucket =>
            dsimp only
            rw [popFromBucket_q, hq]
        | miss wake hne hpast hdvd hahead hocc hidle => exact hq
      refine ⟨?_, ?_⟩
      · rw [hsch, hq₀, waiting, hq, List.nil_append, List.nil_append, ← hpop]
        exact hheld
      · rw [hskb, hwake]
        have hnone := hinv.hit_of_armed hp hout
        cases hout with
        | empty hnil =>
            refine .inr (.inl ⟨rfl, rfl, ?_⟩)
            rw [waiting, hq, hnil]
            rfl
        | hit t e rest hdue hlow hahead hbucket => exact .inl ⟨e.ptr, rfl, rfl⟩
        | miss wake hne hpast hdvd hahead hocc hidle =>
            have hskb' : r.skb = none := hskb
            refine .inr (.inr ⟨rfl, hnone rfl, ?_, wake, rfl, ?_⟩)
            · rw [waiting, hq, List.nil_append]
              exact fun hnil => hne (List.map_eq_nil_iff.mp hnil)
            · rw [hpop, hskb', Option.toList_none, without_eq_self (by simp)]
              have hqid : r.sch.priv.highestRateQid = h.world.sch.priv.highestRateQid :=
                hsame.highestRateQid
              have hhead : r.sch.priv.headTime
                  = floorTo h.world.sch.priv.highestRateQid times.1 := hsame.headTime
              have hfloor := floorTo_le h.world.sch.priv.highestRateQid times.1
              refine ⟨hsch.trans hq₀, hqid ▸ hdvd, ?_, hqid ▸ hocc⟩
              rw [hqid, hhead]
              exact (floorTo_le _ _).trans (by omega)

/-- **One prompt dequeue** returns, loses no packet, and lowers the load. -/
lemma Inv.dequeue (hinv : h.Inv) (hp : h.Prompt times) :
    ∃ h', h.step P times = some h' ∧ h'.Inv ∧ (h'.sent ++ h'.waiting).Perm (h.sent ++ h.waiting) ∧
      h'.load ≤ h.load - 1 := by
  obtain ⟨r, hrun, hcases⟩ :=
    dequeue_total P times.2 hinv.world.repr hinv.world.timed hp.1
  have hstep : h.world.step P (.dequeue times.1 times.2) = some { h.world with
      sch := r.sch
      held := without Stored.ptr h.world.held (popped h.world r)
      returned := h.world.returned ++ named Stored.ptr h.world.held (popped h.world r)
      out := h.world.out ++ popped h.world r
      clock := times.2 } := by
    rw [World.step, hrun]
    rfl
  have hok : h.world.Admits (.dequeue times.1 times.2) := hp.1
  have hnext := hinv.world.step hok hstep
  obtain ⟨hperm, hout⟩ := hinv.outcome hp hcases hrun
  have hlen := hperm.length_eq
  rw [List.length_append] at hlen
  refine ⟨_, by rw [step, hrun, Option.bind_some, hstep, Option.map_some], ⟨hnext, ?_⟩, ?_, ?_⟩
  · intro wake hw
    dsimp only at hw ⊢
    rcases hout with ⟨p, _, hwatch⟩ | ⟨_, hwatch, _⟩ | ⟨_, _, _, wake', hwatch, ha⟩
    · rw [hwatch] at hw
      cases hw
    · rw [hwatch] at hw
      cases hw
    · rw [hwatch, Option.some.injEq] at hw
      exact hw ▸ ha
  · rw [List.append_assoc]
    exact hperm.append_left h.sent
  · change 2 * (r.sch.q ++ (without Stored.ptr h.world.held (popped h.world r)).map
        Stored.ptr).length - (if r.watchdog.isSome then 1 else 0) ≤ h.load - 1
    rw [load]
    have hle : (if h.watchdog.isSome then 1 else 0) ≤ 1 := by split <;> omega
    rcases hout with ⟨p, hskb, hwatch⟩ | ⟨hskb, hwatch, hnil⟩ | ⟨hskb, hnone, hne, wake, hwatch, _⟩
    · rw [hskb, Option.toList_some, List.length_singleton] at hlen
      rw [hwatch, Option.isSome_none, if_neg Bool.false_ne_true]
      omega
    · rw [hnil, List.length_nil] at hlen
      omega
    · rw [hskb, Option.toList_none, List.length_nil] at hlen
      rw [hwatch, hnone, Option.isSome_some, Option.isSome_none, if_pos rfl,
        if_neg Bool.false_ne_true]
      omega

/-- **Prompt dequeues**, by induction on them. -/
lemma Inv.dequeues {ops : List (ℕ × ℕ)} : ∀ {h : Host}, h.Inv →
    Machine.All (step P) Prompt h ops →
    ∃ h', Machine.exec (step P) h ops = some h' ∧ h'.Inv ∧
      (h'.sent ++ h'.waiting).Perm (h.sent ++ h.waiting) ∧ h'.load ≤ h.load - ops.length := by
  induction ops with
  | nil => exact fun {h} hinv _ => ⟨h, rfl, hinv, List.Perm.refl _, Nat.le_refl _⟩
  | cons times ops ih =>
      intro h hinv hall
      obtain ⟨h₁, hstep, hinv₁, hperm₁, hload₁⟩ := hinv.dequeue hall.1
      obtain ⟨h', hexec, hinv', hperm', hload'⟩ := ih hinv₁ (hall.2 h₁ hstep)
      refine ⟨h', ?_, hinv', hperm'.trans hperm₁, ?_⟩
      · rw [Machine.exec, hstep]
        exact hexec
      · rw [List.length_cons]
        omega

end Host

/-- **The qdisc drains**: from every reachable world, twice as many prompt dequeues as there are
packets hand over every packet that waits, each once, and leave the qdisc empty. -/
theorem prompt_dequeues_drain {P : Params} {w : World} (hw : Reach P World.Admits w)
    {ops : List (ℕ × ℕ)} (hall : Machine.All (Host.step P) Host.Prompt ⟨w, none, []⟩ ops)
    (hlen : 2 * (w.sch.q.length + w.held.length) ≤ ops.length) :
    ∃ h', Machine.exec (Host.step P) ⟨w, none, []⟩ ops = some h' ∧
      h'.world.sch.q = [] ∧ h'.world.held = [] ∧
      h'.sent.Perm (w.sch.q ++ w.held.map Stored.ptr) := by
  have hinv : Host.Inv ⟨w, none, []⟩ := ⟨reach_inv hw, nofun⟩
  obtain ⟨h', hexec, _, hperm, hload⟩ := hinv.dequeues hall
  have hstart : Host.load ⟨w, none, []⟩ ≤ 2 * (w.sch.q.length + w.held.length) := by
    refine (Nat.sub_le _ _).trans (Nat.le_of_eq ?_)
    rw [Host.waiting, List.length_append, List.length_map]
  have hnil : h'.waiting = [] := by
    have hzero : 2 * h'.waiting.length - (if h'.watchdog.isSome then 1 else 0) ≤ 0 :=
      hload.trans (by omega)
    rw [← List.length_eq_zero_iff]
    split at hzero <;> omega
  obtain ⟨hq, hheld⟩ := List.append_eq_nil_iff.mp hnil
  rw [hnil, List.append_nil] at hperm
  exact ⟨h', hexec, hq, List.map_eq_nil_iff.mp hheld, hperm⟩

/-- A packet due in the future: the first dequeue arms the watchdog, the second hands it over. -/
theorem prompt_dequeues_drain_run : ∃ w, Reach plainParams World.Admits w ∧ w.held ≠ [] ∧
    ∃ h', Machine.exec (Host.step plainParams) ⟨w, none, []⟩ [(0, 0), (4096, 4096)] = some h' ∧
      h'.world.held = [] := by
  obtain ⟨w, hw, hheld, hlen, hall⟩ := exists_reach plainParams World.Admits
    [.enqueue 1 (pacedSkb 1250000000 5000) []]
    (fun w => w.held ≠ [] ∧ 2 * (w.sch.q.length + w.held.length) ≤ 2 ∧
      Machine.All (Host.step plainParams) Host.Prompt ⟨w, none, []⟩ [(0, 0), (4096, 4096)])
    (by decide +kernel)
  obtain ⟨h', hexec, _, hempty, _⟩ := prompt_dequeues_drain hw hall hlen
  exact ⟨w, hw, hheld, h', hexec, hempty⟩

end Dfb
