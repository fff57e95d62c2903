import FlowBundler.Core.TrafficClass

/-!
What one traffic class keeps.

* `TrafficClass.Ok flags t`: the lists, the position of the next child and the `blocked_` flag of
  a class agree with the flags of its children.  Of a rate limit class only one direction holds: it
  is blocked while it sleeps or its child is blocked, but it may be blocked for longer, as nothing
  wakes a class up that has exceeded a limit of zero.
* `UnblockReady`, `BlockReady`, `FinishReady`: what is left of it when a child has become
  unblocked, when one has become blocked, and when the child that ran may have.
* `UnblockReady.unblock_ok`, `BlockReady.block_ok`, `FinishReady.finish_ok`: the three functions
  bring the class in order again, and do not let its own flag change the wrong way.  The proofs go
  policy by policy.  A priority class searches for the first child that is not blocked, which is
  `List.findIdx` (`seek_first`); a weighted fair class moves children between two heaps
  (`release_spec`, by induction on those it looks at); a round robin class goes through its list and
  erases (`blockLoop_spec`, by induction on the fuel).
* `Ok.pick`: a class that is not blocked has a child to pick, and this child is not blocked.
* `RateLimitTrafficClass.finish_eq`, `wakeup_eq`: the end of a run changes the tokens and the time
  of a rate limit class only, and the time it goes to sleep for does not wrap if `NoWrap`.

`Alike t t'` collects what the walks leave as it is: the parent, the kind, the children up to their
order, and the terms of a rate limit.
-/

namespace Bess

open MinHeap

variable {κ : Type} [LinearOrder κ] {pf : Platform κ} {flags flags' : ℕ → Bool} {c child tsc : ℕ}
  {usage : Usage}

/-! ### Priority -/

namespace PriorityTrafficClass

variable {p : PriorityTrafficClass} {first : ℕ}

/-- The children are in order of their priorities, the most urgent first. -/
def Sorted (p : PriorityTrafficClass) : Prop :=
  p.children.Pairwise fun d e => d.priority < e.priority

/-- The position of the first child that is not blocked. -/
def firstUnblocked (flags : ℕ → Bool) (p : PriorityTrafficClass) : ℕ :=
  p.children.findIdx fun d => !flags d.c

lemma add_findIdx_drop {α : Type} {q : α → Bool} :
    ∀ {l : List α} {n : ℕ}, n ≤ l.findIdx q → n + (l.drop n).findIdx q = l.findIdx q := by
  intro l
  induction l with
  | nil =>
      intro n hn
      rw [List.findIdx_nil, Nat.le_zero] at hn
      rw [hn, List.drop_nil, Nat.zero_add]
  | cons a l ih =>
      intro n hn
      cases n with
      | zero => rw [List.drop_zero, Nat.zero_add]
      | succ n =>
          rw [List.findIdx_cons] at hn ⊢
          cases hq : q a with
          | true =>
              rw [hq, cond_true] at hn
              omega
          | false =>
              rw [hq, cond_false] at hn
              rw [cond_false, List.drop_succ_cons, ← ih (by omega : n ≤ l.findIdx q)]
              omega

lemma firstUnblocked_le : p.firstUnblocked flags ≤ p.children.length := List.findIdx_le_length

lemma seek_first (h : first ≤ p.firstUnblocked flags) :
    (p.seek flags first).firstRunnable = p.firstUnblocked flags := add_findIdx_drop h

lemma firstUnblocked_lt_iff :
    p.firstUnblocked flags < p.children.length ↔ ∃ d ∈ p.children, flags d.c = false := by
  rw [firstUnblocked, List.findIdx_lt_length]
  simp

/-- A child before the position is blocked. -/
lemma blocked_of_lt {i : ℕ} {d : PriorityChild} (hi : i < p.firstUnblocked flags)
    (hd : p.children[i]? = some d) : flags d.c = true := by
  obtain ⟨hlt, rfl⟩ := List.getElem?_eq_some_iff.mp hd
  have := List.not_of_lt_findIdx hi
  simpa using this

/-- The position only moves on when more children are blocked. -/
lemma firstUnblocked_mono (h : ∀ d ∈ p.children, flags d.c = true → flags' d.c = true) :
    p.firstUnblocked flags ≤ p.firstUnblocked flags' := by
  by_contra hlt
  rw [not_le] at hlt
  have hlen := lt_of_lt_of_le hlt firstUnblocked_le
  have hget := List.getElem?_eq_getElem hlen
  have hblocked := h _ (List.getElem_mem hlen) (blocked_of_lt hlt hget)
  have hfound : (!flags' p.children[p.firstUnblocked flags'].c) = true :=
    @List.findIdx_getElem _ (fun d : PriorityChild => !flags' d.c) p.children hlen
  rw [hblocked] at hfound
  cases hfound

lemma firstUnblocked_congr (h : ∀ d ∈ p.children, flags d.c = flags' d.c) :
    p.firstUnblocked flags = p.firstUnblocked flags' :=
  le_antisymm (firstUnblocked_mono fun d hd hb => h d hd ▸ hb)
    (firstUnblocked_mono fun d hd hb => (h d hd).symm ▸ hb)

end PriorityTrafficClass

/-! ### Weighted fair -/

namespace WeightedFairTrafficClass

variable {w : WeightedFairTrafficClass κ} {s : List (FairChild κ) × List (FairChild κ)}

/-- The runnable children, a heap, are not blocked; the others are. -/
structure Ok (flags : ℕ → Bool) (w : WeightedFairTrafficClass κ) : Prop where
  heap : IsHeap FairChild.pass w.runnable
  runnable : ∀ d ∈ w.runnable, flags d.c = false
  blocked : ∀ d ∈ w.blocked, flags d.c = true

/-- The loop of `UnblockTowardsRoot`, by induction on the children it looks at. -/
lemma release_spec (l : List (FairChild κ)) :
    ∀ {s : List (FairChild κ) × List (FairChild κ)}, IsHeap FairChild.pass s.1 →
      (∀ d ∈ s.1, flags d.c = false) → (∀ d ∈ s.2, flags d.c = true) →
      IsHeap FairChild.pass (l.foldl (release pf flags) s).1 ∧
      (∀ d ∈ (l.foldl (release pf flags) s).1, flags d.c = false) ∧
      (∀ d ∈ (l.foldl (release pf flags) s).2, flags d.c = true) ∧
      (((l.foldl (release pf flags) s).1 ++ (l.foldl (release pf flags) s).2).map FairChild.c).Perm
        ((s.1 ++ s.2 ++ l).map FairChild.c) ∧
      (s.1 ≠ [] → (l.foldl (release pf flags) s).1 ≠ []) := by
  induction l with
  | nil =>
      intro s hheap hrun hblocked
      rw [List.foldl_nil, List.append_nil]
      exact ⟨hheap, hrun, hblocked, List.Perm.refl _, id⟩
  | cons d l ih =>
      intro s hheap hrun hblocked
      rw [List.foldl_cons]
      by_cases hd : flags d.c = true
      · have hstep : release pf flags s d = (s.1, s.2 ++ [d]) := if_pos hd
        rw [hstep]
        obtain ⟨h1, h2, h3, h4, h5⟩ := ih (s := (s.1, s.2 ++ [d])) hheap hrun fun x hx => by
          rcases List.mem_append.mp hx with hx | hx
          · exact hblocked x hx
          · exact (List.mem_singleton.mp hx) ▸ hd
        refine ⟨h1, h2, h3, h4.trans ?_, h5⟩
        simp
      · set d' : FairChild κ := { d with pass := pf.add (nextPass pf s.1) d.pass } with hd'
        have hstep : release pf flags s d
            = (pf.fairHeap.push FairChild.pass s.1 d', s.2) := if_neg hd
        rw [hstep]
        have hperm := pf.fairHeap.push_perm FairChild.pass s.1 d' hheap
        obtain ⟨h1, h2, h3, h4, h5⟩ := ih (s := (pf.fairHeap.push FairChild.pass s.1 d', s.2))
          (pf.fairHeap.push_isHeap _ _ _ hheap) (fun x hx => by
            rcases List.mem_cons.mp (hperm.mem_iff.mp hx) with rfl | hx
            · exact Bool.eq_false_of_not_eq_true hd
            · exact hrun x hx) hblocked
        refine ⟨h1, h2, h3, h4.trans ?_, fun _ => h5 fun hnil => ?_⟩
        · dsimp only
          rw [List.map_append, List.map_append, List.map_append, List.map_append, List.map_cons]
          refine (((hperm.map FairChild.c).append_right _).append_right _).trans ?_
          rw [List.map_cons, List.cons_append, List.cons_append]
          exact List.perm_middle.symm
        · dsimp only at hnil
          rw [hnil] at hperm
          exact absurd hperm.length_eq (by simp)

end WeightedFairTrafficClass

/-! ### Round robin -/

namespace RoundRobinTrafficClass

variable {r : RoundRobinTrafficClass}

/-- The next child exists if there is one. -/
def InRange (r : RoundRobinTrafficClass) : Prop :=
  r.nextChild = 0 ∨ r.nextChild < r.runnable.length

/-- The runnable children are not blocked, the others are, and the list of all children is both. -/
structure Ok (flags : ℕ → Bool) (r : RoundRobinTrafficClass) : Prop where
  inRange : r.InRange
  runnable : ∀ c ∈ r.runnable, flags c = false
  blocked : ∀ c ∈ r.blocked, flags c = true
  all : r.allChildren.Perm (r.runnable ++ r.blocked)

lemma wrap_inRange (r : RoundRobinTrafficClass) : r.wrap.InRange := by
  rw [wrap]
  split
  · exact .inl rfl
  · exact .inr (by omega)

@[simp] lemma wrap_runnable (r : RoundRobinTrafficClass) : r.wrap.runnable = r.runnable := by
  rw [wrap]
  split <;> rfl

@[simp] lemma wrap_blocked (r : RoundRobinTrafficClass) : r.wrap.blocked = r.blocked := by
  rw [wrap]
  split <;> rfl

@[simp] lemma wrap_allChildren (r : RoundRobinTrafficClass) :
    r.wrap.allChildren = r.allChildren := by
  rw [wrap]
  split <;> rfl

/-- The loop of `BlockTowardsRoot` moves the blocked children from `i` on, by induction on the
fuel. -/
lemma blockLoop_spec (fuel : ℕ) : ∀ {i : ℕ} {r : RoundRobinTrafficClass},
    r.runnable.length ≤ i + fuel →
    (blockLoop flags fuel i r).runnable
        = r.runnable.take i ++ (r.runnable.drop i).filter (fun c => !flags c) ∧
      (blockLoop flags fuel i r).blocked = r.blocked ++ (r.runnable.drop i).filter flags ∧
      (blockLoop flags fuel i r).allChildren = r.allChildren ∧
      (r.InRange → (blockLoop flags fuel i r).InRange) := by
  induction fuel with
  | zero =>
      intro i r hlen
      rw [Nat.add_zero] at hlen
      rw [blockLoop, List.drop_eq_nil_of_le hlen, List.take_of_length_le hlen]
      simp
  | succ fuel ih =>
      intro i r hlen
      rw [blockLoop]
      cases hget : r.runnable[i]? with
      | none =>
          have hle := List.getElem?_eq_none_iff.mp hget
          dsimp only
          rw [List.drop_eq_nil_of_le hle, List.take_of_length_le hle]
          simp
      | some c =>
          obtain ⟨hlt, rfl⟩ := List.getElem?_eq_some_iff.mp hget
          dsimp only
          have hdrop := List.drop_eq_getElem_cons hlt
          by_cases hc : flags r.runnable[i] = true
          · rw [if_pos hc]
            set r' := ({ r with blocked := r.blocked ++ [r.runnable[i]] }).eraseAt i with hr'
            have hrun : r'.runnable = r.runnable.eraseIdx i := by
              rw [hr', eraseAt, wrap_runnable]
            have hblk : r'.blocked = r.blocked ++ [r.runnable[i]] := by
              rw [hr', eraseAt, wrap_blocked]
            have hall : r'.allChildren = r.allChildren := by
              rw [hr', eraseAt, wrap_allChildren]
            obtain ⟨h1, h2, h3, h4⟩ := ih (i := i) (r := r') (by
              rw [hrun, List.length_eraseIdx_of_lt hlt]
              omega)
            have htake : r'.runnable.take i = r.runnable.take i := by
              rw [hrun, List.eraseIdx_eq_take_drop_succ,
                List.take_append_of_le_length (by simp; omega), List.take_take, min_self]
            have hrest : r'.runnable.drop i = r.runnable.drop (i + 1) := by
              rw [hrun, List.eraseIdx_eq_take_drop_succ,
                List.drop_append_of_le_length (by simp; omega), List.drop_eq_nil_of_le (by simp),
                List.nil_append]
            rw [h1, h2, h3, htake, hrest, hblk, hall, hdrop]
            refine ⟨?_, ?_, rfl, fun _ => h4 (wrap_inRange _)⟩
            · rw [List.filter_cons_of_neg (by simpa using hc)]
            · rw [List.filter_cons_of_pos hc, List.append_assoc]
              rfl
          · rw [if_neg hc]
            obtain ⟨h1, h2, h3, h4⟩ := ih (i := i + 1) (r := r) (by omega)
            rw [h1, h2, h3, hdrop]
            refine ⟨?_, ?_, rfl, h4⟩
            · rw [List.filter_cons_of_pos (by simpa using hc), List.take_succ_eq_append_getElem hlt,
                List.append_assoc]
              rfl
            · rw [List.filter_cons_of_neg hc]

lemma block_runnable (r : RoundRobinTrafficClass) :
    (r.block flags).runnable = r.runnable.filter fun c => !flags c := by
  have h := (@blockLoop_spec flags r.runnable.length 0 r (by omega)).1
  rwa [List.take_zero, List.nil_append, List.drop_zero] at h

lemma block_blocked (r : RoundRobinTrafficClass) :
    (r.block flags).blocked = r.blocked ++ r.runnable.filter flags := by
  have h := (@blockLoop_spec flags r.runnable.length 0 r (by omega)).2.1
  rwa [List.drop_zero] at h

lemma block_allChildren (r : RoundRobinTrafficClass) :
    (r.block flags).allChildren = r.allChildren :=
  (@blockLoop_spec flags r.runnable.length 0 r (by omega)).2.2.1

lemma block_inRange (h : r.InRange) : (r.block flags).InRange :=
  (@blockLoop_spec flags r.runnable.length 0 r (by omega)).2.2.2 h

end RoundRobinTrafficClass

/-- Finishing a run changes the tokens and the time of a rate limit class, and nothing else. -/
lemma RateLimitTrafficClass.finish_eq (l : RateLimitTrafficClass) (usage : Usage) (tsc : ℕ) :
    ∃ tokens, l.finish usage tsc = { l with tokens := tokens, lastTsc := tsc } := ⟨_, rfl⟩

/-- A throttled class waits no longer than the run itself takes to pay for. -/
lemma RateLimitTrafficClass.wakeup_eq {l : RateLimitTrafficClass}
    (h : tsc + toWorkUnits (usage.get l.resource) / l.limit < 2 ^ 64) :
    l.wakeup usage tsc
      = tsc + (toWorkUnits (usage.get l.resource) - l.tokensAt tsc) / l.limit := by
  have hle : (toWorkUnits (usage.get l.resource) - l.tokensAt tsc) / l.limit
      ≤ toWorkUnits (usage.get l.resource) / l.limit := Nat.div_le_div_right (Nat.sub_le _ _)
  rw [RateLimitTrafficClass.wakeup]
  exact Nat.mod_eq_of_lt (lt_of_le_of_lt (Nat.add_le_add_left hle tsc) h)

/-! ### One class -/

namespace TrafficClass

open PriorityTrafficClass (firstUnblocked)

variable {t : TrafficClass κ}

/-- The data of a class agree with the flags of its children.  A leaf is blocked while it sleeps,
and so is a rate limit class, which may be blocked for longer: nothing wakes it up when it exceeds
a limit of zero. -/
def Ok (flags : ℕ → Bool) (t : TrafficClass κ) : Prop :=
  match t.policy with
  | .priority p => p.Sorted ∧ p.firstRunnable = p.firstUnblocked flags ∧
      t.blocked = decide (p.firstUnblocked flags = p.children.length)
  | .weightedFair w => w.Ok flags ∧ t.blocked = w.runnable.isEmpty
  | .roundRobin r => r.Ok flags ∧ t.blocked = r.runnable.isEmpty
  | .rateLimit l => t.blocked = false → t.wakeupTime = 0 ∧ childBlocked flags l = false
  | .leaf _ => t.blocked = decide (t.wakeupTime ≠ 0)

/-- Children may have become unblocked since the data agreed. -/
def UnblockReady (flags : ℕ → Bool) (t : TrafficClass κ) : Prop :=
  match t.policy with
  | .priority p => p.Sorted ∧ (t.blocked = false → ∃ d ∈ p.children, flags d.c = false)
  | .weightedFair w => IsHeap FairChild.pass w.runnable ∧ (∀ d ∈ w.runnable, flags d.c = false) ∧
      (t.blocked = false → w.runnable ≠ [])
  | .roundRobin r => r.InRange ∧ (∀ c ∈ r.runnable, flags c = false) ∧
      r.allChildren.Perm (r.runnable ++ r.blocked) ∧ (t.blocked = false → r.runnable ≠ [])
  | .rateLimit l => t.blocked = false → t.wakeupTime = 0 ∧ childBlocked flags l = false
  | .leaf _ => t.wakeupTime = 0

/-- One child may have become blocked, or have gone, since the data agreed. -/
def BlockReady (flags : ℕ → Bool) (t : TrafficClass κ) : Prop :=
  match t.policy with
  | .priority p => p.Sorted ∧ p.firstRunnable ≤ p.firstUnblocked flags ∧
      (t.blocked = true → p.firstUnblocked flags = p.children.length)
  | .weightedFair w => IsHeap FairChild.pass w.runnable ∧
      (w.runnable.countP fun d => flags d.c) ≤ 1 ∧
      (∀ d ∈ w.blocked, flags d.c = true) ∧ (t.blocked = true → w.runnable = [])
  | .roundRobin r => r.InRange ∧ (∀ c ∈ r.blocked, flags c = true) ∧
      r.allChildren.Perm (r.runnable ++ r.blocked) ∧ (t.blocked = true → r.runnable = [])
  | .rateLimit l => childBlocked flags l = true
  | .leaf _ => False

/-- The wake-up time of a rate limit class that exceeds its limit fits in 64 bits. -/
def NoWrap (usage : Usage) (tsc : ℕ) (t : TrafficClass κ) : Prop :=
  ∀ l, t.policy = .rateLimit l → 0 < tsc ∧
    tsc + toWorkUnits (usage.get l.resource) / l.limit < 2 ^ 64

/-- What a rate limit class limits, and to how much. -/
def terms (t : TrafficClass κ) : Option (Resource × ℕ × ℕ) :=
  match t.policy with
  | .rateLimit l => some (l.resource, l.limit, l.maxBurst)
  | _ => none

/-- What the walks leave as it is. -/
structure Alike (t t' : TrafficClass κ) : Prop where
  parent : t'.parent = t.parent
  children : t'.children.Perm t.children
  kind : t'.kind = t.kind
  terms : t'.terms = t.terms

/-- The child that was picked has run, and may have become blocked; a wake-up time that is set fits
in 64 bits. -/
structure FinishReady (flags : ℕ → Bool) (child : ℕ) (usage : Usage) (tsc : ℕ)
    (t : TrafficClass κ) : Prop where
  ok : t.Ok (Function.update flags child false)
  pick : t.pickNextChild = some child
  unblocked : t.blocked = false
  noWrap : t.NoWrap usage tsc

omit [LinearOrder κ] in
lemma Alike.refl (t : TrafficClass κ) : t.Alike t := ⟨rfl, List.Perm.refl _, rfl, rfl⟩

omit [LinearOrder κ] in
lemma Alike.trans {t' t'' : TrafficClass κ} (h : t.Alike t') (h' : t'.Alike t'') : t.Alike t'' :=
  ⟨h'.parent.trans h.parent, h'.children.trans h.children, h'.kind.trans h.kind,
    h'.terms.trans h.terms⟩

omit [LinearOrder κ] in
lemma terms_of_rateLimit {l : RateLimitTrafficClass} (hp : t.policy = .rateLimit l) :
    t.terms = some (l.resource, l.limit, l.maxBurst) := by
  rw [terms, hp]

omit [LinearOrder κ] in
lemma exists_rateLimit {resource : Resource} {limit maxBurst : ℕ}
    (h : t.terms = some (resource, limit, maxBurst)) :
    ∃ l, t.policy = .rateLimit l ∧ resource = l.resource ∧ limit = l.limit := by
  obtain ⟨parent, wakeup, blocked, policy⟩ := t
  cases policy with
  | rateLimit l =>
      obtain ⟨hres, hlim⟩ := Prod.mk.inj (Option.some.inj h)
      exact ⟨l, rfl, hres.symm, (Prod.mk.inj hlim).1.symm⟩
  | priority p => cases h
  | weightedFair w => cases h
  | roundRobin r => cases h
  | leaf l => cases h

omit [LinearOrder κ] in
lemma Alike.noWrap {t' : TrafficClass κ} (h : t.Alike t') (hw : t.NoWrap usage tsc) :
    t'.NoWrap usage tsc := by
  intro l' hl'
  obtain ⟨l, hl, hres, hlim⟩ := exists_rateLimit (h.terms.symm.trans (terms_of_rateLimit hl'))
  rw [hres, hlim]
  exact hw l hl

/-! #### Unblocking -/

lemma unblock_wakeupTime (t : TrafficClass κ) :
    (t.unblock pf flags tsc).wakeupTime = t.wakeupTime := by
  obtain ⟨parent, wakeup, blocked, policy⟩ := t
  cases policy <;> rfl

lemma unblock_terms (t : TrafficClass κ) : (t.unblock pf flags tsc).terms = t.terms := by
  obtain ⟨parent, wakeup, blocked, policy⟩ := t
  cases policy <;> rfl

lemma unblock_kind (t : TrafficClass κ) : (t.unblock pf flags tsc).kind = t.kind := by
  obtain ⟨parent, wakeup, blocked, policy⟩ := t
  cases policy <;> rfl

lemma unblock_parent (t : TrafficClass κ) : (t.unblock pf flags tsc).parent = t.parent := by
  obtain ⟨parent, wakeup, blocked, policy⟩ := t
  cases policy <;> rfl

/-- **Unblocking** brings the class in order; a class that was not blocked is not blocked. -/
theorem UnblockReady.unblock_ok (h : t.UnblockReady flags) :
    (t.unblock pf flags tsc).Ok flags ∧ (t.unblock pf flags tsc).children.Perm t.children ∧
      (t.blocked = false → (t.unblock pf flags tsc).blocked = false) := by
  obtain ⟨parent, wakeup, blocked, policy⟩ := t
  cases policy with
  | priority p =>
      have hseek : (p.seek flags 0).firstRunnable = p.firstUnblocked flags :=
        PriorityTrafficClass.seek_first (Nat.zero_le _)
      have hle := @PriorityTrafficClass.firstUnblocked_le flags p
      have hflag : decide ((p.seek flags 0).children.length ≤ (p.seek flags 0).firstRunnable)
          = decide (p.firstUnblocked flags = p.children.length) := by
        rw [hseek]
        exact decide_eq_decide.mpr ⟨fun hge => le_antisymm hle hge, fun heq => heq.ge⟩
      refine ⟨⟨h.1, hseek, hflag⟩, List.Perm.refl _, fun hblocked => ?_⟩
      have hlt := PriorityTrafficClass.firstUnblocked_lt_iff.mpr (h.2 hblocked)
      exact hflag.trans (decide_eq_false hlt.ne)
  | weightedFair w =>
      obtain ⟨hheap, hrun, hne⟩ := h
      obtain ⟨h1, h2, h3, h4, h5⟩ :=
        @WeightedFairTrafficClass.release_spec _ _ pf flags w.blocked (w.runnable, []) hheap
          hrun (by simp)
      refine ⟨⟨⟨h1, h2, h3⟩, rfl⟩, ?_, fun hblocked => ?_⟩
      · rw [List.append_nil] at h4
        exact h4
      · exact List.isEmpty_eq_false_iff.mpr (h5 (hne hblocked))
  | roundRobin r =>
      obtain ⟨hrange, hrun, hall, hne⟩ := h
      have hperm : (r.runnable ++ r.blocked.filter (fun c => !flags c)
          ++ r.blocked.filter flags).Perm (r.runnable ++ r.blocked) := by
        rw [List.append_assoc]
        exact (List.perm_append_comm.trans (List.filter_append_perm flags r.blocked)).append_left _
      refine ⟨⟨⟨?_, ?_, ?_, hall.trans hperm.symm⟩, rfl⟩, hperm, fun hblocked => ?_⟩
      · rcases hrange with hzero | hlt
        · exact .inl hzero
        · refine .inr ?_
          change r.nextChild < (r.runnable ++ _).length
          rw [List.length_append]
          omega
      · intro c hc
        rcases List.mem_append.mp hc with hc | hc
        · exact hrun c hc
        · simpa using (List.mem_filter.mp hc).2
      · exact fun c hc => (List.mem_filter.mp hc).2
      · refine List.isEmpty_eq_false_iff.mpr fun hnil => hne hblocked ?_
        exact (List.append_eq_nil_iff.mp hnil).1
  | rateLimit l =>
      refine ⟨fun hblocked => ?_, List.Perm.refl _, fun hblocked => ?_⟩
      · obtain ⟨hwake, hchild⟩ := Bool.or_eq_false_iff.mp hblocked
        exact ⟨not_not.mp (of_decide_eq_false hwake), hchild⟩
      · obtain ⟨hwake, hchild⟩ := h hblocked
        exact Bool.or_eq_false_iff.mpr ⟨decide_eq_false (not_not.mpr hwake), hchild⟩
  | leaf l =>
      refine ⟨?_, List.Perm.refl _, fun _ => rfl⟩
      have hwake : wakeup = 0 := h
      change false = decide (wakeup ≠ 0)
      rw [hwake]
      rfl

lemma UnblockReady.alike (h : t.UnblockReady flags) : t.Alike (t.unblock pf flags tsc) :=
  ⟨unblock_parent t, h.unblock_ok.2.1, unblock_kind t, unblock_terms t⟩

/-! #### Blocking -/

lemma block_wakeupTime (t : TrafficClass κ) : (t.block pf flags).wakeupTime = t.wakeupTime := by
  obtain ⟨parent, wakeup, blocked, policy⟩ := t
  cases policy <;> rfl

lemma block_terms (t : TrafficClass κ) : (t.block pf flags).terms = t.terms := by
  obtain ⟨parent, wakeup, blocked, policy⟩ := t
  cases policy <;> rfl

lemma block_kind (t : TrafficClass κ) : (t.block pf flags).kind = t.kind := by
  obtain ⟨parent, wakeup, blocked, policy⟩ := t
  cases policy <;> rfl

lemma block_parent (t : TrafficClass κ) : (t.block pf flags).parent = t.parent := by
  obtain ⟨parent, wakeup, blocked, policy⟩ := t
  cases policy <;> rfl

/-- **Blocking** brings the class in order; a class that was blocked is blocked. -/
theorem BlockReady.block_ok (h : t.BlockReady flags) :
    (t.block pf flags).Ok flags ∧ (t.block pf flags).children.Perm t.children ∧
      (t.blocked = true → (t.block pf flags).blocked = true) := by
  obtain ⟨parent, wakeup, blocked, policy⟩ := t
  cases policy with
  | priority p =>
      obtain ⟨hsorted, hle, hall⟩ := h
      have hseek : (p.seek flags p.firstRunnable).firstRunnable = p.firstUnblocked flags :=
        PriorityTrafficClass.seek_first hle
      have hflag : decide ((p.seek flags p.firstRunnable).firstRunnable
          = (p.seek flags p.firstRunnable).children.length)
          = decide (p.firstUnblocked flags = p.children.length) := by
        rw [hseek]
        rfl
      exact ⟨⟨hsorted, hseek, hflag⟩, List.Perm.refl _, fun hblocked =>
        hflag.trans (decide_eq_true (hall hblocked))⟩
  | weightedFair w =>
      obtain ⟨hheap, hone, hblk, hnil⟩ := h
      cases hdel : pf.fairHeap.deleteSingle FairChild.pass (fun d => flags d.c) w.runnable with
      | none =>
          have hw : w.block pf flags = w := by
            rw [WeightedFairTrafficClass.block, hdel]
          refine ⟨⟨?_, rfl⟩, ?_, fun hblocked => ?_⟩
          · rw [hw]
            exact ⟨hheap, StdHeap.deleteSingle_none hdel, hblk⟩
          · change ((w.block pf flags).runnable ++ (w.block pf flags).blocked).map _ |>.Perm _
            rw [hw]
            exact List.Perm.refl _
          · change (w.block pf flags).runnable.isEmpty = true
            rw [hw, hnil hblocked]
            rfl
      | some found =>
          obtain ⟨d, rest⟩ := found
          have hw : w.block pf flags
              = { w with runnable := rest, blocked := w.blocked ++ [d] } := by
            rw [WeightedFairTrafficClass.block, hdel]
          obtain ⟨hd, hperm, hrest⟩ := StdHeap.deleteSingle_some hdel
          -- at most one child was blocked, and it has been taken out
          have hcount : rest.countP (fun d => flags d.c) = 0 := by
            have hsum := hperm.countP_eq fun d => flags d.c
            have hpos :=
              List.countP_cons_of_pos (p := fun d : FairChild κ => flags d.c) (l := rest) hd
            omega
          refine ⟨⟨?_, rfl⟩, ?_, fun hblocked => ?_⟩
          · rw [hw]
            refine ⟨hrest, fun x hx => ?_, fun x hx => ?_⟩
            · exact Bool.eq_false_of_not_eq_true (List.countP_eq_zero.mp hcount x hx)
            · rcases List.mem_append.mp hx with hx | hx
              · exact hblk x hx
              · exact (List.mem_singleton.mp hx) ▸ hd
          · change ((w.block pf flags).runnable ++ (w.block pf flags).blocked).map _ |>.Perm _
            rw [hw]
            refine List.Perm.map _ (List.Perm.trans ?_ (hperm.symm.append_right w.blocked))
            dsimp only
            rw [← List.append_assoc, List.cons_append]
            exact List.perm_append_singleton d _
          · rw [hnil hblocked] at hperm
            exact absurd hperm.length_eq (by simp)
  | roundRobin r =>
      obtain ⟨hrange, hblk, hall, hnil⟩ := h
      have hperm : ((r.block flags).runnable ++ (r.block flags).blocked).Perm
          (r.runnable ++ r.blocked) := by
        rw [RoundRobinTrafficClass.block_runnable, RoundRobinTrafficClass.block_blocked]
        refine List.Perm.trans ?_
          (((List.filter_append_perm flags r.runnable)).append_right r.blocked)
        rw [List.append_assoc]
        refine List.perm_append_comm.trans ?_
        rw [List.append_assoc]
        refine List.perm_append_comm.trans ?_
        rw [List.append_assoc]
      refine ⟨⟨⟨?_, ?_, ?_, ?_⟩, rfl⟩, hperm, fun hblocked => ?_⟩
      · exact RoundRobinTrafficClass.block_inRange hrange
      · intro c hc
        rw [RoundRobinTrafficClass.block_runnable] at hc
        simpa using (List.mem_filter.mp hc).2
      · intro c hc
        rw [RoundRobinTrafficClass.block_blocked] at hc
        rcases List.mem_append.mp hc with hc | hc
        · exact hblk c hc
        · exact (List.mem_filter.mp hc).2
      · rw [RoundRobinTrafficClass.block_allChildren]
        exact hall.trans hperm.symm
      · change (r.block flags).runnable.isEmpty = true
        rw [RoundRobinTrafficClass.block_runnable, hnil hblocked]
        rfl
  | rateLimit l =>
      refine ⟨fun hblocked => ?_, List.Perm.refl _, fun _ => h⟩
      have hchild : childBlocked flags l = false := hblocked
      rw [show childBlocked flags l = true from h] at hchild
      cases hchild
  | leaf l => exact h.elim

lemma BlockReady.alike (h : t.BlockReady flags) : t.Alike (t.block pf flags) :=
  ⟨block_parent t, h.block_ok.2.1, block_kind t, block_terms t⟩

/-! #### Changes of the flags -/

omit [LinearOrder κ] in
lemma kind_ne_leaf (h : c ∈ t.children) : t.kind ≠ .leaf := by
  obtain ⟨parent, wakeup, blocked, policy⟩ := t
  cases policy with
  | leaf l => exact absurd h List.not_mem_nil
  | priority p => exact PolicyKind.noConfusion
  | weightedFair w => exact PolicyKind.noConfusion
  | roundRobin r => exact PolicyKind.noConfusion
  | rateLimit l => exact PolicyKind.noConfusion

lemma childBlocked_congr {l : RateLimitTrafficClass}
    (h : ∀ c, l.child = some c → flags c = flags' c) :
    childBlocked flags l = childBlocked flags' l := by
  rw [childBlocked, childBlocked]
  cases hc : l.child with
  | none => rfl
  | some c => exact h c hc

/-- Only the flags of the children matter. -/
lemma Ok.congr (h : t.Ok flags) (heq : ∀ c ∈ t.children, flags c = flags' c) : t.Ok flags' := by
  obtain ⟨parent, wakeup, blocked, policy⟩ := t
  cases policy with
  | priority p =>
      have hfirst : p.firstUnblocked flags = p.firstUnblocked flags' :=
        PriorityTrafficClass.firstUnblocked_congr fun d hd => heq d.c (List.mem_map_of_mem hd)
      exact ⟨h.1, h.2.1.trans hfirst, by rw [← hfirst]; exact h.2.2⟩
  | weightedFair w =>
      obtain ⟨⟨hheap, hrun, hblk⟩, hflag⟩ := h
      refine ⟨⟨hheap, fun d hd => ?_, fun d hd => ?_⟩, hflag⟩
      · rw [← heq d.c (List.mem_map_of_mem (List.mem_append_left _ hd))]
        exact hrun d hd
      · rw [← heq d.c (List.mem_map_of_mem (List.mem_append_right _ hd))]
        exact hblk d hd
  | roundRobin r =>
      obtain ⟨⟨hrange, hrun, hblk, hall⟩, hflag⟩ := h
      refine ⟨⟨hrange, fun c hc => ?_, fun c hc => ?_, hall⟩, hflag⟩
      · rw [← heq c (List.mem_append_left _ hc)]
        exact hrun c hc
      · rw [← heq c (List.mem_append_right _ hc)]
        exact hblk c hc
  | rateLimit l =>
      have hsame := childBlocked_congr fun c hc => heq c (Option.mem_toList.mpr hc)
      intro hblocked
      rw [← hsame]
      exact h hblocked
  | leaf l => exact h

/-- Classes have only become unblocked, and the class itself may have woken up. -/
lemma Ok.unblockReady {wakeupTime : ℕ} (h : t.Ok flags)
    (hfalse : ∀ d, flags d = false → flags' d = false)
    (hwake : wakeupTime = 0 ∨ t.kind ≠ .leaf ∧ wakeupTime = t.wakeupTime) :
    ({ t with wakeupTime := wakeupTime } : TrafficClass κ).UnblockReady flags' := by
  obtain ⟨parent, wakeup, blocked, policy⟩ := t
  cases policy with
  | priority p =>
      refine ⟨h.1, fun hblocked => ?_⟩
      have hne : ¬ p.firstUnblocked flags = p.children.length :=
        of_decide_eq_false (h.2.2.symm.trans hblocked)
      obtain ⟨d, hd, hflag⟩ := PriorityTrafficClass.firstUnblocked_lt_iff.mp
        (lt_of_le_of_ne PriorityTrafficClass.firstUnblocked_le hne)
      exact ⟨d, hd, hfalse _ hflag⟩
  | weightedFair w =>
      obtain ⟨⟨hheap, hrun, -⟩, hflag⟩ := h
      exact ⟨hheap, fun d hd => hfalse _ (hrun d hd), fun hblocked =>
        List.isEmpty_eq_false_iff.mp (hflag.symm.trans hblocked)⟩
  | roundRobin r =>
      obtain ⟨⟨hrange, hrun, -, hall⟩, hflag⟩ := h
      exact ⟨hrange, fun d hd => hfalse _ (hrun d hd), hall, fun hblocked =>
        List.isEmpty_eq_false_iff.mp (hflag.symm.trans hblocked)⟩
  | rateLimit l =>
      intro hblocked
      obtain ⟨hzero, hchild⟩ := h hblocked
      refine ⟨hwake.elim id fun hw => hw.2.trans hzero, ?_⟩
      rw [childBlocked] at hchild ⊢
      cases hc : l.child with
      | none =>
          rw [hc] at hchild
          cases hchild
      | some d =>
          rw [hc] at hchild
          exact hfalse d hchild
  | leaf l => exact hwake.elim id fun hw => absurd rfl hw.1

/-- A child that was not blocked has become blocked. -/
lemma Ok.blockReady (h : t.Ok flags) (hnd : t.children.Nodup) (hmem : c ∈ t.children) :
    t.BlockReady (Function.update flags c true) := by
  have htrue : ∀ d, flags d = true → Function.update flags c true d = true := fun d hd => by
    by_cases hdc : d = c
    · rw [hdc, Function.update_self]
    · rw [Function.update_of_ne hdc, hd]
  obtain ⟨parent, wakeup, blocked, policy⟩ := t
  cases policy with
  | priority p =>
      have hmono : p.firstUnblocked flags ≤ p.firstUnblocked (Function.update flags c true) :=
        PriorityTrafficClass.firstUnblocked_mono fun d _ hd => htrue d.c hd
      refine ⟨h.1, h.2.1.le.trans hmono, fun hblocked => ?_⟩
      have heq : p.firstUnblocked flags = p.children.length :=
        of_decide_eq_true (h.2.2.symm.trans hblocked)
      exact le_antisymm PriorityTrafficClass.firstUnblocked_le (heq ▸ hmono)
  | weightedFair w =>
      obtain ⟨⟨hheap, hrun, hblk⟩, hflag⟩ := h
      refine ⟨hheap, ?_, fun d hd => htrue _ (hblk d hd), fun hblocked =>
        List.isEmpty_iff.mp (hflag.symm.trans hblocked)⟩
      -- only the entry of `c` itself is now blocked, and there is one at most
      have hcount : w.runnable.countP (fun d => Function.update flags c true d.c)
          ≤ (w.runnable.map FairChild.c).count c := by
        rw [List.count, List.countP_map]
        refine List.countP_mono_left fun d hd hupd => ?_
        by_cases hdc : d.c = c
        · simpa using hdc
        · rw [Function.update_of_ne hdc, hrun d hd] at hupd
          cases hupd
      have hsub : (w.runnable.map FairChild.c).Nodup := by
        refine hnd.sublist ?_
        exact (List.sublist_append_left w.runnable w.blocked).map _
      exact hcount.trans (List.nodup_iff_count_le_one.mp hsub c)
  | roundRobin r =>
      obtain ⟨⟨hrange, hrun, hblk, hall⟩, hflag⟩ := h
      exact ⟨hrange, fun d hd => htrue _ (hblk d hd), hall, fun hblocked =>
        List.isEmpty_iff.mp (hflag.symm.trans hblocked)⟩
  | rateLimit l =>
      have hc : l.child = some c := Option.mem_toList.mp hmem
      change childBlocked (Function.update flags c true) l = true
      rw [childBlocked, hc]
      exact Function.update_self _ _ _
  | leaf l => exact absurd hmem List.not_mem_nil

/-! #### Picking and finishing -/

/-- **A class that is not blocked** has a child to pick, and this child is not blocked. -/
theorem Ok.pick (h : t.Ok flags) (hblocked : t.blocked = false)
    (hleaf : t.kind ≠ .leaf) :
    ∃ c, t.pickNextChild = some c ∧ c ∈ t.children ∧ flags c = false := by
  obtain ⟨parent, wakeup, blocked, policy⟩ := t
  cases policy with
  | priority p =>
      have hne : ¬ p.firstUnblocked flags = p.children.length :=
        of_decide_eq_false (h.2.2.symm.trans hblocked)
      have hlt := lt_of_le_of_ne PriorityTrafficClass.firstUnblocked_le hne
      have hfound : (!flags p.children[p.firstUnblocked flags].c) = true :=
        @List.findIdx_getElem _ (fun d : PriorityChild => !flags d.c) p.children hlt
      refine ⟨p.children[p.firstUnblocked flags].c, ?_, ?_, by simpa using hfound⟩
      · change (p.children[p.firstRunnable]?).map _ = _
        rw [h.2.1, List.getElem?_eq_getElem hlt]
        rfl
      · exact List.mem_map_of_mem (List.getElem_mem hlt)
  | weightedFair w =>
      obtain ⟨⟨-, hrun, -⟩, hflag⟩ := h
      cases hr : w.runnable with
      | nil =>
          rw [hr] at hflag
          exact absurd (hflag.symm.trans hblocked) (by simp)
      | cons d rest =>
          have hd : d ∈ w.runnable := hr ▸ List.mem_cons_self
          refine ⟨d.c, ?_, List.mem_map_of_mem (List.mem_append_left _ hd), hrun d hd⟩
          change (w.runnable.head?).map _ = _
          rw [hr]
          rfl
  | roundRobin r =>
      obtain ⟨⟨hrange, hrun, -, -⟩, hflag⟩ := h
      have hne : r.runnable ≠ [] := List.isEmpty_eq_false_iff.mp (hflag.symm.trans hblocked)
      have hlt : r.nextChild < r.runnable.length := by
        have := List.length_pos_of_ne_nil hne
        rcases hrange with hzero | hlt <;> omega
      have hmem := List.getElem_mem hlt
      exact ⟨_, List.getElem?_eq_getElem hlt, List.mem_append_left _ hmem, hrun _ hmem⟩
  | rateLimit l =>
      obtain ⟨-, hchild⟩ := h hblocked
      rw [childBlocked] at hchild
      cases hc : l.child with
      | none =>
          rw [hc] at hchild
          cases hchild
      | some d =>
          rw [hc] at hchild
          exact ⟨d, hc, Option.mem_toList.mpr hc, hchild⟩
  | leaf l => exact absurd rfl hleaf

/-- What finishing a run does to a class: its data agree with the flags again, and it goes to
sleep only as it becomes blocked, to a time that is not past. -/
structure Finished (flags : ℕ → Bool) (tsc : ℕ) (t t' : TrafficClass κ) (sleeps : Bool) : Prop where
  ok : t'.Ok flags
  alike : t.Alike t'
  awake : sleeps = false → t'.wakeupTime = t.wakeupTime
  asleep : sleeps = true → t.wakeupTime = 0 ∧ t'.blocked = true ∧ 0 < t'.wakeupTime ∧
    tsc ≤ t'.wakeupTime

/-- A priority class moves on to the next child that is not blocked. -/
lemma finish_priority {p : PriorityTrafficClass}
    (hfirst : p.firstRunnable = p.firstUnblocked (Function.update flags child false)) :
    (p.finish flags child).children = p.children ∧
      (p.finish flags child).firstRunnable = p.firstUnblocked flags := by
  rw [PriorityTrafficClass.finish]
  by_cases hc : flags child = true
  · have hmono : p.firstUnblocked (Function.update flags child false) ≤ p.firstUnblocked flags :=
      PriorityTrafficClass.firstUnblocked_mono fun d _ hd => by
        by_cases hdc : d.c = child
        · rw [hdc, hc]
        · rwa [Function.update_of_ne hdc] at hd
    rw [if_pos hc]
    exact ⟨rfl, PriorityTrafficClass.seek_first (hfirst.le.trans hmono)⟩
  · rw [if_neg hc]
    have hsame : Function.update flags child false = flags := by
      rw [← Bool.eq_false_of_not_eq_true hc, Function.update_eq_self]
    exact ⟨rfl, hsame ▸ hfirst⟩

/-- The entries of the other children agree with the flags after the run of one. -/
lemma flags_of_ne {b : Bool} {l : List ℕ} (h : ∀ d ∈ l, Function.update flags child false d = b)
    (hne : child ∉ l) : ∀ d ∈ l, flags d = b := by
  intro d hd
  have hflag := h d hd
  rwa [Function.update_of_ne fun hdc : d = child => hne (hdc ▸ hd)] at hflag

/-- A weighted fair class charges the child that ran, or sets it aside. -/
lemma finish_weightedFair {w : WeightedFairTrafficClass κ}
    (hok : w.Ok (Function.update flags child false))
    (hpick : w.runnable.head?.map FairChild.c = some child)
    (hnd : ((w.runnable ++ w.blocked).map FairChild.c).Nodup) :
    ∃ w', w.finish pf flags child usage = some w' ∧ w'.Ok flags ∧
      ((w'.runnable ++ w'.blocked).map FairChild.c).Perm
        ((w.runnable ++ w.blocked).map FairChild.c) ∧
      (flags child = false → w'.runnable.isEmpty = false) := by
  obtain ⟨resource, runnable, blocked⟩ := w
  obtain ⟨hheap, hrun, hblk⟩ := hok
  cases runnable with
  | nil => cases hpick
  | cons item rest =>
      obtain rfl : item.c = child := Option.some.inj hpick
      have hnd' : item.c ∉ rest.map FairChild.c ∧ item.c ∉ blocked.map FairChild.c := by
        rw [List.cons_append, List.map_cons, List.nodup_cons, List.map_append, List.mem_append,
          not_or] at hnd
        exact hnd.1
      have hrest : ∀ d ∈ rest, flags d.c = false := fun d hd =>
        flags_of_ne (fun c hc => by
          obtain ⟨e, he, rfl⟩ := List.mem_map.mp hc
          exact hrun e (List.mem_cons_of_mem _ he)) hnd'.1 d.c (List.mem_map_of_mem hd)
      have hblk' : ∀ d ∈ blocked, flags d.c = true := fun d hd =>
        flags_of_ne (fun c hc => by
          obtain ⟨e, he, rfl⟩ := List.mem_map.mp hc
          exact hblk e he) hnd'.2 d.c (List.mem_map_of_mem hd)
      set delta := pf.passDelta item.stride (usage.get resource) with hdelta
      by_cases hc : flags item.c = true
      · have hpop := pf.fairHeap.pop_perm FairChild.pass rest item hheap
        refine ⟨_, if_pos hc, ⟨pf.fairHeap.pop_isHeap _ _ _ hheap, fun d hd => ?_, fun d hd => ?_⟩,
          ?_, fun hc' => ?_⟩
        · exact hrest d (hpop.mem_iff.mp hd)
        · rcases List.mem_append.mp hd with hd | hd
          · exact hblk' d hd
          · rw [List.mem_singleton.mp hd]
            exact hc
        · dsimp only
          rw [← List.append_assoc, List.map_append, List.cons_append, List.map_cons]
          exact (List.perm_append_singleton _ _).trans
            (((hpop.append_right blocked).map _).cons _)
        · rw [hc] at hc'
          cases hc'
      · have hc' := Bool.eq_false_of_not_eq_true hc
        set item' : FairChild κ := { item with pass := pf.add item.pass delta } with hitem'
        have hperm := @decreaseKeyTop_perm _ _ _ FairChild.pass ((item :: rest).set 0 item')
        refine ⟨_, if_neg hc, ⟨decreaseKeyTop_isHeap hheap _, fun d hd => ?_, hblk'⟩, ?_,
          fun _ => ?_⟩
        · rcases List.mem_cons.mp (hperm.mem_iff.mp hd) with rfl | hd
          · exact hc'
          · exact hrest d hd
        · dsimp only
          rw [List.map_append, List.map_append]
          exact (hperm.map FairChild.c).append_right _
        · refine List.isEmpty_eq_false_iff.mpr fun hnil => ?_
          dsimp only at hnil
          rw [hnil] at hperm
          exact absurd hperm.length_eq (by simp)

/-- A round robin class goes on to the next child, or sets the one that ran aside. -/
lemma finish_roundRobin {r : RoundRobinTrafficClass}
    (hok : r.Ok (Function.update flags child false))
    (hpick : r.runnable[r.nextChild]? = some child) (hnd : (r.runnable ++ r.blocked).Nodup) :
    ∃ r', r.finish flags child usage = some r' ∧ r'.Ok flags ∧
      (r'.runnable ++ r'.blocked).Perm (r.runnable ++ r.blocked) ∧
      (flags child = false → r'.runnable.isEmpty = false) := by
  obtain ⟨hrange, hrun, hblk, hall⟩ := hok
  obtain ⟨hlt, hget⟩ := List.getElem?_eq_some_iff.mp hpick
  have hsplit : r.runnable.Perm (child :: r.runnable.eraseIdx r.nextChild) := by
    rw [← hget]
    exact (List.getElem_cons_eraseIdx_perm hlt).symm
  have hnd' : child ∉ r.runnable.eraseIdx r.nextChild ∧ child ∉ r.blocked := by
    have := ((hsplit.append_right r.blocked).nodup_iff).mp hnd
    rw [List.cons_append, List.nodup_cons, List.mem_append, not_or] at this
    exact this.1
  have hblk' : ∀ d ∈ r.blocked, flags d = true := flags_of_ne hblk hnd'.2
  rw [RoundRobinTrafficClass.finish]
  by_cases hc : flags child = true
  · rw [if_pos hc, if_pos hlt]
    have hperm : (r.runnable.eraseIdx r.nextChild ++ (r.blocked ++ [child])).Perm
        (r.runnable ++ r.blocked) := by
      rw [← List.append_assoc]
      exact (List.perm_append_singleton _ _).trans (hsplit.append_right r.blocked).symm
    refine ⟨_, rfl, ⟨RoundRobinTrafficClass.wrap_inRange _, ?_, ?_, ?_⟩, ?_, fun hc' => ?_⟩
    · rw [RoundRobinTrafficClass.wrap_runnable]
      exact flags_of_ne (fun d hd => hrun d (List.mem_of_mem_eraseIdx hd)) hnd'.1
    · rw [RoundRobinTrafficClass.wrap_blocked]
      intro d hd
      rcases List.mem_append.mp hd with hd | hd
      · exact hblk' d hd
      · exact (List.mem_singleton.mp hd) ▸ hc
    · rw [RoundRobinTrafficClass.wrap_runnable, RoundRobinTrafficClass.wrap_blocked,
        RoundRobinTrafficClass.wrap_allChildren]
      exact hall.trans hperm.symm
    · rw [RoundRobinTrafficClass.wrap_runnable, RoundRobinTrafficClass.wrap_blocked]
      exact hperm
    · rw [hc] at hc'
      cases hc'
  · rw [if_neg hc]
    have hsame : Function.update flags child false = flags := by
      rw [← Bool.eq_false_of_not_eq_true hc, Function.update_eq_self]
    rw [hsame] at hrun
    refine ⟨_, rfl, ⟨RoundRobinTrafficClass.wrap_inRange _, ?_, ?_, ?_⟩, ?_, fun _ => ?_⟩
    · rwa [RoundRobinTrafficClass.wrap_runnable]
    · rwa [RoundRobinTrafficClass.wrap_blocked]
    · rwa [RoundRobinTrafficClass.wrap_runnable, RoundRobinTrafficClass.wrap_blocked,
        RoundRobinTrafficClass.wrap_allChildren]
    · rw [RoundRobinTrafficClass.wrap_runnable, RoundRobinTrafficClass.wrap_blocked]
    · rw [RoundRobinTrafficClass.wrap_runnable]
      exact List.isEmpty_eq_false_iff.mpr (List.ne_nil_of_mem (List.mem_of_getElem? hpick))

lemma finish_of_weightedFair {w w' : WeightedFairTrafficClass κ} (hp : t.policy = .weightedFair w)
    (hfin : w.finish pf flags child usage = some w') :
    t.finish pf flags child usage tsc
      = some ({ t with
          policy := .weightedFair w'
          blocked := if flags child then w'.runnable.isEmpty else t.blocked }, false) := by
  rw [finish, hp]
  dsimp only
  rw [hfin, Option.map_some]

lemma finish_of_roundRobin {r r' : RoundRobinTrafficClass} (hp : t.policy = .roundRobin r)
    (hfin : r.finish flags child usage = some r') :
    t.finish pf flags child usage tsc
      = some ({ t with
          policy := .roundRobin r'
          blocked := if flags child then r'.runnable.isEmpty else t.blocked }, false) := by
  rw [finish, hp]
  dsimp only
  rw [hfin, Option.map_some]

lemma finish_of_rateLimit {l : RateLimitTrafficClass} (hp : t.policy = .rateLimit l) :
    t.finish pf flags child usage tsc
      = some ({ t with
          policy := .rateLimit (l.finish usage tsc)
          wakeupTime := if decide (l.Exceeds usage tsc ∧ l.limit ≠ 0) then l.wakeup usage tsc
            else t.wakeupTime
          blocked := t.blocked || decide (l.Exceeds usage tsc) || flags child },
        decide (l.Exceeds usage tsc ∧ l.limit ≠ 0)) := by
  rw [finish, hp]

/-- A rate limit class pays for the run, or goes to sleep. -/
lemma finish_rateLimit {l : RateLimitTrafficClass} (hp : t.policy = .rateLimit l)
    (h : t.FinishReady flags child usage tsc) :
    ∃ t' sleeps, t.finish pf flags child usage tsc = some (t', sleeps) ∧
      Finished flags tsc t t' sleeps := by
  obtain ⟨hok, hpick, hunblocked, hwrap⟩ := h
  rw [Ok, hp] at hok
  rw [pickNextChild, hp] at hpick
  dsimp only at hok hpick
  obtain ⟨hzero, -⟩ := hok hunblocked
  have hwakeup := RateLimitTrafficClass.wakeup_eq (hwrap l hp).2
  have hpos := (hwrap l hp).1
  obtain ⟨tokens, hfin⟩ := l.finish_eq usage tsc
  refine ⟨_, _, finish_of_rateLimit hp, ?_⟩
  constructor
  · rw [Ok]
    dsimp only
    intro hblocked
    obtain ⟨hor, hflag⟩ := Bool.or_eq_false_iff.mp hblocked
    have hexceeds := of_decide_eq_false (Bool.or_eq_false_iff.mp hor).2
    rw [if_neg fun hs => hexceeds (of_decide_eq_true hs).1, hfin, childBlocked, hpick]
    exact ⟨hzero, hflag⟩
  · refine ⟨by dsimp only, ?_, by rw [kind, kind, hp], ?_⟩
    · rw [children, children, hp, hfin]
    · rw [terms_of_rateLimit hp, terms, hfin]
  · intro hs
    dsimp only
    rw [hs, if_neg Bool.false_ne_true]
  · intro hs
    dsimp only
    rw [if_pos hs, hwakeup, decide_eq_true (of_decide_eq_true hs).1, Bool.or_true, Bool.true_or]
    exact ⟨hzero, rfl, Nat.add_pos_left hpos _, Nat.le_add_right _ _⟩

/-- **Finishing** brings the class in order. -/
theorem FinishReady.finish_ok (h : t.FinishReady flags child usage tsc) (hnd : t.children.Nodup) :
    ∃ t' sleeps, t.finish pf flags child usage tsc = some (t', sleeps) ∧
      Finished flags tsc t t' sleeps := by
  obtain ⟨hok, hpick, hunblocked, hwrap⟩ := h
  -- the flag of the class is only written when the child became blocked
  have hflag : ∀ {l : Bool}, (flags child = false → l = false) →
      (if flags child = true then l else t.blocked) = l := fun {l} hl => by
    cases hc : flags child with
    | true => exact if_pos rfl
    | false => rw [if_neg Bool.false_ne_true, hunblocked, hl hc]
  obtain ⟨parent, wakeup, blocked, policy⟩ := t
  cases policy with
  | priority p =>
      obtain ⟨hch, hfirst⟩ := finish_priority hok.2.1
      refine ⟨_, _, rfl, ⟨?_, ?_, ?_⟩, ⟨rfl, ?_, rfl, rfl⟩, fun _ => rfl, fun hs => by cases hs⟩
      · rw [PriorityTrafficClass.Sorted, hch]
        exact hok.1
      · change (p.finish flags child).firstRunnable = (p.finish flags child).children.findIdx _
        rw [hch, hfirst]
        rfl
      · change (if flags child = true then _ else _) = decide (_ = _)
        rw [hflag fun hc => ?_, hfirst, hch]
        · rw [PriorityTrafficClass.firstUnblocked, PriorityTrafficClass.firstUnblocked, hch]
        · have hsame : Function.update flags child false = flags := by
            rw [← hc, Function.update_eq_self]
          have hold := hok.2.2
          rw [hsame] at hold
          rw [hfirst, hch, ← hold]
          exact hunblocked
      · change ((p.finish flags child).children.map _).Perm _
        rw [hch]
        exact List.Perm.refl _
  | weightedFair w =>
      obtain ⟨w', hfin, hok', hperm, hempty⟩ := @finish_weightedFair _ _ pf flags child usage _
        hok.1 hpick hnd
      exact ⟨_, _, finish_of_weightedFair rfl hfin, ⟨hok', hflag hempty⟩,
        ⟨rfl, hperm, rfl, rfl⟩, fun _ => rfl, fun hs => by cases hs⟩
  | roundRobin r =>
      obtain ⟨r', hfin, hok', hperm, hempty⟩ := @finish_roundRobin flags child usage _
        hok.1 hpick hnd
      exact ⟨_, _, finish_of_roundRobin rfl hfin, ⟨hok', hflag hempty⟩,
        ⟨rfl, hperm, rfl, rfl⟩, fun _ => rfl, fun hs => by cases hs⟩
  | rateLimit l => exact finish_rateLimit rfl ⟨hok, hpick, hunblocked, hwrap⟩
  | leaf l =>
      cases hpick

end TrafficClass

end Bess
