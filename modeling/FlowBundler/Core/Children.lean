import FlowBundler.Core.Policies

/-!
A child is added to a class, or taken from it.

* `Regrouped t t'`: only the lists of children have changed.
* `Ok.addChild`: after `AddChild` the class has one child more and waits for `UnblockTowardsRoot`,
  if this is called, or is in order.
* `Ok.removeChild`: `RemoveChild` finds every child; the class has one child less and waits for
  `BlockTowardsRoot`, if this is called, or is in order.

Each policy has its two lemmas.  The list of a priority class is sorted by insertion from the back
(`insertBack_perm`, `insertBack_sorted`), and a child that is taken out before the position of the
next child moves that position.  A weighted fair class puts the new child into one of its two heaps
by its flag, a round robin class into one of its lists.  Both notify the class only when the flag
asks for it, and the cases that do not notify leave it in order at once.
-/

namespace Bess

open MinHeap

variable {κ : Type} [LinearOrder κ] {pf : Platform κ} {flags : ℕ → Bool} {c : ℕ} {notify : Bool}

/-! ### Priority -/

namespace PriorityTrafficClass

variable {p p' : PriorityTrafficClass} {d : PriorityChild} {l : List PriorityChild} {priority : ℕ}

lemma insertBack_perm (d : PriorityChild) (l : List PriorityChild) :
    (insertBack d l).Perm (d :: l) := by
  induction l with
  | nil => exact List.Perm.refl _
  | cons prev rest ih =>
      rw [insertBack]
      split
      · exact (ih.cons prev).trans (List.Perm.swap d prev rest)
      · exact List.Perm.refl _

/-- A list with the least urgent child in front stays so. -/
lemma insertBack_sorted (h : l.Pairwise fun d e => e.priority < d.priority)
    (hne : ∀ e ∈ l, e.priority ≠ d.priority) :
    (insertBack d l).Pairwise fun d e => e.priority < d.priority := by
  induction l with
  | nil => exact List.pairwise_singleton _ d
  | cons prev rest ih =>
      obtain ⟨hprev, hrest⟩ := List.pairwise_cons.mp h
      rw [insertBack]
      split
      · rename_i hlt
        refine List.pairwise_cons.mpr
          ⟨fun e he => ?_, ih hrest fun e he => hne e (List.mem_cons_of_mem _ he)⟩
        rcases List.mem_cons.mp ((insertBack_perm d rest).mem_iff.mp he) with rfl | he
        · exact hlt
        · exact hprev e he
      · rename_i hnot
        have hlt : prev.priority < d.priority :=
          lt_of_le_of_ne (not_lt.mp hnot) (hne prev List.mem_cons_self)
        refine List.pairwise_cons.mpr ⟨fun e he => ?_, h⟩
        rcases List.mem_cons.mp he with rfl | he
        · exact hlt
        · exact (hprev e he).trans hlt

lemma addChild_spec (h : p.Sorted) (hrun : p.addChild c priority = some p') :
    p'.Sorted ∧ p'.children.Perm ({ priority := priority, c := c } :: p.children) := by
  rw [addChild] at hrun
  split at hrun
  · cases hrun
  · rename_i hnew
    obtain rfl := Option.some.inj hrun
    refine ⟨?_, ?_⟩
    · refine List.pairwise_reverse.mpr (insertBack_sorted (List.pairwise_reverse.mpr h) ?_)
      intro e he heq
      exact hnew (List.any_eq_true.mpr ⟨e, List.mem_reverse.mp he, by simpa using heq⟩)
    · exact (List.reverse_perm _).trans
        ((insertBack_perm _ _).trans ((List.reverse_perm _).cons _))

lemma le_firstUnblocked {n : ℕ} (hn : n ≤ p.children.length)
    (h : ∀ i d, i < n → p.children[i]? = some d → flags d.c = true) :
    n ≤ p.firstUnblocked flags := by
  by_contra hlt
  rw [not_le] at hlt
  have hlen := lt_of_lt_of_le hlt hn
  have hfound : (!flags p.children[p.firstUnblocked flags].c) = true :=
    @List.findIdx_getElem _ (fun d : PriorityChild => !flags d.c) p.children hlen
  rw [h _ _ hlt (List.getElem?_eq_getElem hlen)] at hfound
  cases hfound

lemma removeChild_spec (h : p.Sorted) (hfirst : p.firstRunnable = p.firstUnblocked flags)
    (hc : c ∈ p.children.map PriorityChild.c) :
    ∃ p', p.removeChild c = some p' ∧ p'.Sorted ∧
      (p.children.map PriorityChild.c).Perm (c :: p'.children.map PriorityChild.c) ∧
      p'.firstRunnable ≤ p'.firstUnblocked flags ∧
      (p.firstUnblocked flags = p.children.length →
        p'.firstUnblocked flags = p'.children.length) := by
  obtain ⟨d, hd, hdc⟩ := List.mem_map.mp hc
  rw [removeChild]
  set i := p.children.findIdx fun d => d.c == c with hi
  have hlt : i < p.children.length :=
    List.findIdx_lt_length.mpr ⟨d, hd, by simpa using hdc⟩
  have hget : p.children[i].c = c := by
    have : (p.children[i].c == c) = true :=
      @List.findIdx_getElem _ (fun d : PriorityChild => d.c == c) p.children hlt
    simpa using this
  have hlen := List.length_eraseIdx_of_lt hlt
  have hle := @firstUnblocked_le flags p
  rw [if_pos hlt]
  refine ⟨_, rfl, h.sublist (List.eraseIdx_sublist _ _), ?_, ?_, fun hall => ?_⟩
  · have hperm := (List.getElem_cons_eraseIdx_perm hlt).symm.map PriorityChild.c
    rwa [List.map_cons, hget] at hperm
  · -- the children before the position were blocked, and still are
    refine le_firstUnblocked ?_ fun j e hj he => ?_
    · dsimp only
      rw [hlen]
      split <;> omega
    · dsimp only at hj he
      rw [List.getElem?_eraseIdx] at he
      split at he
      · exact blocked_of_lt (by split at hj <;> omega) he
      · exact blocked_of_lt (by split at hj <;> omega) he
  · refine le_antisymm firstUnblocked_le (le_firstUnblocked le_rfl fun j e _ he => ?_)
    dsimp only at he
    have hmem : e ∈ p.children := (List.eraseIdx_sublist _ _).mem (List.mem_of_getElem? he)
    by_contra hfree
    exact absurd (firstUnblocked_lt_iff.mpr ⟨e, hmem, Bool.eq_false_of_not_eq_true hfree⟩)
      (by omega)

end PriorityTrafficClass

/-! ### Weighted fair -/

namespace WeightedFairTrafficClass

variable {w w' : WeightedFairTrafficClass κ} {share : ℤ}

lemma addChild_spec (h : w.Ok flags) (hrun : w.addChild pf (flags c) c share = some (w', notify)) :
    w'.Ok flags ∧
      ((w'.runnable ++ w'.blocked).map FairChild.c).Perm
        (c :: (w.runnable ++ w.blocked).map FairChild.c) ∧
      (w.runnable ≠ [] → w'.runnable ≠ []) ∧ (notify = false → w'.runnable = w.runnable) := by
  obtain ⟨hheap, hfree, hblk⟩ := h
  rw [addChild] at hrun
  split at hrun
  · cases hrun
  · dsimp only at hrun
    set d : FairChild κ := { stride := pf.stride share, pass := nextPass pf w.runnable, c := c }
    split at hrun
    · rename_i hc
      obtain ⟨rfl, rfl⟩ := Prod.mk.inj (Option.some.inj hrun)
      refine ⟨⟨hheap, hfree, fun x hx => ?_⟩, ?_, id, fun _ => rfl⟩
      · rcases List.mem_append.mp hx with hx | hx
        · exact hblk x hx
        · exact (List.mem_singleton.mp hx) ▸ hc
      · dsimp only
        rw [← List.append_assoc, List.map_append]
        exact List.perm_append_singleton c _
    · rename_i hc
      obtain ⟨rfl, rfl⟩ := Prod.mk.inj (Option.some.inj hrun)
      have hperm := pf.fairHeap.push_perm FairChild.pass w.runnable d hheap
      refine ⟨⟨pf.fairHeap.push_isHeap _ _ _ hheap, fun x hx => ?_, hblk⟩, ?_, fun _ hnil => ?_,
        nofun⟩
      · rcases List.mem_cons.mp (hperm.mem_iff.mp hx) with rfl | hx
        · exact Bool.eq_false_of_not_eq_true hc
        · exact hfree x hx
      · exact (hperm.append_right w.blocked).map FairChild.c
      · dsimp only at hnil
        rw [hnil] at hperm
        exact absurd hperm.length_eq (by simp)

lemma removeChild_spec (h : w.Ok flags)
    (hc : c ∈ (w.runnable ++ w.blocked).map FairChild.c) :
    ∃ w' notify, w.removeChild pf c = some (w', notify) ∧ w'.Ok flags ∧
      ((w.runnable ++ w.blocked).map FairChild.c).Perm
        (c :: (w'.runnable ++ w'.blocked).map FairChild.c) ∧
      (notify = false → w'.runnable = w.runnable) ∧ (notify = true → w.runnable ≠ []) := by
  obtain ⟨hheap, hfree, hblk⟩ := h
  rw [removeChild]
  split
  · rename_i hany
    obtain ⟨d, hd, hdc⟩ := List.any_eq_true.mp hany
    obtain ⟨e, front, back, -, hec, hsplit, herase⟩ :=
      @List.exists_of_eraseP _ (fun d : FairChild κ => d.c == c) w.blocked d hd hdc
    have hec : e.c = c := by simpa using hec
    refine ⟨_, _, rfl, ⟨hheap, hfree, fun x hx => hblk x (List.mem_of_mem_eraseP hx)⟩, ?_,
      fun _ => rfl, nofun⟩
    dsimp only
    rw [herase, hsplit, ← hec, ← List.map_cons (f := FairChild.c)]
    refine List.Perm.map _ ?_
    rw [← List.append_assoc, ← List.append_assoc]
    exact List.perm_middle
  · rename_i hany
    cases hdel : pf.fairHeap.deleteSingle FairChild.pass (fun d => d.c == c) w.runnable with
    | none =>
        obtain ⟨d, hd, hdc⟩ := List.mem_map.mp hc
        rcases List.mem_append.mp hd with hd | hd
        · have := StdHeap.deleteSingle_none hdel d hd
          simp [hdc] at this
        · exact absurd (List.any_eq_true.mpr ⟨d, hd, by simpa using hdc⟩) hany
    | some found =>
        obtain ⟨d, rest⟩ := found
        obtain ⟨hd, hperm, hrest⟩ := StdHeap.deleteSingle_some hdel
        have hdc : d.c = c := by simpa using hd
        refine ⟨_, _, rfl, ⟨hrest, fun x hx => ?_, hblk⟩, ?_, nofun,
          fun _ hnil => ?_⟩
        · exact hfree x (hperm.mem_iff.mpr (List.mem_cons_of_mem _ hx))
        · have := (hperm.append_right w.blocked).map FairChild.c
          rwa [List.cons_append, List.map_cons, hdc] at this
        · rw [hnil] at hperm
          exact absurd hperm.length_eq (by simp)

end WeightedFairTrafficClass

/-! ### Round robin -/

namespace RoundRobinTrafficClass

variable {r : RoundRobinTrafficClass}

lemma addChild_spec (h : r.Ok flags) :
    (r.addChild (flags c) c).Ok flags ∧
      ((r.addChild (flags c) c).runnable ++ (r.addChild (flags c) c).blocked).Perm
        (c :: (r.runnable ++ r.blocked)) ∧
      (r.runnable ≠ [] → (r.addChild (flags c) c).runnable ≠ []) := by
  obtain ⟨hrange, hfree, hblk, hall⟩ := h
  rw [addChild]
  split
  · rename_i hc
    have hperm : (r.runnable ++ (r.blocked ++ [c])).Perm (c :: (r.runnable ++ r.blocked)) := by
      rw [← List.append_assoc]
      exact List.perm_append_singleton c _
    refine ⟨⟨hrange, hfree, fun x hx => ?_, ?_⟩, hperm, id⟩
    · rcases List.mem_append.mp hx with hx | hx
      · exact hblk x hx
      · exact (List.mem_singleton.mp hx) ▸ hc
    · exact ((List.perm_append_singleton c _).trans (hall.cons c)).trans hperm.symm
  · rename_i hc
    have hperm : (r.runnable ++ [c] ++ r.blocked).Perm (c :: (r.runnable ++ r.blocked)) := by
      exact (List.perm_append_singleton c _).append_right _
    refine ⟨⟨?_, fun x hx => ?_, hblk, ?_⟩, hperm, fun _ => by simp⟩
    · refine hrange.imp id fun hlt => ?_
      dsimp only
      rw [List.length_append]
      omega
    · rcases List.mem_append.mp hx with hx | hx
      · exact hfree x hx
      · exact (List.mem_singleton.mp hx) ▸ Bool.eq_false_of_not_eq_true hc
    · exact ((List.perm_append_singleton c _).trans (hall.cons c)).trans hperm.symm

lemma removeChild_spec (h : r.Ok flags) (hc : c ∈ r.runnable ++ r.blocked) :
    ∃ r' notify, r.removeChild c = some (r', notify) ∧ r'.Ok flags ∧
      (r.runnable ++ r.blocked).Perm (c :: (r'.runnable ++ r'.blocked)) ∧
      (notify = false → r'.runnable = r.runnable) ∧ (notify = true → r.runnable ≠ []) := by
  obtain ⟨hrange, hfree, hblk, hall⟩ := h
  rw [removeChild]
  dsimp only
  split
  · rename_i hmem
    have hperm : (r.runnable ++ r.blocked).Perm (c :: (r.runnable ++ r.blocked.erase c)) :=
      ((List.perm_cons_erase hmem).append_left _).trans List.perm_middle
    refine ⟨_, _, rfl, ⟨hrange, hfree, fun x hx => hblk x (List.mem_of_mem_erase hx), ?_⟩, hperm,
      fun _ => rfl, nofun⟩
    have := (hall.trans hperm).erase c
    rwa [List.erase_cons_head] at this
  · rename_i hnot
    have hmem : c ∈ r.runnable := (List.mem_append.mp hc).resolve_right hnot
    rw [if_pos hmem]
    have hlt := List.idxOf_lt_length_of_mem hmem
    have hsplit : r.runnable.Perm (c :: r.runnable.eraseIdx (r.runnable.idxOf c)) := by
      have := (List.getElem_cons_eraseIdx_perm hlt).symm
      rwa [List.getElem_idxOf] at this
    refine ⟨_, _, rfl, ⟨wrap_inRange _, fun x hx => ?_, fun x hx => ?_, ?_⟩, ?_,
      nofun, fun _ hnil => by rw [hnil] at hmem; cases hmem⟩
    · rw [eraseAt, wrap_runnable] at hx
      exact hfree x (List.mem_of_mem_eraseIdx hx)
    · rw [eraseAt, wrap_blocked] at hx
      exact hblk x hx
    · rw [eraseAt, wrap_allChildren, wrap_runnable, wrap_blocked]
      have := (hall.trans (hsplit.append_right r.blocked)).erase c
      rwa [List.cons_append, List.erase_cons_head] at this
    · rw [eraseAt, wrap_runnable, wrap_blocked]
      exact hsplit.append_right r.blocked

end RoundRobinTrafficClass

/-! ### One class -/

namespace TrafficClass

variable {t t' : TrafficClass κ} {arg : ChildArg}

/-- Only the lists of children have changed. -/
structure Regrouped (t t' : TrafficClass κ) : Prop where
  parent : t'.parent = t.parent
  kind : t'.kind = t.kind
  terms : t'.terms = t.terms
  wakeupTime : t'.wakeupTime = t.wakeupTime
  blocked : t'.blocked = t.blocked

/-- **A child is added**: the class has to be told, or is in order. -/
theorem Ok.addChild (h : t.Ok flags)
    (hrun : t.addChild pf (flags c) c arg = some (t', notify)) :
    Regrouped t t' ∧ t'.children.Perm (c :: t.children) ∧
      (if notify then t'.UnblockReady flags else t'.Ok flags) := by
  obtain ⟨parent, wakeup, blocked, policy⟩ := t
  cases policy with
  | priority p =>
      cases arg with
      | priority priority =>
          obtain ⟨p', hp', heq⟩ := Option.map_eq_some_iff.mp hrun
          obtain ⟨rfl, rfl⟩ := Prod.mk.inj heq
          obtain ⟨hsorted, hperm⟩ := PriorityTrafficClass.addChild_spec h.1 hp'
          refine ⟨⟨rfl, rfl, rfl, rfl, rfl⟩, hperm.map PriorityChild.c, hsorted,
            fun hblocked => ?_⟩
          have hne : ¬ p.firstUnblocked flags = p.children.length :=
            of_decide_eq_false (h.2.2.symm.trans hblocked)
          obtain ⟨d, hd, hflag⟩ := PriorityTrafficClass.firstUnblocked_lt_iff.mp
            (lt_of_le_of_ne PriorityTrafficClass.firstUnblocked_le hne)
          exact ⟨d, hperm.mem_iff.mpr (List.mem_cons_of_mem _ hd), hflag⟩
      | share share => cases hrun
      | none => cases hrun
  | weightedFair w =>
      cases arg with
      | share share =>
          obtain ⟨⟨w', notify'⟩, hw', heq⟩ := Option.map_eq_some_iff.mp hrun
          obtain ⟨rfl, rfl⟩ := Prod.mk.inj heq
          obtain ⟨hok, hperm, hne, hsame⟩ := WeightedFairTrafficClass.addChild_spec h.1 hw'
          refine ⟨⟨rfl, rfl, rfl, rfl, rfl⟩, hperm, ?_⟩
          cases notify' with
          | true =>
              exact ⟨hok.heap, hok.runnable, fun hblocked => hne
                (List.isEmpty_eq_false_iff.mp (h.2.symm.trans hblocked))⟩
          | false => exact ⟨hok, h.2.trans (congrArg List.isEmpty (hsame rfl).symm)⟩
      | priority priority => cases hrun
      | none => cases hrun
  | roundRobin r =>
      cases arg with
      | none =>
          obtain ⟨rfl, rfl⟩ := Prod.mk.inj (Option.some.inj hrun)
          obtain ⟨hok, hperm, hne⟩ := @RoundRobinTrafficClass.addChild_spec flags c r h.1
          exact ⟨⟨rfl, rfl, rfl, rfl, rfl⟩, hperm, hok.inRange, hok.runnable, hok.all,
            fun hblocked => hne (List.isEmpty_eq_false_iff.mp (h.2.symm.trans hblocked))⟩
      | priority priority => cases hrun
      | share share => cases hrun
  | rateLimit l =>
      cases arg with
      | none =>
          by_cases hnone : l.child = none
          · obtain ⟨rfl, rfl⟩ := Prod.mk.inj (Option.some.inj ((if_pos hnone).symm.trans hrun))
            refine ⟨⟨rfl, rfl, rfl, rfl, rfl⟩, ?_, fun hblocked => ?_⟩
            · change [c].Perm (c :: l.child.toList)
              rw [hnone]
              exact List.Perm.refl _
            · have hchild := (h hblocked).2
              rw [childBlocked, hnone] at hchild
              cases hchild
          · cases (if_neg hnone).symm.trans hrun
      | priority priority => cases hrun
      | share share => cases hrun
  | leaf l => cases arg <;> cases hrun

variable (pf) in
/-- **A child is removed**: the class finds it, and has to be told or is in order. -/
theorem Ok.removeChild (h : t.Ok flags) (hc : c ∈ t.children) :
    ∃ t' notify, t.removeChild pf c = some (t', notify) ∧ Regrouped t t' ∧
      t.children.Perm (c :: t'.children) ∧
      (if notify then t'.BlockReady flags else t'.Ok flags) := by
  obtain ⟨parent, wakeup, blocked, policy⟩ := t
  cases policy with
  | priority p =>
      obtain ⟨p', hp', hsorted, hperm, hfirst, hall⟩ :=
        PriorityTrafficClass.removeChild_spec h.1 h.2.1 hc
      have hrun : TrafficClass.removeChild pf ⟨parent, wakeup, blocked, .priority p⟩ c
          = some (⟨parent, wakeup, blocked, .priority p'⟩, true) := by
        rw [TrafficClass.removeChild]
        dsimp only
        rw [hp', Option.map_some]
      exact ⟨_, _, hrun, ⟨rfl, rfl, rfl, rfl, rfl⟩, hperm, hsorted, hfirst, fun hblocked =>
        hall (of_decide_eq_true (h.2.2.symm.trans hblocked))⟩
  | weightedFair w =>
      obtain ⟨w', notify, hw', hok, hperm, hsame, hne⟩ :=
        @WeightedFairTrafficClass.removeChild_spec _ _ pf flags c w h.1 hc
      have hrun : TrafficClass.removeChild pf ⟨parent, wakeup, blocked, .weightedFair w⟩ c
          = some (⟨parent, wakeup, blocked, .weightedFair w'⟩, notify) := by
        rw [TrafficClass.removeChild]
        dsimp only
        rw [hw', Option.map_some]
      refine ⟨_, _, hrun, ⟨rfl, rfl, rfl, rfl, rfl⟩, hperm, ?_⟩
      cases notify with
      | true =>
          refine ⟨hok.heap, ?_, hok.blocked, fun hblocked => ?_⟩
          · refine (List.countP_eq_zero.mpr fun d hd => ?_).le.trans (Nat.zero_le 1)
            rw [hok.runnable d hd]
            exact Bool.false_ne_true
          · exact absurd (List.isEmpty_iff.mp (h.2.symm.trans hblocked)) (hne rfl)
      | false => exact ⟨hok, h.2.trans (congrArg List.isEmpty (hsame rfl).symm)⟩
  | roundRobin r =>
      obtain ⟨r', notify, hr', hok, hperm, hsame, hne⟩ :=
        RoundRobinTrafficClass.removeChild_spec h.1 hc
      have hrun : TrafficClass.removeChild pf ⟨parent, wakeup, blocked, .roundRobin r⟩ c
          = some (⟨parent, wakeup, blocked, .roundRobin r'⟩, notify) := by
        rw [TrafficClass.removeChild]
        dsimp only
        rw [hr', Option.map_some]
      refine ⟨_, _, hrun, ⟨rfl, rfl, rfl, rfl, rfl⟩, hperm, ?_⟩
      cases notify with
      | true =>
          exact ⟨hok.inRange, hok.blocked, hok.all, fun hblocked =>
            absurd (List.isEmpty_iff.mp (h.2.symm.trans hblocked)) (hne rfl)⟩
      | false => exact ⟨hok, h.2.trans (congrArg List.isEmpty (hsame rfl).symm)⟩
  | rateLimit l =>
      have hl : l.child = some c := Option.mem_toList.mp hc
      refine ⟨_, true, if_pos hl, ⟨rfl, rfl, rfl, rfl, rfl⟩, ?_, rfl⟩
      change l.child.toList.Perm [c]
      rw [hl]
      exact List.Perm.refl _
  | leaf l => exact absurd hc List.not_mem_nil

end TrafficClass

end Bess
