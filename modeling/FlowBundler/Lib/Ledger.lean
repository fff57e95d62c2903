import Mathlib.Tactic
import Mathlib.Data.List.Nodup
import Mathlib.Data.List.Perm.Basic
import Mathlib.Data.List.MinMax
import Mathlib.Algebra.BigOperators.Group.Finset.Basic

/-!
A store that keeps its entries in slots, seen as one list in order of arrival.

The abstract content of a bucketed store is the list of its entries in arrival
order; a slot then holds the entries whose place is that slot, again in arrival
order, and removing entries by name commutes with looking at one slot.

* `slot place held k`: the entries of `held` whose place is `k`.
* `without name held ps`: the entries whose name is not in `ps`.
* `slot_without`, `without_eq_self`, `without_cons`: removal, slot by slot.
* `perm_flatMap_slot`, `sum_length_slot`: the slots partition the store.
* `FirstLeast key held e`: `e` is the first of the entries with the least key,
  which is what a stable priority queue returns; `firstLeast_of_argmin`: it is what
  `List.argmin` finds.

An implementation that keeps a linked list or a queue for each place is compared with the slots of
one ledger, so that its operations are an append to the ledger and a removal by name.  Order of
service is a matter of the ledger alone: with keys that do not decrease along a class, serving the
first least key takes from the class its oldest entry (`filter_eq_of_served`).
-/

namespace Ledger

variable {ε κ : Type*} [DecidableEq κ]

/-- The entries of the store whose place is `k`, in arrival order. -/
def slot (place : ε → κ) (held : List ε) (k : κ) : List ε :=
  held.filter fun e => place e = k

/-- The entries of the store whose name is not among `ps`. -/
def without (name : ε → ℕ) (held : List ε) (ps : List ℕ) : List ε :=
  held.filter fun e => name e ∉ ps

/-- The entries of the store whose name is among `ps`. -/
def named (name : ε → ℕ) (held : List ε) (ps : List ℕ) : List ε :=
  held.filter fun e => name e ∈ ps

variable {place : ε → κ} {name : ε → ℕ} {held : List ε} {k : κ} {e : ε} {ps : List ℕ}

@[simp] lemma mem_slot : e ∈ slot place held k ↔ e ∈ held ∧ place e = k := by
  simp [slot]

@[simp] lemma mem_without : e ∈ without name held ps ↔ e ∈ held ∧ name e ∉ ps := by
  simp [without]

@[simp] lemma mem_named : e ∈ named name held ps ↔ e ∈ held ∧ name e ∈ ps := by
  simp [named]

@[simp] lemma slot_nil : slot place [] k = [] := rfl

lemma slot_append (l l' : List ε) : slot place (l ++ l') k = slot place l k ++ slot place l' k :=
  List.filter_append l l'

lemma slot_singleton_self (e : ε) : slot place [e] (place e) = [e] := by simp [slot]

lemma slot_singleton_of_ne (h : place e ≠ k) : slot place [e] k = [] := by simp [slot, h]

/-- Removal by name is removal in each slot. -/
lemma slot_without : slot place (without name held ps) k = without name (slot place held k) ps :=
  List.filter_comm _ _ held

/-- Removing absent names changes nothing. -/
lemma without_eq_self (h : ∀ e ∈ held, name e ∉ ps) : without name held ps = held :=
  List.filter_eq_self.mpr fun e he => by simpa using h e he

lemma without_append (l l' : List ε) :
    without name (l ++ l') ps = without name l ps ++ without name l' ps :=
  List.filter_append l l'

/-- Removing the head of a list of distinct names leaves the tail. -/
lemma without_cons {l : List ε} (h : ((e :: l).map name).Nodup) :
    without name (e :: l) [name e] = l := by
  have hne : ∀ x ∈ l, name x ∉ [name e] := by
    intro x hx hmem
    rw [List.map_cons, List.nodup_cons] at h
    exact h.1 (List.mem_map.mpr ⟨x, hx, by simpa using hmem⟩)
  have hhead : without name (e :: l) [name e] = without name l [name e] := by
    simp [without]
  rw [hhead, without_eq_self hne]

/-- Taking one entry out of the middle. -/
lemma without_middle {pre post : List ε} (h : ((pre ++ e :: post).map name).Nodup) :
    without name (pre ++ e :: post) [name e] = pre ++ post := by
  have hpost : without name (e :: post) [name e] = post :=
    without_cons (h.sublist ((List.sublist_append_right pre _).map name))
  have hpre : without name pre [name e] = pre := by
    refine without_eq_self fun x hx hmem => ?_
    rw [List.map_append, List.nodup_append] at h
    exact h.2.2 (name x) (List.mem_map_of_mem hx) (name e) (by simp) (by simpa using hmem)
  rw [without_append, hpre, hpost]

/-- Names of a slot are distinct when the names of the store are. -/
lemma nodup_slot (h : (held.map name).Nodup) : ((slot place held k).map name).Nodup :=
  h.sublist (List.filter_sublist.map name)

lemma nodup_without (h : (held.map name).Nodup) : ((without name held ps).map name).Nodup :=
  h.sublist (List.filter_sublist.map name)

/-- The named entries and the others make up the store. -/
lemma perm_named_without (name : ε → ℕ) (held : List ε) (ps : List ℕ) :
    (named name held ps ++ without name held ps).Perm held := by
  have h := List.filter_append_perm (fun e => decide (name e ∈ ps)) held
  simpa [named, without] using h

/-- A name that occurs names exactly one entry of a store of distinct names. -/
lemma named_singleton (h : (held.map name).Nodup) (he : e ∈ held) :
    named name held [name e] = [e] := by
  induction held with
  | nil => simp at he
  | cons x xs ih =>
      rw [List.map_cons, List.nodup_cons] at h
      rcases List.mem_cons.mp he with rfl | hmem
      · have hnil : named name xs [name e] = [] := by
          rw [named, List.filter_eq_nil_iff]
          intro y hy hmem
          exact h.1 (List.mem_map.mpr ⟨y, hy, by simpa using hmem⟩)
        have hhead : named name (e :: xs) [name e] = e :: named name xs [name e] := by
          simp [named]
        rw [hhead, hnil]
      · have hne : name x ≠ name e := fun heq =>
          h.1 (heq ▸ List.mem_map_of_mem hmem)
        have hskip : named name (x :: xs) [name e] = named name xs [name e] := by
          simp [named, hne]
        rw [hskip, ih h.2 hmem]

/-- Looking the names of entries up gives these entries, in order. -/
lemma flatMap_named (h : (held.map name).Nodup) {sub : List ε} (hsub : ∀ x ∈ sub, x ∈ held) :
    (sub.map name).flatMap (fun n => named name held [n]) = sub := by
  induction sub with
  | nil => rfl
  | cons x xs ih =>
      rw [List.map_cons, List.flatMap_cons, named_singleton h (hsub x (by simp)),
        ih fun y hy => hsub y (List.mem_cons_of_mem x hy)]
      rfl

/-- A store is made up of some of its entries and the store without them. -/
lemma perm_append_without (h : (held.map name).Nodup) {sub : List ε} (hnd : sub.Nodup)
    (hsub : ∀ x ∈ sub, x ∈ held) : held.Perm (sub ++ without name held (sub.map name)) := by
  have hnamed : (named name held (sub.map name)).Perm sub := by
    refine (List.perm_ext_iff_of_nodup ?_ hnd).mpr fun x => ?_
    · exact h.of_map.filter _
    · rw [mem_named, List.mem_map]
      constructor
      · rintro ⟨hx, y, hy, hyx⟩
        obtain rfl := List.inj_on_of_nodup_map h (hsub y hy) hx hyx
        exact hy
      · exact fun hx => ⟨hsub x hx, x, hx, rfl⟩
  exact (perm_named_without name held (sub.map name)).symm.trans (hnamed.append_right _)

/-- Removing the first entries of a list of distinct names. -/
lemma without_take {l : List ε} (h : (l.map name).Nodup) (n : ℕ) :
    without name l ((l.take n).map name) = l.drop n := by
  have hsplit : l.take n ++ l.drop n = l := List.take_append_drop n l
  have hnd := h
  rw [← hsplit, List.map_append, List.nodup_append] at hnd
  have hfst : without name (l.take n) ((l.take n).map name) = [] := by
    refine List.filter_eq_nil_iff.mpr fun x hx hmem => ?_
    simp only [decide_eq_true_eq] at hmem
    exact hmem (List.mem_map_of_mem hx)
  have hsnd : without name (l.drop n) ((l.take n).map name) = l.drop n :=
    without_eq_self fun x hx hmem => hnd.2.2 _ hmem _ (List.mem_map_of_mem hx) rfl
  calc without name l ((l.take n).map name)
      = without name (l.take n ++ l.drop n) ((l.take n).map name) := by rw [hsplit]
    _ = l.drop n := by rw [without_append, hfst, hsnd, List.nil_append]

lemma without_reverse (l : List ε) (ps : List ℕ) :
    without name l.reverse ps = (without name l ps).reverse := List.filter_reverse

/-! ### The slots partition the store -/

/-- The entries placed in `ks` are made up of the slots of `ks`. -/
lemma filter_perm_flatMap_slot {ks : List κ} (hnd : ks.Nodup) :
    (held.filter fun e => place e ∈ ks).Perm (ks.flatMap (slot place held)) := by
  induction ks with
  | nil => simp
  | cons k ks ih =>
      rw [List.nodup_cons] at hnd
      -- split off the slot `k`; the rest is the filter for `ks`, since `k` is not in `ks`
      have hsplit := (List.filter_append_perm (fun e => decide (place e = k))
        (held.filter fun e => place e ∈ k :: ks)).symm
      have hfst : (held.filter fun e => place e ∈ k :: ks).filter (fun e => place e = k)
          = slot place held k := by
        rw [List.filter_filter, slot]
        refine List.filter_congr fun e _ => ?_
        by_cases h : place e = k <;> simp [h]
      have hsnd : (held.filter fun e => place e ∈ k :: ks).filter (fun e => !decide (place e = k))
          = held.filter fun e => place e ∈ ks := by
        rw [List.filter_filter]
        refine List.filter_congr fun e _ => ?_
        by_cases h : place e = k
        · simp [h, hnd.1]
        · simp [h]
      rw [hfst, hsnd] at hsplit
      rw [List.flatMap_cons]
      exact hsplit.trans ((ih hnd.2).append_left _)

/-- A store whose places are all in `ks` is made up of the slots of `ks`. -/
lemma perm_flatMap_slot {ks : List κ} (hnd : ks.Nodup) (h : ∀ e ∈ held, place e ∈ ks) :
    held.Perm (ks.flatMap (slot place held)) := by
  have hperm := @filter_perm_flatMap_slot _ _ _ place held ks hnd
  rwa [List.filter_eq_self.mpr fun e he => by simpa using h e he] at hperm

/-- The lengths of the slots of a set of places add up. -/
lemma sum_length_slot {S : Finset κ} (h : ∀ e ∈ held, place e ∈ S) :
    ∑ k ∈ S, (slot place held k).length = held.length := by
  induction held with
  | nil => simp
  | cons x xs ih =>
      have hx : place x ∈ S := h x (by simp)
      have hcons : ∀ k, (slot place (x :: xs) k).length
          = (slot place xs k).length + if k = place x then 1 else 0 := by
        intro k
        by_cases hk : place x = k
        · simp [slot, hk]
        · simp [slot, hk, Ne.symm hk]
      simp only [hcons, Finset.sum_add_distrib, Finset.sum_ite_eq', if_pos hx,
        ih fun e he => h e (List.mem_cons_of_mem x he), List.length_cons]

/-! ### The stable priority queue -/

/-- `e` is the entry a stable priority queue returns: its key is least, and it arrived
before every other entry with that key. -/
def FirstLeast (key : ε → ℕ) (held : List ε) (e : ε) : Prop :=
  ∃ pre post, held = pre ++ e :: post ∧ (∀ x ∈ pre, key e < key x) ∧ ∀ x ∈ post, key e ≤ key x

lemma FirstLeast.mem {key : ε → ℕ} (h : FirstLeast key held e) : e ∈ held := by
  obtain ⟨pre, post, rfl, -, -⟩ := h
  simp

lemma FirstLeast.le {key : ε → ℕ} (h : FirstLeast key held e) : ∀ x ∈ held, key e ≤ key x := by
  obtain ⟨pre, post, rfl, hpre, hpost⟩ := h
  intro x hx
  rcases List.mem_append.mp hx with hx | hx
  · exact (hpre x hx).le
  · rcases List.mem_cons.mp hx with rfl | hx
    · exact le_rfl
    · exact hpost x hx

/-- The first entry of its key. -/
lemma FirstLeast.slot_eq {key : ε → ℕ} (h : FirstLeast key held e) :
    ∃ tl, slot key held (key e) = e :: tl := by
  obtain ⟨pre, post, rfl, hpre, -⟩ := h
  have hnil : slot key pre (key e) = [] :=
    List.filter_eq_nil_iff.mpr fun x hx => by simpa using (hpre x hx).ne'
  refine ⟨slot key post (key e), ?_⟩
  rw [slot_append, hnil, List.nil_append, ← List.singleton_append, slot_append,
    slot_singleton_self, List.singleton_append]

/-- The entry that `List.argmin` finds, by induction from the back. -/
lemma firstLeast_of_argmin {key : ε → ℕ} :
    ∀ {held : List ε} {e : ε}, held.argmin key = some e → FirstLeast key held e := by
  intro held
  induction held using List.reverseRecOn with
  | nil => simp
  | append_singleton l a ih =>
      intro e h
      rw [List.argmin_concat] at h
      cases hl : l.argmin key with
      | none =>
          rw [hl, Option.some.injEq] at h
          rw [List.argmin_eq_none] at hl
          exact ⟨[], [], by rw [hl, h], by simp, by simp⟩
      | some c =>
          have hc := ih hl
          rw [hl] at h
          dsimp only at h
          split at h
          · rename_i hlt
            rw [Option.some.injEq] at h
            exact ⟨l, [], by rw [h], fun x hx => h ▸ hlt.trans_le (hc.le x hx), by simp⟩
          · rename_i hle
            rw [Option.some.injEq] at h
            obtain ⟨pre, post, rfl, hpre, hpost⟩ := hc
            refine ⟨pre, post ++ [a], by rw [h, List.append_assoc, List.cons_append], h ▸ hpre, ?_⟩
            intro x hx
            rcases List.mem_append.mp hx with hx | hx
            · exact h ▸ hpost x hx
            · rw [List.mem_singleton.mp hx, ← h]
              exact not_lt.mp hle

/-- Only one entry is the first of the least key. -/
lemma FirstLeast.argmin_eq {key : ε → ℕ} (h : FirstLeast key held e) :
    held.argmin key = some e := by
  cases hc : held.argmin key with
  | none =>
      have hmem := h.mem
      rw [List.argmin_eq_none.mp hc] at hmem
      simp at hmem
  | some c =>
      have hc' := firstLeast_of_argmin hc
      have hkey : key e = key c := le_antisymm (h.le c hc'.mem) (hc'.le e h.mem)
      obtain ⟨tl, htl⟩ := h.slot_eq
      obtain ⟨tl', htl'⟩ := hc'.slot_eq
      rw [hkey, htl'] at htl
      rw [(List.cons.inj htl).1]

/-- The first entry of the slot that holds all entries of the least key. -/
lemma firstLeast_of_slot {key : ε → ℕ} {rest : List ε} (hslot : slot place held k = e :: rest)
    (hleast : ∀ x ∈ held, key e ≤ key x) (hall : ∀ x ∈ held, key x = key e → place x = k) :
    FirstLeast key held e := by
  obtain ⟨pre, post, rfl, hpre, -, -⟩ := List.filter_eq_cons_iff.mp hslot
  refine ⟨pre, post, rfl, fun x hx => ?_, fun x hx => hleast x (by simp [hx])⟩
  have hle := hleast x (by simp [hx])
  have hne : key x ≠ key e := fun heq => hpre x hx (by simpa using hall x (by simp [hx]) heq)
  omega

/-- Serving the least key first keeps the order of a class of entries whose keys do not
decrease: the entry served is the first of its class, or of another class. -/
lemma filter_eq_of_served {key : ε → ℕ} {p : ε → Bool} (he : e ∈ held)
    (h : p e = true → FirstLeast key held e) (hnd : (held.map name).Nodup)
    (hsorted : (held.filter p).Pairwise fun a b => key a ≤ key b) :
    held.filter p = (named name held [name e]).filter p
      ++ (without name held [name e]).filter p := by
  have hnamed := named_singleton hnd he
  cases hp : p e with
  | false =>
      obtain ⟨pre, post, rfl⟩ := List.append_of_mem he
      rw [hnamed, without_middle hnd]
      simp [List.filter_append, hp]
  | true =>
      obtain ⟨pre, post, rfl, hpre, -⟩ := h hp
      rw [hnamed, without_middle hnd]
      have hnil : pre.filter p = [] := by
        refine List.filter_eq_nil_iff.mpr fun x hx hpx => ?_
        rw [List.filter_append, List.pairwise_append] at hsorted
        have hle := hsorted.2.2 x (List.mem_filter.mpr ⟨hx, hpx⟩) e (by simp [hp])
        exact absurd (hpre x hx) (by omega)
      simp [List.filter_append, hp, hnil]

end Ledger
