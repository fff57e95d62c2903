import FlowBundler.Bess.Accounts
import FlowBundler.Bess.Progress

/-!
The byte counts of the flows, under any interleaving of `AddFlow` and `RunTask`.

* `Books num fb held`: below `num`, the byte counts are those of the held packets, all of them of
  flows below `num` and of `1500` bytes; `Books.round`, `Books.dequeue`: the operations keep them.
* `Covered`: along a bulk removal every subtraction stays at or above zero and every index is in
  range.
* `Sized`: a session with `pkts_num.size()`; `Sized.Keeps`: the commands that find the calendar
  empty and leave templates of their own flows.
* `bytes_accounted`: in every run of such commands and of tasks the byte counts are right;
  `bytes_zeroed`: a command that arrives while a packet is queued.

A command sets every byte count below the new number of flows to `0`, so that the books are right
after it exactly when no packet is queued.  A round of `Enqueue` adds `1500` bytes to the count of a
flow below `num`, as the template of every flow makes packets of that length with that source; the
sum does not overflow because the pool bounds the number of held packets.  For a `Dequeue` the
packets that leave are put in front of those that stay: as long as the count of a flow is that of
both together, each subtraction finds enough (`giveBack_covered`, by induction on those that leave).
-/

namespace Bess

open Ledger FlowBundler Machine

variable {cfg : Config} {w w' : World} {fb : FlowBundler} {held : List Placed} {num : ℕ}

/-! ### Byte counts -/

/-- The bytes of the held packets of a flow. -/
def heldBytes (held : List Placed) (f : ℕ) : ℕ :=
  ((held.filter fun e => e.flowId = f).map fun e => e.packet.totalLen).sum

/-- Every held packet is of a flow below `num` and of `1500` bytes, and the byte counts below
`num` say so. -/
structure Books (num : ℕ) (fb : FlowBundler) (held : List Placed) : Prop where
  flow : ∀ e ∈ held, (fb.nodes e.node).flowId = e.flowId ∧ e.packet.totalLen = 1500
  lt_num : ∀ e ∈ held, e.flowId < num
  bytes : ∀ f < num, fb.pktsNum f = 1500 * (held.map Placed.flowId).count f

namespace Books

/-- The bytes of a flow are `1500` for each of its packets. -/
lemma heldBytes_eq (hflow : ∀ e ∈ held, e.packet.totalLen = 1500) (f : ℕ) :
    heldBytes held f = 1500 * (held.map Placed.flowId).count f := by
  have hmap : (held.filter fun e => e.flowId = f).map (fun e => e.packet.totalLen)
      = List.replicate (held.filter fun e => e.flowId = f).length 1500 :=
    List.eq_replicate_iff.mpr ⟨by rw [List.length_map], fun x hx => by
      obtain ⟨e, he, rfl⟩ := List.mem_map.mp hx
      exact hflow e (List.mem_filter.mp he).1⟩
  have hcount : (held.map Placed.flowId).count f = (held.filter fun e => e.flowId = f).length := by
    rw [List.count, List.countP_map, ← List.countP_eq_length_filter]
    exact List.countP_congr fun e _ => by simp
  rw [heldBytes, hmap, List.sum_replicate, hcount, smul_eq_mul, Nat.mul_comm]

lemma congr {fb' : FlowBundler} (h : Books num fb held) (hnodes : fb'.nodes = fb.nodes)
    (hbytes : fb'.pktsNum = fb.pktsNum) : Books num fb' held :=
  ⟨by rw [hnodes]; exact h.flow, h.lt_num, by rw [hbytes]; exact h.bytes⟩

/-- **A round of `Enqueue`** with a packet of `1500` bytes keeps the books, as long as the bytes of
its flow fit into a word. -/
lemma round {now : ℕ} {pkt : Packet} {aggreRate hashId : ℕ} (h : Books num w.fb w.held)
    (hinv : w.Inv cfg) (hsrc : pkt.src < num) (hlen : pkt.totalLen = 1500)
    (hword : w.held.length < cfg.mempoolSize →
      1500 * ((w.held.map Placed.flowId).count pkt.src + 1) < 2 ^ 64)
    (hstep : w.step cfg (.enqueue now pkt aggreRate hashId) = some w') :
    Books num w'.fb w'.held ∧ w'.fb.flowToGen = w.fb.flowToGen := by
  have hrepr := (step_enqueue hinv.repr hstep).repr
  have hroom := hrepr.blocks.length_le
  rw [World.step, Option.some.injEq] at hstep
  subst hstep
  obtain ⟨htokens, hacc⟩ := enqueueOne_accounts cfg w.fb now pkt aggreRate hashId
  refine ⟨?_, htokens⟩
  cases hnode : (w.fb.enqueueOne cfg now pkt aggreRate hashId).node with
  | none =>
      obtain ⟨hnodes, hbytes⟩ := enqueueOne_refused cfg w.fb now pkt aggreRate hashId hnode
      have hplaced : w.placedOf pkt (w.fb.enqueueOne cfg now pkt aggreRate hashId) = [] := by
        rw [World.placedOf, hnode]
      dsimp only
      rw [hplaced, List.append_nil]
      exact h.congr hnodes hbytes
  | some x =>
      obtain ⟨hbytes, node, hflow, hnodes⟩ := hacc x hnode
      obtain ⟨e, hplaced, hx, hpkt, hid⟩ : ∃ e : Placed,
          w.placedOf pkt (w.fb.enqueueOne cfg now pkt aggreRate hashId) = [e] ∧ e.node = x ∧
            e.packet = pkt ∧ e.flowId = pkt.src :=
        ⟨_, by rw [World.placedOf, hnode], rfl, rfl, rfl⟩
      dsimp only at hrepr hroom ⊢
      rw [hplaced] at hrepr hroom ⊢
      rw [List.length_append, List.length_singleton] at hroom
      have hfits := hword (by omega)
      refine ⟨?_, ?_, ?_⟩
      · -- the new node is none of the old ones
        have hnd := hrepr.blocks.nodup
        rw [List.map_append, List.nodup_append] at hnd
        intro y hy
        rcases List.mem_append.mp hy with hy | hy
        · have hne : y.node ≠ x := by
            rw [← hx]
            exact hnd.2.2 y.node (List.mem_map_of_mem hy) e.node (by simp)
          rw [hnodes, Function.update_of_ne hne]
          exact h.flow y hy
        · obtain rfl : y = e := by simpa using hy
          rw [hx, hnodes, Function.update_self, hid, hpkt]
          exact ⟨hflow, hlen⟩
      · intro y hy
        rcases List.mem_append.mp hy with hy | hy
        · exact h.lt_num y hy
        · obtain rfl : y = e := by simpa using hy
          rw [hid]
          exact hsrc
      · intro g hg
        rw [hbytes, List.map_append, List.count_append, List.map_singleton, hid]
        by_cases hgs : g = pkt.src
        · subst hgs
          rw [Function.update_self, h.bytes _ hg, hlen, List.count_singleton_self]
          omega
        · rw [Function.update_of_ne hgs, h.bytes g hg, List.count_singleton]
          simp [Ne.symm hgs]

end Books

/-! ### Tokens and generation -/

/-- The ring holds tokens of flows below `num`. -/
def TokensBelow (num : ℕ) (q : CircularQueue) : Prop := ∃ ring, q.Fifo ring ∧ ∀ t ∈ ring, t < num

/-- Generation makes packets of flows below `num`, by induction on the batch. -/
lemma rewrite_within {gen : PacketGenerator}
    (hsrc : ∀ t < num, ∀ pkt, (gen.rewriteOne t pkt).src < num)
    {batch : List (ℕ × Buffer)} : ∀ {q : CircularQueue} {ring : List ℕ}, q.Fifo ring →
      (∀ t ∈ ring, t < num) → batch.length ≤ ring.length →
      (∀ p ∈ (gen.rewriteUsingSingleTemplate batch q).1,
        p.src < num ∧ p.totalLen = gen.generatePktSize) ∧
      TokensBelow num (gen.rewriteUsingSingleTemplate batch q).2 := by
  induction batch with
  | nil =>
      intro q ring h hring _
      exact ⟨by simp [PacketGenerator.rewriteUsingSingleTemplate], ring, h, hring⟩
  | cons pkt batch ih =>
      intro q ring h hring hlen
      cases ring with
      | nil => simp at hlen
      | cons t ring =>
          obtain ⟨hpop, hfifo, -⟩ := h.pop
          obtain ⟨hall, hrest⟩ := ih hfifo (fun x hx => hring x (List.mem_cons_of_mem t hx))
            (by simpa using hlen)
          rw [PacketGenerator.rewriteUsingSingleTemplate]
          dsimp only
          rw [hpop]
          refine ⟨fun p hp => ?_, hrest⟩
          rcases List.mem_cons.mp hp with rfl | hp
          · exact ⟨hsrc t (hring t List.mem_cons_self) pkt, rfl⟩
          · exact hall p hp

/-! ### Giving back -/

/-- Along a bulk removal every index is below `size` and every subtraction stays at or above
zero. -/
def Covered (maxBytes size : ℕ) : (ℕ → ℕ) × CircularQueue → List (ℕ × ℕ) → Prop
  | _, [] => True
  | s, e :: es => e.1 < size ∧ e.2 ≤ s.1 e.1 ∧ Covered maxBytes size (giveBack maxBytes s e) es

/-- Giving back a packet of `1500` bytes. -/
lemma giveBack_of_eq {maxBytes f c : ℕ} {s : (ℕ → ℕ) × CircularQueue}
    (hf : s.1 f = 1500 * (c + 1)) (hc : 1500 * (c + 1) < 2 ^ 64) :
    (giveBack maxBytes s (f, 1500)).1 = Function.update s.1 f (1500 * c) := by
  rw [giveBack]
  dsimp only
  rw [show (s.1 f + 2 ^ 64 - 1500) % 2 ^ 64 = 1500 * c by omega]

lemma TokensBelow.giveBack {f : ℕ} {s : (ℕ → ℕ) × CircularQueue} (h : TokensBelow num s.2)
    (maxBytes len : ℕ) (hf : f < num) :
    TokensBelow num (giveBack maxBytes s (f, len)).2 := by
  obtain ⟨ring, hfifo, hring⟩ := h
  rw [Bess.giveBack]
  dsimp only
  split
  · obtain ⟨ring', hfifo', hmem⟩ := hfifo.push_within f
    refine ⟨ring', hfifo', fun t ht => ?_⟩
    rcases hmem t ht with ht | rfl
    · exact hring t ht
    · exact hf
  · exact ⟨ring, hfifo, hring⟩

/-- Packets of `1500` bytes that are in the books can be given back, by induction on their list;
`rest` are the flows of the packets that stay. -/
lemma giveBack_covered (maxBytes : ℕ) (rest : List ℕ) {es : List ℕ} :
    ∀ {s : (ℕ → ℕ) × CircularQueue}, TokensBelow num s.2 → (∀ f ∈ es, f < num) →
      1500 * (es ++ rest).length < 2 ^ 64 → (∀ f < num, s.1 f = 1500 * (es ++ rest).count f) →
      Covered maxBytes num s (es.map fun f => (f, 1500)) ∧
        TokensBelow num ((es.map fun f => (f, 1500)).foldl (giveBack maxBytes) s).2 ∧
        ∀ f < num, ((es.map fun f => (f, 1500)).foldl (giveBack maxBytes) s).1 f
          = 1500 * rest.count f := by
  induction es with
  | nil => exact fun htokens _ _ hbytes => ⟨trivial, htokens, hbytes⟩
  | cons f es ih =>
      intro s htokens hmem hlen hbytes
      have hf := hmem f List.mem_cons_self
      have hfb := hbytes f hf
      rw [List.cons_append] at hlen
      rw [List.cons_append, List.count_cons_self] at hfb
      have hle : (es ++ rest).count f ≤ (es ++ rest).length := List.count_le_length
      rw [List.length_cons] at hlen
      have hback : (giveBack maxBytes s (f, 1500)).1
          = Function.update s.1 f (1500 * (es ++ rest).count f) :=
        giveBack_of_eq hfb (by omega)
      have hbytes' : ∀ g < num, (giveBack maxBytes s (f, 1500)).1 g
          = 1500 * (es ++ rest).count g := by
        intro g hg
        rw [hback]
        by_cases hgf : g = f
        · rw [hgf, Function.update_self]
        · rw [Function.update_of_ne hgf, hbytes g hg, List.cons_append,
            List.count_cons_of_ne (Ne.symm hgf)]
      obtain ⟨hcovered, htokens', hrest⟩ := ih (htokens.giveBack maxBytes 1500 hf)
        (fun g hg => hmem g (List.mem_cons_of_mem f hg)) (by omega) hbytes'
      rw [List.map_cons, List.foldl_cons]
      refine ⟨⟨hf, ?_, hcovered⟩, htokens', hrest⟩
      dsimp only
      omega

/-- **What a `Dequeue` gives back**: `1500` bytes for each packet that it takes out. -/
lemma Books.gives_back {now garbage : ℕ} {r : DequeueResult} (h : Books num w.fb w.held)
    (hinv : w.Inv cfg) (hrun : w.fb.dequeue cfg now garbage = some r) :
    (World.takenFrom w.held r.taken).map w.fb.account
        = ((World.takenFrom w.held r.taken).map Placed.flowId).map (fun f => (f, 1500)) ∧
      (r.fb.pktsNum, r.fb.flowToGen)
        = (((World.takenFrom w.held r.taken).map Placed.flowId).map fun f => (f, 1500)).foldl
            (giveBack cfg.maxBytesPerFlow) (w.fb.pktsNum, w.fb.flowToGen) ∧
      (w.held.map Placed.flowId).Perm ((World.takenFrom w.held r.taken).map Placed.flowId
        ++ (without Placed.node w.held r.taken).map Placed.flowId) ∧
      ∀ e ∈ without Placed.node w.held r.taken,
        (r.fb.nodes e.node).flowId = e.flowId ∧ e.packet.totalLen = 1500 := by
  obtain ⟨hnodes, haccount⟩ := dequeue_accounts hinv.repr hrun
  have hperm := perm_takenFrom hinv.repr hrun
  have hmap := hperm.map Placed.flowId
  rw [List.map_append] at hmap
  have hflow : (World.takenFrom w.held r.taken).map w.fb.account
      = ((World.takenFrom w.held r.taken).map Placed.flowId).map fun f => (f, 1500) := by
    rw [List.map_map]
    refine List.map_congr_left fun e he => ?_
    have hmem : e ∈ w.held := hperm.mem_iff.mpr (List.mem_append_left _ he)
    rw [FlowBundler.account, (h.flow e hmem).1, hinv.repr.buckets.packet_eq e hmem,
      (h.flow e hmem).2]
    rfl
  refine ⟨hflow, hflow ▸ haccount, hmap, fun e he => ?_⟩
  rw [hnodes]
  exact h.flow e (mem_without.mp he).1

/-- **A `Dequeue`** keeps the books, and along it no subtraction wraps and no index is out of
range. -/
lemma Books.dequeue {now garbage : ℕ} {r : DequeueResult} (h : Books num w.fb w.held)
    (htokens : TokensBelow num w.fb.flowToGen) (hpool : 1500 * cfg.mempoolSize < 2 ^ 64)
    (hinv : w.Inv cfg) (hrun : w.fb.dequeue cfg now garbage = some r) :
    Books num r.fb (without Placed.node w.held r.taken) ∧ TokensBelow num r.fb.flowToGen ∧
      Covered cfg.maxBytesPerFlow num (w.fb.pktsNum, w.fb.flowToGen)
        ((World.takenFrom w.held r.taken).map w.fb.account) := by
  obtain ⟨hflow, haccount, hmap, hleft⟩ := h.gives_back hinv hrun
  have hheld := hinv.repr.blocks.length_le
  have hlen := hmap.length_eq
  rw [List.length_map] at hlen
  have hlt : ∀ f ∈ (World.takenFrom w.held r.taken).map Placed.flowId, f < num := by
    intro f hf
    obtain ⟨e, he, rfl⟩ := List.mem_map.mp (hmap.mem_iff.mpr (List.mem_append_left _ hf))
    exact h.lt_num e he
  rw [hflow]
  obtain ⟨hcovered, htokens', hbytes⟩ := giveBack_covered cfg.maxBytesPerFlow
    ((without Placed.node w.held r.taken).map Placed.flowId)
    (s := (w.fb.pktsNum, w.fb.flowToGen)) htokens hlt (by rw [← hlen]; omega)
    fun f hf => by
      rw [← hmap.count_eq]
      exact h.bytes f hf
  rw [← haccount] at htokens' hbytes
  exact ⟨⟨hleft, fun e he => h.lt_num e (mem_without.mp he).1, hbytes⟩, htokens', hcovered⟩

/-! ### Sessions -/

/-- A session and `pkts_num.size()`. -/
structure Sized where
  session : Session
  size : ℕ

namespace Sized

/-- The command sets the size; the task leaves it alone. -/
def step (cfg : TaskConfig) (s : Sized) (op : TaskOp) : Option Sized :=
  (s.session.step cfg op).map fun session =>
    { session := session
      size := match op with
        | .addFlow arg _ => arg.num
        | .runTask _ => s.size }

/-- The session after `Init`: no flows, no tokens and no packets. -/
def Initial (cfg : TaskConfig) (s : Sized) : Prop :=
  ∃ now uuid nodes pktsNum memory flowInfo gen,
    s = { session :=
            { world := .start cfg.toConfig now uuid nodes pktsNum (Session.flowToGenInit memory)
                flowInfo
              pktgen := gen }
          size := 0 }

end Sized

/-- The templates that the constructor of the generator builds carry sources of the flows of the
command. -/
def AddArg.TemplatesOk (cfg : TaskConfig) (arg : AddArg) (env : AddEnv) : Prop :=
  ∀ t < arg.num, ∀ pkt,
    ((PacketGenerator.new env.sums cfg.generateBurst cfg.templates arg.num arg.flowsPerDst env.pkt
      env.randDst).rewriteOne t pkt).src < arg.num

/-- Every flow with held packets has a byte count, and it is that of these packets. -/
def World.BytesOk (w : World) (size : ℕ) : Prop :=
  ∀ e ∈ w.held, e.flowId < size ∧ w.fb.pktsNum e.flowId = heldBytes w.held e.flowId

lemma Books.bytesOk (h : Books num w.fb w.held) : w.BytesOk num := by
  intro e he
  refine ⟨h.lt_num e he, ?_⟩
  rw [h.bytes _ (h.lt_num e he), heldBytes_eq fun x hx => (h.flow x hx).2]

/-- A command leaves templates of its own flows. -/
def TaskOp.TemplatesOk (cfg : TaskConfig) : TaskOp → Prop
  | .addFlow arg env => arg.TemplatesOk cfg env
  | .runTask _ => True

namespace Sized

/-- A command arrives while no packet is queued, and its templates carry its own flows. -/
def Keeps (cfg : TaskConfig) (s : Sized) : TaskOp → Prop
  | .addFlow arg env => s.session.world.fb.nPacketsTotal = 0 ∧ arg.TemplatesOk cfg env
  | .runTask _ => True

/-- The byte counts are right, also when the next task comes to its `Dequeue`, and that removal
neither wraps a count nor leaves the range of `pkts_num`. -/
structure Accounted (cfg : TaskConfig) (s : Sized) : Prop where
  bytes : s.session.world.BytesOk s.size
  removal : ∀ env w rounds w₁ r, s.session.generated env = some (w, rounds) →
    exec (World.step cfg.toConfig) w rounds = some w₁ →
    w₁.fb.dequeue cfg.toConfig env.dequeueNow env.garbage = some r →
    w₁.BytesOk s.size ∧ Covered cfg.maxBytesPerFlow s.size (w₁.fb.pktsNum, w₁.fb.flowToGen)
      ((World.takenFrom w₁.held r.taken).map w₁.fb.account)

/-- The books of a session are right, and its tokens and templates are of flows in range. -/
structure Inv (cfg : TaskConfig) (s : Sized) : Prop where
  world : s.session.world.Inv cfg.toConfig
  books : Books s.size s.session.world.fb s.session.world.held
  tokens : TokensBelow s.size s.session.world.fb.flowToGen
  src : ∀ t < s.size, ∀ pkt, (s.session.pktgen.rewriteOne t pkt).src < s.size
  pktSize : 0 < s.size → s.session.pktgen.generatePktSize = 1500

variable {cfg : TaskConfig} {s s' : Sized} {op : TaskOp} {env : TaskEnv}

lemma Inv.initial (h : s.Initial cfg) : s.Inv cfg := by
  obtain ⟨now, uuid, nodes, pktsNum, memory, flowInfo, gen, rfl⟩ := h
  have hnil : (Session.flowToGenInit memory).Fifo [] :=
    ⟨⟨21, rfl⟩, .nil _ (show 0 < 2 ^ 21 by norm_num)⟩
  exact ⟨.start _ _ _ _ _ _ _, ⟨by simp [World.start], by simp [World.start], by simp⟩,
    ⟨[], hnil, by simp⟩, by simp, by simp⟩

/-- A command that finds the calendar empty starts new books. -/
lemma Inv.addFlow {arg : AddArg} {aenv : AddEnv} (h : s.Inv cfg)
    (hok : s.Keeps cfg (.addFlow arg aenv)) :
    ({ session := s.session.addFlow cfg arg aenv, size := arg.num } : Sized).Inv cfg := by
  obtain ⟨htotal, htemplates⟩ := hok
  have hnil : s.session.world.held = [] := by
    rw [h.world.repr.tally.total_eq] at htotal
    exact List.length_eq_zero_iff.mp htotal
  obtain ⟨ring, hfifo, -⟩ := h.tokens
  obtain ⟨ring', hfifo', hring'⟩ := hfifo.reset.pushAll_within (tokenList arg.num cfg.tokens)
  refine ⟨h.world.congr_flows _ _ _, ⟨?_, ?_, ?_⟩, ⟨ring', hfifo', fun t ht => ?_⟩, htemplates,
    fun _ => rfl⟩
  · rw [Session.addFlow, hnil]
    simp
  · rw [Session.addFlow, hnil]
    simp
  · intro f hf
    rw [Session.addFlow, hnil]
    simp [FlowBundler.addFlow, hf]
  · rcases hring' t ht with ht | ht
    · simp at ht
    · simp only [tokenList, List.mem_flatten, List.mem_replicate] at ht
      obtain ⟨l, ⟨-, rfl⟩, ht⟩ := ht
      exact List.mem_range.mp ht

/-- The rounds of a task keep the books. -/
lemma Inv.rounds {w w₁ : World} {rounds : List Op} (h : s.Inv cfg)
    (hpool : 1500 * cfg.mempoolSize < 2 ^ 64) (hgen : s.session.generated env = some (w, rounds))
    (hexec : exec (World.step cfg.toConfig) w rounds = some w₁) :
    w₁.Inv cfg.toConfig ∧ Books s.size w₁.fb w₁.held ∧ TokensBelow s.size w₁.fb.flowToGen := by
  rcases Session.generated_cases hgen with ⟨rfl, rfl⟩ | ⟨pkts, batch, -, hbatch, rfl, rfl⟩
  · rw [exec, Option.some.injEq] at hexec
    exact hexec ▸ ⟨h.world, h.books, h.tokens⟩
  obtain ⟨ring, hfifo, hring⟩ := h.tokens
  have hle : batch.length ≤ ring.length := by
    rw [hbatch, List.length_map, List.length_range, PacketGenerator.generateNum_eq _ hfifo]
    exact min_le_left _ _
  obtain ⟨hall, htokens⟩ := rewrite_within h.src hfifo hring hle
  have hbooks₀ : Books s.size (s.session.world.setFlowToGen
      (s.session.pktgen.rewriteUsingSingleTemplate batch s.session.world.fb.flowToGen).2).fb
      s.session.world.held := h.books.congr rfl rfl
  refine exec_keeps (I := fun w => w.Inv cfg.toConfig ∧ Books s.size w.fb w.held ∧
    TokensBelow s.size w.fb.flowToGen) (fun v v' op hop hv hstep => ?_)
    ⟨h.world.congr_flows _ _ _, hbooks₀, htokens⟩ hexec
  obtain ⟨p, hp, rfl⟩ := List.mem_map.mp hop
  obtain ⟨hsrc, hlen⟩ := hall p.1 (List.fst_mem_of_mem_zipIdx hp)
  have hcount : (v.held.map Placed.flowId).count p.1.src ≤ v.held.length := by
    rw [← List.length_map Placed.flowId]
    exact List.count_le_length
  obtain ⟨hbooks, hsame⟩ := hv.2.1.round hv.1 hsrc
    (hlen.trans (h.pktSize (Nat.zero_lt_of_lt hsrc))) (fun _ => by omega) hstep
  exact ⟨hv.1.step hstep, hbooks, hsame ▸ hv.2.2⟩

/-- **One task** keeps the books. -/
lemma Inv.runTask {session : Session} (h : s.Inv cfg) (hpool : 1500 * cfg.mempoolSize < 2 ^ 64)
    (hran : Session.Ran cfg.toConfig s.session env session) :
    ({ session := session, size := s.size } : Sized).Inv cfg := by
  cases hran with
  | blocked hsame hcause => exact hsame ▸ h
  | served w rounds w₁ w₂ hidle hgen hexec hstep hsession =>
      obtain ⟨hinv, hbooks, htokens⟩ := h.rounds hpool hgen hexec
      have hinv' := hinv.step hstep
      obtain ⟨r, hrun, rfl⟩ := step_dequeue hstep
      obtain ⟨hbooks', htokens', -⟩ := hbooks.dequeue htokens hpool hinv hrun
      rw [hsession]
      exact ⟨hinv', hbooks', htokens', h.src, h.pktSize⟩

lemma Inv.step (h : s.Inv cfg) (hpool : 1500 * cfg.mempoolSize < 2 ^ 64) (hok : s.Keeps cfg op)
    (hstep : s.step cfg op = some s') : s'.Inv cfg := by
  rw [Sized.step.eq_def, Option.map_eq_some_iff] at hstep
  obtain ⟨session, hsession, rfl⟩ := hstep
  cases op with
  | addFlow arg aenv =>
      rw [Session.step, Option.some.injEq] at hsession
      exact hsession ▸ h.addFlow hok
  | runTask env =>
      rw [Session.step, Option.map_eq_some_iff] at hsession
      obtain ⟨⟨session', r⟩, hrun, rfl⟩ := hsession
      exact h.runTask hpool (Session.runTask_ran hrun)

/-- A command that finds a packet queued makes its byte count wrong. -/
lemma Inv.bytesOk_addFlow_iff (h : s.Inv cfg) (arg : AddArg) (aenv : AddEnv) :
    (s.session.addFlow cfg arg aenv).world.BytesOk arg.num ↔
      s.session.world.fb.nPacketsTotal = 0 := by
  rw [h.world.repr.tally.total_eq, List.length_eq_zero_iff]
  constructor
  · intro hbytes
    refine List.eq_nil_iff_forall_not_mem.mpr fun e he => ?_
    obtain ⟨hlt, heq⟩ := hbytes e he
    have hheld : heldBytes s.session.world.held e.flowId = 0 := by
      rw [← show _ = heldBytes s.session.world.held e.flowId from heq]
      simp [Session.addFlow, FlowBundler.addFlow, hlt]
    rw [Books.heldBytes_eq (fun x hx => (h.books.flow x hx).2)] at hheld
    have hpos := List.count_pos_iff.mpr (List.mem_map_of_mem (f := Placed.flowId) he)
    omega
  · intro hnil e he
    rw [Session.addFlow, hnil] at he
    simp at he

end Sized

/-- **Byte counts survive reconfiguration** in every interleaving of tasks and of commands that
find the calendar empty and leave templates of their own flows: `pkts_num` is in range and right
for every flow with queued packets, and the removal of the next task neither wraps a count nor
leaves its range.  From such a state a command keeps the counts right exactly when it finds the
calendar empty. -/
theorem bytes_accounted {cfg : TaskConfig} {s : Sized} (hpool : cfg.mempoolSize < 2 ^ 32)
    (hs : Machine.Reach (Sized.step cfg) (Sized.Initial cfg) (Sized.Keeps cfg) s) :
    s.Accounted cfg ∧ ∀ arg env, (s.session.addFlow cfg arg env).world.BytesOk arg.num ↔
      s.session.world.fb.nPacketsTotal = 0 := by
  have hpool' : 1500 * cfg.mempoolSize < 2 ^ 64 := by omega
  have hinv : s.Inv cfg := hs.invariant (fun s h => .initial h)
    fun s s' op _ ih hok hstep => ih.step hpool' hok hstep
  refine ⟨⟨hinv.books.bytesOk, ?_⟩, hinv.bytesOk_addFlow_iff⟩
  intro env w rounds w₁ r hgen hexec hrun
  obtain ⟨hworld, hbooks, htokens⟩ := hinv.rounds hpool' hgen hexec
  exact ⟨hbooks.bytesOk, (hbooks.dequeue htokens hpool' hworld hrun).2.2⟩

/-- The templates are right for a template string with an IPv4 header, whole groups of flows and a
packet for the constructor. -/
lemma AddArg.templatesOk_of_headersOk {cfg : TaskConfig} {arg : AddArg} {env : AddEnv}
    (hheaders : HeadersOk cfg.templates) (hgroups : arg.flowsPerDst ∣ arg.num)
    (hpkt : env.pkt.isSome = true) (hnum : arg.num ≤ 2 ^ 32) : arg.TemplatesOk cfg env := by
  intro t ht pkt
  obtain ⟨buf, hbuf⟩ := Option.isSome_iff_exists.mp hpkt
  rw [hbuf]
  obtain ⟨hlen, hbytes⟩ := new_src hheaders hgroups env.sums cfg.generateBurst buf env.randDst ht
  rw [rewriteOne_src (by omega) hlen hbytes pkt]
  exact ht

/-- The session of a task configuration after `Init` at clock `0`. -/
def sizedAt (cfg : TaskConfig) : Sized :=
  { session :=
      { world := .start cfg.toConfig 0 7 (startAt cfg.toConfig 0).fb.nodes (fun _ => 0)
          (Session.flowToGenInit fun _ => 0) fun _ => { lastStamp := 0, rate := 0 }
        pktgen := { generateBurst := 0, generatePktSize := 0
                    templates := fun _ => { size := 0, bytes := fun _ => 0 } } }
    size := 0 }

lemma initial_sizedAt (cfg : TaskConfig) : Sized.Initial cfg (sizedAt cfg) :=
  ⟨0, 7, _, _, _, _, _, rfl⟩

/-- The sample session after one command. -/
def sizedAfter (cfg : TaskConfig) (rates : List ℕ) : Sized :=
  { session := (sizedAt cfg).session.addFlow cfg (argOf rates) addEnv, size := rates.length }

/-- The command of the sample session keeps the byte counts. -/
lemma reach_sizedAfter {ok : Sized → TaskOp → Prop}
    (hok : ok (sizedAt sampleTask) (.addFlow (argOf [100000000]) addEnv)) :
    Machine.Reach (Sized.step sampleTask) (Sized.Initial sampleTask) ok
      (sizedAfter sampleTask [100000000]) :=
  .step (.start (initial_sizedAt sampleTask)) hok rfl

lemma templatesOk_sample : (argOf [100000000]).TemplatesOk sampleTask addEnv :=
  AddArg.templatesOk_of_headersOk (by decide) (by decide) rfl (by decide)

/-- A run of tasks after the command of the sample session. -/
lemma exists_sized (ok : Sized → TaskOp → Prop)
    (hok : ok (sizedAt sampleTask) (.addFlow (argOf [100000000]) addEnv))
    (htask : ∀ s env, ok s (.runTask env)) (ops : List TaskOp) (p : Sized → Prop) [DecidablePred p]
    (h : (Machine.run (Sized.step sampleTask) (fun _ op => op.isTask = true)
      (sizedAfter sampleTask [100000000]) ops).any (fun s => p s) = true) :
    ∃ s, Machine.Reach (Sized.step sampleTask) (Sized.Initial sampleTask) ok s ∧ p s := by
  obtain ⟨s, hs, hp⟩ := @Machine.exists_reach _ _ (Sized.step sampleTask)
    (fun s => s = sizedAfter sampleTask [100000000]) _ _ _ rfl ops p _ h
  refine ⟨s, hs.invariant (fun s hs => hs ▸ reach_sizedAfter hok) ?_, hp⟩
  intro s s' op _ ih htok hstep
  cases op with
  | addFlow arg env => exact absurd htok (by simp [TaskOp.isTask])
  | runTask env => exact .step ih (htask s env) hstep

/-- One packet queued and one sent: its flow has `1500` bytes. -/
theorem bytes_accounted_run :
    ∃ s : Sized, Machine.Reach (Sized.step sampleTask) (Sized.Initial sampleTask)
        (Sized.Keeps sampleTask) s ∧
      s.session.world.sent.length = 1 ∧ heldBytes s.session.world.held 0 = 1500 ∧
      s.Accounted sampleTask := by
  obtain ⟨s, hs, hsent, hheld⟩ := exists_sized (Sized.Keeps sampleTask)
    ⟨rfl, templatesOk_sample⟩ (fun _ _ => trivial)
    [.runTask (taskAt 0 true), .runTask (taskAt 1024 true)]
    (fun s => s.session.world.sent.length = 1 ∧ heldBytes s.session.world.held 0 = 1500)
    (by decide +kernel)
  exact ⟨s, hs, hsent, hheld, (bytes_accounted (by decide) hs).1⟩

/-- A command that arrives while a packet of `1500` bytes is queued sets its byte count to `0`. -/
theorem bytes_zeroed :
    ¬ ∀ (cfg : TaskConfig) (s : Sized), cfg.mempoolSize < 2 ^ 32 →
      Machine.Reach (Sized.step cfg) (Sized.Initial cfg) (fun _ op => op.TemplatesOk cfg) s →
      s.Accounted cfg := by
  intro hall
  obtain ⟨s, hs, e, he, hflow, hheld⟩ := exists_sized
    (fun _ op => op.TemplatesOk sampleTask) templatesOk_sample (fun _ _ => trivial)
    [.runTask (taskAt 0 true)]
    (fun s => ∃ e ∈ s.session.world.held, e.flowId = 0 ∧
      heldBytes s.session.world.held e.flowId = 1500) (by decide +kernel)
  set s' : Sized :=
    { session := s.session.addFlow sampleTask (argOf [100000000]) addEnv, size := 1 }
  have hagain : Machine.Reach (Sized.step sampleTask) (Sized.Initial sampleTask)
      (fun _ op => op.TemplatesOk sampleTask) s' :=
    .step hs (show TaskOp.TemplatesOk sampleTask (.addFlow (argOf [100000000]) addEnv) from
      templatesOk_sample) rfl
  have hcount : s'.session.world.fb.pktsNum e.flowId = heldBytes s.session.world.held e.flowId :=
    ((hall sampleTask s' (by decide) hagain).bytes e he).2
  have hzero : s'.session.world.fb.pktsNum 0 = 0 := rfl
  rw [hheld, hflow, hzero] at hcount
  exact absurd hcount (by decide)

end Bess
