import FlowBundler.Bess.Bytes

/-!
Generation tokens: the right of a flow to have `MAX_BYTES_PER_FLOW / 1500` packets on the way.

* `Rights num K fb held ring batch`: the tokens in the ring, the flows of a batch that is being
  enqueued and the flows of the held packets are together the tokens that `AddFlow` gave out,
  and the byte counts are those of the held packets.
* `Rights.round`, `Rights.rounds`: an `Enqueue` moves rights from the batch to the calendar as
  long as the pool has nodes.
* `giveBack_all`, `Rights.dequeue`: a `Dequeue` gives every right back to the ring.
* `Session.TokensOk`, `tokens_conserved`: so no right is lost in a run whose batches find
  enough nodes in the pool.
* `token_lost`: a run in which a packet is dropped for lack of a node, with its token.

A right is a token in the ring, or a packet of its flow on the way.  A generated packet spends a
token, and a packet that leaves gives it back when its flow is below its limit of bytes; it always
is, since the bytes of its packets on the way are at most those of its tokens.  The permutation in
`Rights` is kept by a round, by a batch and by a `Dequeue`; a dropped packet is the only way to lose
a right, which is why the batches are asked to find nodes.
-/

namespace Bess

open Ledger FlowBundler Machine

/-! ### The tokens of all flows -/

section TokenList

variable {num K f : ℕ}

lemma mem_tokenList : f ∈ tokenList num K ↔ f < num ∧ 0 < K := by
  simp only [tokenList, List.mem_flatten, List.mem_replicate]
  constructor
  · rintro ⟨l, ⟨hK, rfl⟩, hf⟩
    exact ⟨List.mem_range.mp hf, Nat.pos_of_ne_zero hK⟩
  · rintro ⟨hf, hK⟩
    exact ⟨_, ⟨hK.ne', rfl⟩, List.mem_range.mpr hf⟩

lemma length_tokenList : (tokenList num K).length = K * num := by
  simp [tokenList, List.length_flatten]

lemma count_tokenList (hf : f < num) : (tokenList num K).count f = K := by
  have hone : (List.range num).count f = 1 :=
    List.count_eq_one_of_mem List.nodup_range (List.mem_range.mpr hf)
  simp [tokenList, List.count_flatten, hone]

end TokenList

/-! ### Rights -/

/-- Every right to send is in the ring, in the batch or in the calendar. -/
structure Rights (num K : ℕ) (fb : FlowBundler) (held : List Placed) (ring batch : List ℕ) :
    Prop where
  fifo : fb.flowToGen.Fifo ring
  size : fb.flowToGen.size = 2 ^ 21
  flow : ∀ e ∈ held, (fb.nodes e.node).flowId = e.flowId ∧ e.packet.totalLen = 1500
  bytes : ∀ f < num, fb.pktsNum f = 1500 * (held.map Placed.flowId).count f
  perm : (ring ++ batch ++ held.map Placed.flowId).Perm (tokenList num K)

namespace Rights

variable {num K : ℕ} {cfg : Config} {w w' : World} {fb : FlowBundler} {held : List Placed}
  {ring batch : List ℕ} {f : ℕ}

lemma lt_num (h : Rights num K fb held ring batch)
    (hf : f ∈ ring ++ batch ++ held.map Placed.flowId) : f < num :=
  (mem_tokenList.mp (h.perm.mem_iff.mp hf)).1

lemma count_eq (h : Rights num K fb held ring batch) (hf : f < num) :
    ring.count f + batch.count f + (held.map Placed.flowId).count f = K := by
  have hcount := h.perm.count_eq f
  rwa [count_tokenList hf, List.count_append, List.count_append] at hcount

lemma length_eq (h : Rights num K fb held ring batch) :
    ring.length + batch.length + held.length = K * num := by
  have hlen := h.perm.length_eq
  rwa [length_tokenList, List.length_append, List.length_append, List.length_map] at hlen

lemma books (h : Rights num K fb held ring batch) : Books num fb held :=
  ⟨h.flow, fun _ he => h.lt_num (List.mem_append_right _ (List.mem_map_of_mem he)), h.bytes⟩

/-- A flow has fewer tokens than the ring has cells. -/
lemma bound (hcap : K * num < 2 ^ 21) (hf : f < num) : 1500 * K < 2 ^ 64 := by
  have hle : K ≤ K * num := Nat.le_mul_of_pos_right K (by omega)
  omega

/-- **A round of `Enqueue`** on a pool with a free node takes the packet of the first right. -/
lemma round {now : ℕ} {pkt : Packet} {aggreRate hashId : ℕ}
    (h : Rights num K w.fb w.held ring (pkt.src :: batch)) (hcap : K * num < 2 ^ 21)
    (hinv : w.Inv cfg) (hlen : pkt.totalLen = 1500) (hroom : w.held.length < cfg.mempoolSize)
    (hstep : w.step cfg (.enqueue now pkt aggreRate hashId) = some w') :
    Rights num K w'.fb w'.held ring batch ∧ w'.held.length = w.held.length + 1 := by
  have hsrc : pkt.src < num := h.lt_num (by simp)
  have hcount := h.count_eq hsrc
  rw [List.count_cons_self] at hcount
  have hbound := bound hcap hsrc
  rcases (step_enqueue hinv.repr hstep).outcome with ⟨hfull, -⟩ | ⟨-, -, e, hplaces, hheld⟩
  · omega
  obtain ⟨hbooks, htokens⟩ := h.books.round hinv hsrc hlen (fun _ => by omega) hstep
  refine ⟨⟨by rw [htokens]; exact h.fifo, by rw [htokens]; exact h.size, hbooks.flow,
    hbooks.bytes, ?_⟩, by simp [hheld]⟩
  refine List.Perm.trans ?_ h.perm
  rw [hheld, List.map_append, List.map_singleton, hplaces.flowId]
  simp only [List.append_assoc]
  refine List.Perm.append_left ring ?_
  rw [← List.append_assoc, List.cons_append]
  exact List.perm_append_singleton _ _

/-- **The rounds of `Enqueue`** on a batch, by induction on the batch. -/
lemma rounds (env : TaskEnv) (hcap : K * num < 2 ^ 21) {ps : List (Packet × ℕ)} :
    ∀ {w w' : World}, Rights num K w.fb w.held ring (ps.map fun p => p.1.src) → w.Inv cfg →
      (∀ p ∈ ps, p.1.totalLen = 1500) → w.held.length + ps.length ≤ cfg.mempoolSize →
      exec (World.step cfg) w
        (ps.map fun p => .enqueue (env.now p.2) p.1 (env.get p.2).1 (env.get p.2).2) = some w' →
      Rights num K w'.fb w'.held ring [] ∧ w'.Inv cfg := by
  induction ps with
  | nil =>
      intro w w' h hinv _ _ hexec
      rw [List.map_nil, exec, Option.some.injEq] at hexec
      exact hexec ▸ ⟨h, hinv⟩
  | cons p ps ih =>
      intro w w' h hinv hlen hroom hexec
      rw [List.length_cons] at hroom
      obtain ⟨w₁, hstep, hrest⟩ := Option.bind_eq_some_iff.mp hexec
      obtain ⟨hround, hheld⟩ := round h hcap hinv (hlen p (by simp)) (by omega) hstep
      exact ih hround (hinv.step hstep) (fun q hq => hlen q (List.mem_cons_of_mem p hq))
        (by rw [hheld]; omega) hrest

/-- **Generation** moves the oldest rights from the ring to the batch. -/
lemma generate {gen : PacketGenerator} {pkts : List (ℕ × Buffer)} (h : Rights num K fb held ring [])
    (hle : pkts.length ≤ ring.length) (hsrc : ∀ t ∈ ring, ∀ pkt, (gen.rewriteOne t pkt).src = t) :
    Rights num K { fb with flowToGen := (gen.rewriteUsingSingleTemplate pkts fb.flowToGen).2 } held
      (ring.drop pkts.length)
      ((gen.rewriteUsingSingleTemplate pkts fb.flowToGen).1.zipIdx.map fun p => p.1.src) := by
  obtain ⟨hmap, -, hfifo, hsize⟩ := rewrite_src h.fifo hle hsrc
  have hflows : ((gen.rewriteUsingSingleTemplate pkts fb.flowToGen).1.zipIdx.map
      fun p => p.1.src) = ring.take pkts.length := by
    rw [← hmap, ← List.zipIdx_map_fst 0 (gen.rewriteUsingSingleTemplate pkts fb.flowToGen).1,
      List.map_map, List.zipIdx_map_fst]
    rfl
  rw [hflows]
  refine ⟨hfifo, hsize.trans h.size, h.flow, h.bytes, ?_⟩
  refine List.Perm.trans (List.Perm.append_right _ ?_) h.perm
  rw [List.append_nil]
  exact List.perm_append_comm.trans (by rw [List.take_append_drop])

end Rights

/-! ### Giving rights back -/

/-- Packets of `1500` bytes taken out give back their tokens, by induction on their list; `rest`
are the flows of the packets that stay. -/
lemma giveBack_all {num K maxBytes : ℕ} (hmax : 1500 * K ≤ maxBytes)
    (hK : 0 < num → 1500 * K < 2 ^ 64)
    {rest : List ℕ} {es : List ℕ} :
    ∀ {s : (ℕ → ℕ) × CircularQueue} {ring : List ℕ}, s.2.Fifo ring →
      ring.length + es.length < s.2.size → (∀ f ∈ es, f < num) →
      (∀ f < num, s.1 f = 1500 * (es ++ rest).count f) → (∀ f < num, (es ++ rest).count f ≤ K) →
      ((es.map fun f => (f, 1500)).foldl (giveBack maxBytes) s).2.Fifo (ring ++ es) ∧
        ((es.map fun f => (f, 1500)).foldl (giveBack maxBytes) s).2.size = s.2.size ∧
        ∀ f < num, ((es.map fun f => (f, 1500)).foldl (giveBack maxBytes) s).1 f
          = 1500 * rest.count f := by
  induction es with
  | nil =>
      intro s ring h _ _ hbytes _
      rw [List.append_nil]
      exact ⟨h, rfl, hbytes⟩
  | cons f es ih =>
      intro s ring h hlen hmem hbytes hle
      rw [List.length_cons] at hlen
      have hf := hmem f (by simp)
      have hword := hK (by omega)
      have hfb := hbytes f hf
      have hfK := hle f hf
      rw [List.cons_append, List.count_cons_self] at hfb hfK
      have hleft : (s.1 f + 2 ^ 64 - 1500) % 2 ^ 64 = 1500 * (es ++ rest).count f := by omega
      -- the flow is below its limit again
      have hpush : giveBack maxBytes s (f, 1500)
          = (Function.update s.1 f (1500 * (es ++ rest).count f), (s.2.push f).2) := by
        rw [giveBack]
        dsimp only
        rw [hleft, if_pos (by omega)]
      obtain ⟨-, hfifo, hsize⟩ := h.push (by omega) f
      rw [List.map_cons, List.foldl_cons, hpush]
      have hrest := @ih (Function.update s.1 f (1500 * (es ++ rest).count f), (s.2.push f).2)
        (ring ++ [f]) hfifo (by rw [hsize, List.length_append, List.length_singleton]; omega)
        (fun g hg => hmem g (List.mem_cons_of_mem f hg)) ?_ ?_
      · rw [List.append_assoc] at hrest
        exact ⟨hrest.1, hrest.2.1.trans hsize, hrest.2.2⟩
      · intro g hg
        dsimp only
        by_cases hgf : g = f
        · rw [hgf, Function.update_self]
        · rw [Function.update_of_ne hgf, hbytes g hg, List.cons_append,
            List.count_cons_of_ne (Ne.symm hgf)]
      · intro g hg
        exact (List.count_le_count_cons).trans (hle g hg)

/-- **A `Dequeue`** gives the rights of the packets that it takes out back to the ring. -/
lemma Rights.dequeue {num : ℕ} {cfg : Config} {w w' : World} {ring : List ℕ} {now garbage : ℕ}
    (h : Rights num cfg.tokens w.fb w.held ring []) (hcap : cfg.tokens * num < 2 ^ 21)
    (hinv : w.Inv cfg) (hstep : w.step cfg (.dequeue now garbage) = some w') :
    ∃ ring', Rights num cfg.tokens w'.fb w'.held ring' [] := by
  obtain ⟨r, hrun, rfl⟩ := step_dequeue hstep
  obtain ⟨-, haccount, hmap, hleft⟩ := h.books.gives_back hinv hrun
  dsimp only
  set es := (World.takenFrom w.held r.taken).map Placed.flowId
  have hlt : ∀ f ∈ es, f < num := fun f hf =>
    h.lt_num (List.mem_append_right _ (hmap.mem_iff.mpr (List.mem_append_left _ hf)))
  have hlen := h.length_eq
  have hheld := hmap.length_eq
  rw [List.length_append, List.length_map] at hheld
  obtain ⟨hfifo, hsize, hbytes⟩ := @giveBack_all num cfg.tokens cfg.maxBytesPerFlow
    (by rw [Config.tokens]; omega) (fun hnum => Rights.bound hcap hnum)
    ((without Placed.node w.held r.taken).map Placed.flowId) es
    (w.fb.pktsNum, w.fb.flowToGen) ring h.fifo
    (by rw [h.size]; simp only [List.length_nil] at hlen; omega) hlt
    (fun f hf => by rw [← hmap.count_eq]; exact h.bytes f hf)
    (fun f hf => by
      rw [← hmap.count_eq]
      have := h.count_eq hf
      omega)
  rw [← haccount] at hfifo hsize hbytes
  refine ⟨ring ++ es, ⟨hfifo, hsize.trans h.size, hleft, hbytes, ?_⟩⟩
  refine List.Perm.trans ?_ h.perm
  simp only [List.append_assoc, List.append_nil]
  exact List.Perm.append_left _ hmap.symm

/-! ### Sessions -/

/-- The tokens of a session are conserved, and its generator makes packets of `1500` bytes that
carry the flow of their token. -/
structure Session.Tokens (cfg : Config) (num : ℕ) (s : Session) : Prop where
  inv : s.world.Inv cfg
  src : ∀ f < num, f < 2 ^ 32 → ∀ pkt, (s.pktgen.rewriteOne f pkt).src = f
  pktSize : s.pktgen.generatePktSize = 1500
  rights : ∃ ring, Rights num cfg.tokens s.world.fb s.world.held ring []

/-- What `RunTask` relies on after `AddFlow`: the ring has a cell for every token, the flows
come in whole groups, the constructor of the generator got a packet, and the template is an
IPv4 packet. -/
structure AddArg.Fits (cfg : TaskConfig) (arg : AddArg) (env : AddEnv) : Prop where
  cap : cfg.tokens * arg.num < 2 ^ 21
  groups : arg.flowsPerDst ∣ arg.num
  pkt : env.pkt.isSome = true
  headers : HeadersOk cfg.templates

namespace Session

variable {cfg : TaskConfig} {arg : AddArg} {s s' : Session} {num : ℕ}

/-- A task that generates packets finds a free node for each of them. -/
def TokensOk (cfg : TaskConfig) (s : Session) : TaskOp → Prop
  | .addFlow _ _ => False
  | .runTask env => env.childrenOverload = 0 → env.bulk.isSome = true →
      s.world.fb.nPacketsTotal + s.pktgen.generateNum s.world.fb.flowToGen ≤ cfg.mempoolSize

instance (cfg : TaskConfig) (s : Session) : (op : TaskOp) → Decidable (s.TokensOk cfg op)
  | .addFlow _ _ => inferInstanceAs (Decidable False)
  | .runTask _ => inferInstanceAs (Decidable (_ → _ → _))

lemma Tokens.afterAddFlow {env : AddEnv} (hfits : arg.Fits cfg env)
    (hs : AfterAddFlow cfg arg env s) : s.Tokens cfg.toConfig arg.num := by
  obtain ⟨now, uuid, nodes, pktsNum, memory, flowInfo, gen, rfl⟩ := hs
  obtain ⟨buf, hbuf⟩ := Option.isSome_iff_exists.mp hfits.pkt
  have hnil : (flowToGenInit memory).Fifo [] := ⟨⟨21, rfl⟩, .nil _ (show 0 < 2 ^ 21 by norm_num)⟩
  obtain ⟨hfifo, hsize⟩ := hnil.reset.pushAll (tokenList arg.num cfg.tokens)
    (by rw [length_tokenList, List.length_nil, Nat.zero_add]; exact hfits.cap)
  refine ⟨(World.Inv.start _ _ _ _ _ _ _).congr_flows _ _ _, fun f hf hf32 pkt => ?_, rfl,
    tokenList arg.num cfg.tokens, ⟨hfifo, hsize, by simp [addFlow, World.start], ?_, ?_⟩⟩
  · rw [addFlow, hbuf]
    obtain ⟨hlen, hbytes⟩ := new_src hfits.headers hfits.groups env.sums cfg.generateBurst buf
      env.randDst hf
    exact rewriteOne_src hf32 hlen hbytes pkt
  · intro f hf
    simp [addFlow, FlowBundler.addFlow, World.start, hf]
  · simp [addFlow, World.start]

/-- **One task** whose packets all find nodes keeps the tokens. -/
lemma Tokens.runTask {env : TaskEnv} (h : s.Tokens cfg.toConfig num)
    (hcap : cfg.tokens * num < 2 ^ 21) (hok : s.TokensOk cfg (.runTask env))
    (hran : Ran cfg.toConfig s env s') : s'.Tokens cfg.toConfig num := by
  cases hran with
  | blocked hsame hcause => exact hsame ▸ h
  | served w rounds w₁ w₂ hidle hgen hexec hstep hsession =>
      obtain ⟨ring, hrights⟩ := h.rights
      rw [hsession]
      suffices hmid : ∃ ring', Rights num cfg.tokens w₁.fb w₁.held ring' [] ∧
          w₁.Inv cfg.toConfig by
        obtain ⟨ring', hrights', hinv'⟩ := hmid
        exact ⟨hinv'.step hstep, h.src, h.pktSize, hrights'.dequeue hcap hinv' hstep⟩
      rcases generated_cases hgen with ⟨rfl, rfl⟩ | ⟨pkts, batch, hbulk, hbatch, rfl, rfl⟩
      · rw [exec, Option.some.injEq] at hexec
        exact ⟨ring, hexec ▸ ⟨hrights, h.inv⟩⟩
      · have hroom := hok hidle (by rw [hbulk]; rfl)
        have hbatchLen : batch.length = s.pktgen.generateNum s.world.fb.flowToGen := by
          rw [hbatch, List.length_map, List.length_range]
        have hle : batch.length ≤ ring.length := by
          rw [hbatchLen, PacketGenerator.generateNum_eq _ hrights.fifo]
          exact min_le_left _ _
        have hsrc : ∀ t ∈ ring, ∀ pkt, (s.pktgen.rewriteOne t pkt).src = t := by
          intro t ht pkt
          have htoken := mem_tokenList.mp (hrights.perm.mem_iff.mp
            (List.mem_append_left _ (List.mem_append_left _ ht)))
          have hlt : t < cfg.tokens * num :=
            htoken.1.trans_le (Nat.le_mul_of_pos_left num htoken.2)
          exact h.src t htoken.1 (by omega) pkt
        obtain ⟨hmap, hlen, -⟩ := rewrite_src hrights.fifo hle hsrc
        have hlength := congrArg List.length hmap
        rw [List.length_map, List.length_take, min_eq_left hle, hbatchLen] at hlength
        rw [h.inv.repr.tally.total_eq] at hroom
        refine ⟨_, Rights.rounds env hcap (hrights.generate hle hsrc) (h.inv.congr_flows _ _ _)
          (fun p hp => ?_) ?_ hexec⟩
        · rw [hlen p.1 (List.fst_mem_of_mem_zipIdx hp), h.pktSize]
        · rw [List.length_zipIdx, hlength]
          exact hroom

end Session

/-- **Conservation of tokens**: after an `AddFlow` that fits, in every run of tasks whose packets
all find nodes in the pool, the tokens of a flow in `flow_to_gen` and its queued packets are as
many as `AddFlow` gave out. -/
theorem tokens_conserved {cfg : TaskConfig} {arg : AddArg} {env : AddEnv} {s : Session}
    (hfits : arg.Fits cfg env)
    (hs : Machine.Reach (Session.step cfg) (Session.AfterAddFlow cfg arg env)
      (Session.TokensOk cfg) s) {f : ℕ} (hf : f < arg.num) :
    s.world.fb.flowToGen.contents.count f + (slot Placed.flowId s.world.held f).length
      = cfg.maxBytesPerFlow / 1500 := by
  have htokens : s.Tokens cfg.toConfig arg.num := by
    refine hs.invariant (fun s hstart => .afterAddFlow hfits hstart) ?_
    intro s s' op _ ih hok hstep
    cases op with
    | addFlow arg' env' => exact hok.elim
    | runTask tenv =>
        rw [Session.step, Option.map_eq_some_iff] at hstep
        obtain ⟨⟨s₁, r⟩, hrun, rfl⟩ := hstep
        exact ih.runTask hfits.cap hok (Session.runTask_ran hrun)
  obtain ⟨ring, hrights⟩ := htokens.rights
  have hcount := hrights.count_eq hf
  have hheld : (s.world.held.map Placed.flowId).count f
      = (slot Placed.flowId s.world.held f).length := by
    rw [List.count, List.countP_map, slot, ← List.countP_eq_length_filter]
    exact List.countP_congr fun e _ => by simp
  rwa [hheld, List.count_nil, Nat.add_zero, ← hrights.fifo.contents_eq] at hcount

/-- Two tokens: after a packet was sent, one of them is in the ring and one in the calendar. -/
theorem tokens_conserved_run :
    ∃ s, Machine.Reach (Session.step sampleTask)
        (Session.AfterAddFlow sampleTask (argOf [100000000]) addEnv)
        (Session.TokensOk sampleTask) s ∧
      s.world.sent.length = 1 ∧ s.world.held.length = 1 ∧
      s.world.fb.flowToGen.contents.count 0 + (slot Placed.flowId s.world.held 0).length = 2 := by
  obtain ⟨s, hs, hsent, hheld⟩ := exists_afterAddFlow sampleTask [100000000]
    (Session.TokensOk sampleTask)
    [.runTask (taskAt 0 true), .runTask (taskAt 1024 true)]
    (fun s => s.world.sent.length = 1 ∧ s.world.held.length = 1) (by decide +kernel)
  have hfits : (argOf [100000000]).Fits sampleTask addEnv :=
    ⟨by decide, by decide, rfl, by decide⟩
  exact ⟨s, hs, hsent, hheld, tokens_conserved hfits hs (by decide)⟩

/-- With one node and two tokens, the second of two generated packets is dropped, and its token
is gone. -/
theorem token_lost :
    ¬ ∀ (cfg : TaskConfig) (arg : AddArg) (env : AddEnv) (s : Session),
      Machine.Reach (Session.step cfg) (Session.AfterAddFlow cfg arg env)
        (fun _ op => op.isTask = true) s →
      ∀ f < arg.num, s.world.fb.flowToGen.contents.count f
        + (slot Placed.flowId s.world.held f).length = cfg.maxBytesPerFlow / 1500 := by
  intro hall
  set cfg : TaskConfig := { sampleTask with
    mempoolSize := 1, generateBurst := 2, burst_le := by decide }
  obtain ⟨s, hs, hlost⟩ := exists_afterAddFlow cfg [100000000]
    (fun _ op => op.isTask = true) [.runTask (taskAt 0 true)]
    (fun s => s.world.fb.flowToGen.contents.count 0
      + (slot Placed.flowId s.world.held 0).length = 1) (by decide +kernel)
  have hclaim := hall cfg _ _ s hs 0 (by decide)
  rw [hlost] at hclaim
  exact absurd hclaim (by decide)

end Bess
