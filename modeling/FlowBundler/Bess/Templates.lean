import FlowBundler.Bess.Progress

/-!
The packet template of every flow: what `AddFlow` prepares, and what a packet generated for a
token starts with, whatever its buffer held before.

* `HoldsHeaders tpl`: the template string holds an Ethernet, an IPv4 and a UDP header.
* `StartsWith tpl src buf`: the buffer starts with the string, up to the fields that the
  constructor writes, and has the source `src`.
* `PacketGenerator.rewriteBuffer`: the buffer that `RewriteUsingSingleTemplate` leaves for a
  token, if `templates_` has a template there; `rewriteOne_of_buffer`.
* `new_template`, `new_blank`: the flows with a template, and the ones without.
* `Templated tpl num gen i`: every packet for the token `i` is a packet of flow `i`;
  `templated_iff`: exactly when its group of flows is complete.

The constructor makes one round for each flow of a complete group, and a flow beyond these has a
blank template, of size `0`, so that a packet generated for it keeps what its buffer held before.
A packet that is rewritten copies the template of its token over the start of its buffer, so that it
starts as the template does; what the constructor computes, checksums and destination, lies in
fields that `StartsWith` does not compare.
-/

namespace Bess

/-! ### Headers -/

/-- The string holds an Ethernet header, an IPv4 header and behind it a UDP header. -/
structure HoldsHeaders (tpl : List UInt8) : Prop where
  ihl : 5 ≤ (tpl.getD ipOff 0).toNat % 16
  udp : udpOff tpl + 8 ≤ tpl.length
  fits : tpl.length ≤ kMaxTemplateSize

/-- The bytes of the fields that the constructor writes: the IPv4 checksum and addresses, the
UDP ports and the UDP checksum. -/
def Field (tpl : List UInt8) (k : ℕ) : Prop :=
  (ipChecksumOff ≤ k ∧ k < ipDstOff + 4) ∨ (udpOff tpl ≤ k ∧ k < udpOff tpl + 4) ∨
    (udpOff tpl + 6 ≤ k ∧ k < udpOff tpl + 8)

/-- The buffer starts with the string, with the source `src` and the ports `1` and `1`. -/
structure StartsWith (tpl : List UInt8) (src : ℕ) (buf : Buffer) : Prop where
  string : ∀ k < tpl.length, ¬ Field tpl k → buf k = tpl.getD k 0
  source : ∀ k < 4, buf (ipSrcOff + k) = (be32 src).getD k 0
  ports : ∀ k < 4, buf (udpOff tpl + k) = (be16 1 ++ be16 1).getD k 0

namespace HoldsHeaders

variable {tpl : List UInt8}

lemma le_udpOff (h : HoldsHeaders tpl) : 34 ≤ udpOff tpl := by
  have hihl := h.ihl
  have hipOff : ipOff = 14 := rfl
  rw [udpOff]
  omega

lemma headersOk (h : HoldsHeaders tpl) : HeadersOk tpl := by
  have hihl := h.ihl
  have hudp := h.udp
  have hle := h.le_udpOff
  exact ⟨by omega, by omega, by omega⟩

/-- A round of the constructor leaves the string outside the fields. -/
lemma fillTemplate_string (h : HoldsHeaders tpl) (sums : Checksums) (buf : Buffer) (src dst : ℕ)
    {k : ℕ} (hk : k < tpl.length) (hfield : ¬ Field tpl k) :
    fillTemplate sums tpl buf src dst k = tpl.getD k 0 := by
  have hlen := h.headersOk.1
  obtain ⟨udpSum, ipSum, heq⟩ := fillTemplate_eq (show ipOff < tpl.length by rw [ipOff]; omega)
    sums buf src dst
  have hsrcOff : ipSrcOff = 26 := rfl
  have hdstOff : ipDstOff = 30 := rfl
  have hsum : ipChecksumOff = 24 := rfl
  rw [Field, hdstOff, hsum] at hfield
  have htpl := @write_of_mem buf 0 k tpl hk
  rw [Nat.zero_add] at htpl
  rw [heq, write_of_not_mem (by simp only [le16, List.length_cons, List.length_nil]; omega),
    write_of_not_mem (by simp only [le16, List.length_cons, List.length_nil]; omega),
    write_of_not_mem (by simp only [be16, List.length_cons, List.length_nil]; omega),
    write_of_not_mem (by simp only [be16, List.length_cons, List.length_nil]; omega),
    write_of_not_mem (by simp only [be32, List.length_cons, List.length_nil]; omega),
    write_of_not_mem (by simp only [be32, List.length_cons, List.length_nil]; omega), htpl]

/-- It sets both ports to `1`. -/
lemma fillTemplate_ports (h : HoldsHeaders tpl) (sums : Checksums) (buf : Buffer) (src dst : ℕ)
    {k : ℕ} (hk : k < 4) :
    fillTemplate sums tpl buf src dst (udpOff tpl + k) = (be16 1 ++ be16 1).getD k 0 := by
  have hlen := h.headersOk.1
  have hle := h.le_udpOff
  obtain ⟨udpSum, ipSum, heq⟩ := fillTemplate_eq (show ipOff < tpl.length by rw [ipOff]; omega)
    sums buf src dst
  have hsum : ipChecksumOff = 24 := rfl
  rw [heq, write_of_not_mem (by simp only [le16, List.length_cons, List.length_nil]; omega),
    write_of_not_mem (by simp only [le16, List.length_cons, List.length_nil]; omega)]
  by_cases hsecond : k < 2
  · rw [write_of_not_mem (by simp only [be16, List.length_cons, List.length_nil]; omega),
      write_of_mem (by simpa [be16] using hsecond)]
    exact (List.getD_append _ _ _ _ (by simpa [be16] using hsecond)).symm
  · obtain ⟨m, rfl⟩ := Nat.exists_eq_add_of_le (not_lt.mp hsecond)
    rw [← Nat.add_assoc,
      write_of_mem (by simp only [be16, List.length_cons, List.length_nil]; omega),
      List.getD_append_right _ _ _ _ (by simp [be16])]
    simp [be16]

/-- **A kept template** starts with the string, and has the flow as source. -/
lemma startsWith (h : HoldsHeaders tpl) (sums : Checksums) (buf : Buffer) (src dst : ℕ) :
    StartsWith tpl src (keptTemplate sums tpl buf src dst).bytes := by
  have hudp := h.udp
  refine ⟨fun k hk hfield => ?_, fun k hk => keptTemplate_src h.headersOk sums buf src dst hk,
    fun k hk => ?_⟩
  · exact (if_pos hk).trans (h.fillTemplate_string sums buf src dst hk hfield)
  · exact (if_pos (by omega)).trans (h.fillTemplate_ports sums buf src dst hk)

end HoldsHeaders

lemma StartsWith.congr {tpl : List UInt8} {src : ℕ} {buf buf' : Buffer} (h : StartsWith tpl src buf)
    (hheaders : HoldsHeaders tpl) (hsame : ∀ k < tpl.length, buf' k = buf k) :
    StartsWith tpl src buf' := by
  have hlen := hheaders.headersOk.1
  have hudp := hheaders.udp
  have hsrcOff : ipSrcOff = 26 := rfl
  refine ⟨fun k hk hfield => ?_, fun k hk => ?_, fun k hk => ?_⟩
  · rw [hsame k hk]
    exact h.string k hk hfield
  · rw [hsame _ (by omega)]
    exact h.source k hk
  · rw [hsame _ (by omega)]
    exact h.ports k hk

/-! ### The packet for a token -/

namespace PacketGenerator

variable {gen : PacketGenerator} {n t : ℕ} {buf : Buffer}

/-- The buffer after the copy of a template. -/
def copied (tpl : PacketTemplate) (old : Buffer) : Buffer := fun k =>
  if k < copiedBytes tpl.size then tpl.bytes k else old k

/-- The buffer that is left for the token `t`, an `int` there; nothing when `t` is no element of
`templates_`, which has `n`. -/
def rewriteBuffer (gen : PacketGenerator) (n t : ℕ) (old : Buffer) : Option Buffer :=
  if t < 2 ^ 31 ∧ t < n then some (copied (gen.templates t) old) else none

/-- The copy covers the template. -/
lemma copied_of_lt {tpl : PacketTemplate} {k : ℕ} (hk : k < tpl.size) (old : Buffer) :
    copied tpl old k = tpl.bytes k := by
  refine if_pos ?_
  rw [copiedBytes]
  omega

/-- The addresses of the packet are the ones in that buffer. -/
lemma rewriteOne_of_buffer {pkt : ℕ × Buffer} (h : gen.rewriteBuffer n t pkt.2 = some buf) :
    gen.rewriteOne t pkt = { ptr := pkt.1, totalLen := gen.generatePktSize
                             src := readBe32 buf ipSrcOff, dst := readBe32 buf ipDstOff } := by
  rw [rewriteBuffer] at h
  split at h
  · rw [Option.some.injEq] at h
    rw [← h]
    rfl
  · simp at h

/-- Without a template nothing is copied. -/
lemma rewriteBuffer_blank (h : (gen.templates t).size = 0) {old : Buffer}
    (hbuf : gen.rewriteBuffer n t old = some buf) : buf = old := by
  rw [rewriteBuffer] at hbuf
  split at hbuf
  · rw [Option.some.injEq] at hbuf
    rw [← hbuf]
    funext k
    rw [copied, h]
    exact if_neg (by simp [copiedBytes])
  · simp at hbuf

end PacketGenerator

section New

variable {sums : Checksums} {burst n flowsPerDst t : ℕ} {tpl : List UInt8} {randDst : ℕ → ℕ}

/-- A flow whose group is complete has a template. -/
lemma new_template (hfits : tpl.length ≤ kMaxTemplateSize) (buf : Buffer)
    (ht : t < n / flowsPerDst * flowsPerDst) :
    ∃ buf', (PacketGenerator.new sums burst tpl n flowsPerDst (some buf) randDst).templates t
      = keptTemplate sums tpl buf' t (randDst (t / flowsPerDst)) := by
  have hkept := (fillRounds_eq sums (tpl.take kMaxTemplateSize) flowsPerDst randDst
    (buf, fun _ => { size := 0, bytes := fun _ => 0 }) (n / flowsPerDst * flowsPerDst)).1 t ht
  obtain ⟨buf', hkept⟩ := hkept
  refine ⟨buf', hkept.trans ?_⟩
  rw [List.take_of_length_le hfits]

/-- The other flows have none, and no flow has one when there was no packet to fill. -/
lemma new_blank {pkt : Option Buffer} (ht : pkt = none ∨ n / flowsPerDst * flowsPerDst ≤ t) :
    ((PacketGenerator.new sums burst tpl n flowsPerDst pkt randDst).templates t).size = 0 := by
  cases pkt with
  | none => rfl
  | some buf =>
      have hblank := (fillRounds_eq sums (tpl.take kMaxTemplateSize) flowsPerDst randDst
        (buf, fun _ => { size := 0, bytes := fun _ => 0 }) (n / flowsPerDst * flowsPerDst)).2 t
        (ht.resolve_left (by simp))
      exact congrArg PacketTemplate.size hblank

end New

/-! ### Every flow -/

/-- Every packet for the token `i`, whatever its buffer held, starts with the template string and
is a packet of flow `i`, one of `num` flows. -/
def Templated (tpl : List UInt8) (num : ℕ) (gen : PacketGenerator) (i : ℕ) : Prop :=
  ∀ pkt : ℕ × Buffer, ∃ buf, gen.rewriteBuffer num i pkt.2 = some buf ∧ StartsWith tpl i buf ∧
    (gen.rewriteOne i pkt).src = i ∧ (gen.rewriteOne i pkt).src < num

section Templated

variable {tpl : List UInt8} {gen : PacketGenerator} {num i : ℕ}

/-- A kept template makes every packet for its token one of its flow. -/
lemma templated_of_kept (h : HoldsHeaders tpl) {sums : Checksums} {buf' : Buffer} {dst : ℕ}
    (hkept : gen.templates i = keptTemplate sums tpl buf' i dst) (hint : i < 2 ^ 31)
    (hi : i < num) : Templated tpl num gen i := by
  intro pkt
  have hbuf : gen.rewriteBuffer num i pkt.2
      = some (PacketGenerator.copied (gen.templates i) pkt.2) := by
    rw [PacketGenerator.rewriteBuffer, if_pos (And.intro hint hi)]
  have hstarts : StartsWith tpl i (PacketGenerator.copied (gen.templates i) pkt.2) := by
    rw [hkept]
    exact (h.startsWith sums buf' i dst).congr h fun k hk => PacketGenerator.copied_of_lt hk _
  have hsrc : (gen.rewriteOne i pkt).src = i := by
    rw [PacketGenerator.rewriteOne_of_buffer hbuf]
    dsimp only
    rw [readBe32_of_bytes hstarts.source]
    exact Nat.mod_eq_of_lt (by omega)
  exact ⟨_, hbuf, hstarts, hsrc, hsrc.trans_lt hi⟩

/-- Without a template a packet keeps the source that its buffer had. -/
lemma not_templated_of_blank (hint : i < 2 ^ 31) (hblank : (gen.templates i).size = 0) :
    ¬ Templated tpl num gen i := by
  intro h
  obtain ⟨buf, hbuf, hstarts, -⟩ := h (0, fun _ => 255)
  have hfirst := hstarts.source 0 (by norm_num)
  rw [PacketGenerator.rewriteBuffer_blank hblank hbuf] at hfirst
  have hnat := congrArg UInt8.toNat hfirst
  simp only [be32, List.getD_cons_zero, UInt8.toNat_ofNat'] at hnat
  have hvalue : (255 : UInt8).toNat = 255 := rfl
  omega

/-- A token that is no `int` has no template. -/
lemma Templated.lt_int (h : Templated tpl num gen i) : i < 2 ^ 31 := by
  obtain ⟨buf, hbuf, -⟩ := h (0, fun _ => 0)
  rw [PacketGenerator.rewriteBuffer] at hbuf
  split at hbuf
  · rename_i hlt
    exact hlt.1
  · simp at hbuf

end Templated

/-- A command without a packet to fill, or with an incomplete group. -/
lemma addFlow_blank {cfg : TaskConfig} (s : Session) {arg : AddArg} {env : AddEnv} {i : ℕ}
    (h : env.pkt = none ∨ arg.num / arg.flowsPerDst * arg.flowsPerDst ≤ i) :
    ((s.addFlow cfg arg env).pktgen.templates i).size = 0 := new_blank h

/-- **The templates** of `AddFlow`: every packet for the token of a flow is a packet of that flow
exactly when there was a packet to fill, the token is an `int`, and the group of `flows_per_dst`
flows that the flow is in is complete. -/
theorem templated_iff {cfg : TaskConfig} (hheaders : HoldsHeaders cfg.templates) (s : Session)
    {arg : AddArg} (hdst : 1 ≤ arg.flowsPerDst) (env : AddEnv) {i : ℕ} (hi : i < arg.num) :
    Templated cfg.templates arg.num (s.addFlow cfg arg env).pktgen i ↔
      env.pkt.isSome ∧ i < 2 ^ 31 ∧ i / arg.flowsPerDst < arg.num / arg.flowsPerDst := by
  rw [Nat.div_lt_iff_lt_mul hdst]
  constructor
  · intro h
    have hint := h.lt_int
    by_contra hnot
    refine not_templated_of_blank hint (addFlow_blank s ?_) h
    cases hpkt : env.pkt with
    | none => exact .inl rfl
    | some buf =>
        rw [hpkt] at hnot
        exact .inr (not_lt.mp fun hlt => hnot ⟨rfl, hint, hlt⟩)
  · rintro ⟨hpkt, hint, hgroup⟩
    obtain ⟨buf, hbuf⟩ := Option.isSome_iff_exists.mp hpkt
    obtain ⟨buf', hkept⟩ := @new_template env.sums cfg.generateBurst arg.num arg.flowsPerDst i
      cfg.templates env.randDst hheaders.fits buf hgroup
    rw [← hbuf] at hkept
    exact templated_of_kept hheaders hkept hint hi

lemma holdsHeaders_sample : HoldsHeaders sampleTask.templates :=
  ⟨by decide, by decide, by decide⟩

/-- Three flows in groups of two. -/
def pairsArg : AddArg := { flows := [], flowNum := 3, totalRate := 3000, flowsPerDst := 2 }

/-- The first two have templates. -/
theorem templated_iff_run : Templated sampleTask.templates 3
    ((sessionAt sampleTask []).addFlow sampleTask pairsArg addEnv).pktgen 1 :=
  (@templated_iff sampleTask holdsHeaders_sample (sessionAt sampleTask []) pairsArg (by decide)
    addEnv 1 (by decide)).mpr (by decide)

/-- The third has none. -/
theorem not_templated_third : HoldsHeaders sampleTask.templates ∧ 1 ≤ pairsArg.flowsPerDst ∧
    2 < pairsArg.num ∧ ¬ Templated sampleTask.templates pairsArg.num
      ((sessionAt sampleTask []).addFlow sampleTask pairsArg addEnv).pktgen 2 :=
  ⟨holdsHeaders_sample, by decide, by decide,
    not_templated_of_blank (by norm_num) (addFlow_blank _ (.inr (by decide)))⟩

end Bess
