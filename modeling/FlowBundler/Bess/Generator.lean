import FlowBundler.Bess.Bundler

/-!
`PacketGenerator`: one template per flow, and the packets generated from them for the flows
in `flow_to_gen`.

* `Buffer`: the bytes of a packet from its data offset on; `write`, `readBe32`: the accesses
  of the headers, at their offsets behind an Ethernet header.
* `fillTemplate`, `PacketGenerator.new`: the constructor, which fills the templates of the
  groups of `flows_per_dst` flows that fit.
* `allocPackets`, `rewriteUsingSingleTemplate`: the two steps of generation.
* `HeadersOk`, `new_src`, `rewrite_src`: with a template string that reaches the IPv4 source
  and whose UDP header does not overlap it, the packet of a flow carries the flow as source.

The destinations are random and the checksums are computed by library functions; both are
arguments.  The copy of a template into a packet may run over by less than a block of
32 bytes, as it is called.

Packets are followed byte by byte, as what matters is whether the source that the constructor writes
into a template survives the ports and the checksums that are written after it, and the copy of the
template over a packet whose buffer is reused.
-/

namespace Bess

/-! ### Bytes -/

abbrev Buffer := ℕ → UInt8

/-- Writing bytes at an offset. -/
def write (buf : Buffer) (off : ℕ) (bytes : List UInt8) : Buffer := fun i =>
  if off ≤ i ∧ i < off + bytes.length then bytes.getD (i - off) 0 else buf i

/-- `be32_t`, byte by byte. -/
def be32 (v : ℕ) : List UInt8 :=
  [UInt8.ofNat (v / 2 ^ 24), UInt8.ofNat (v / 2 ^ 16), UInt8.ofNat (v / 2 ^ 8), UInt8.ofNat v]

/-- `be16_t`, byte by byte. -/
def be16 (v : ℕ) : List UInt8 := [UInt8.ofNat (v / 2 ^ 8), UInt8.ofNat v]

/-- A 16-bit word in the order of the machine. -/
def le16 (v : ℕ) : List UInt8 := [UInt8.ofNat v, UInt8.ofNat (v / 2 ^ 8)]

/-- The value of a `be32_t` field. -/
def readBe32 (buf : Buffer) (off : ℕ) : ℕ :=
  ((buf off).toNat * 2 ^ 24 + (buf (off + 1)).toNat * 2 ^ 16 + (buf (off + 2)).toNat * 2 ^ 8
    + (buf (off + 3)).toNat)

/-- The offsets of the IPv4 header and of its fields. -/
def ipOff : ℕ := 14

def ipChecksumOff : ℕ := ipOff + 10

def ipSrcOff : ℕ := ipOff + 12

def ipDstOff : ℕ := ipOff + 16

/-! ### The constructor -/

def kMaxBurst : ℕ := 32

def kMaxTemplateSize : ℕ := 1536

structure PacketTemplate where
  size : ℕ
  bytes : Buffer

structure PacketGenerator where
  generateBurst : ℕ
  generatePktSize : ℕ
  templates : ℕ → PacketTemplate

/-- `CalculateIpv4UdpChecksum` and `CalculateIpv4Checksum` of the headers in a buffer. -/
structure Checksums where
  udp : Buffer → ℕ
  ip : Buffer → ℕ

/-- The packet buffer after one round of the constructor: the template string with the
addresses, ports and checksums of one flow. -/
def fillTemplate (sums : Checksums) (tpl : List UInt8) (buf : Buffer) (src dst : ℕ) : Buffer :=
  let buf := write buf 0 tpl
  let buf := write (write buf ipSrcOff (be32 src)) ipDstOff (be32 dst)
  -- `header_length` is the low half of the first byte
  let udp := ipOff + (buf ipOff).toNat % 16 * 4
  let buf := write (write buf udp (be16 1)) (udp + 2) (be16 1)
  let buf := write buf (udp + 6) (le16 (sums.udp buf))
  write buf ipChecksumOff (le16 (sums.ip buf))

/-- One round of the constructor's loop, for flow `t`. -/
def fillRound (sums : Checksums) (tpl : List UInt8) (flowsPerDst : ℕ) (randDst : ℕ → ℕ)
    (s : Buffer × (ℕ → PacketTemplate)) (t : ℕ) : Buffer × (ℕ → PacketTemplate) :=
  let buf := fillTemplate sums tpl s.1 t (randDst (t / flowsPerDst))
  let template := { size := tpl.length, bytes := fun i => if i < tpl.length then buf i else 0 }
  (buf, Function.update s.2 t template)

/-- The constructor.  `pkt` is the buffer of the packet it allocates, if it gets one; the two
loops make one round for each flow of a whole group of `flows_per_dst`. -/
def PacketGenerator.new (sums : Checksums) (generateBurst : ℕ) (templates : List UInt8)
    (n flowsPerDst : ℕ) (pkt : Option Buffer) (randDst : ℕ → ℕ) : PacketGenerator :=
  let blank : ℕ → PacketTemplate := fun _ => { size := 0, bytes := fun _ => 0 }
  { generateBurst := generateBurst
    generatePktSize := 1500
    templates := match pkt with
      | none => blank
      | some buf => ((List.range (n / flowsPerDst * flowsPerDst)).foldl
          (fillRound sums (templates.take kMaxTemplateSize) flowsPerDst randDst) (buf, blank)).2 }

/-! ### Generation -/

/-- How many packets `AllocPackets` asks the pool for. -/
def PacketGenerator.generateNum (gen : PacketGenerator) (flowToGen : CircularQueue) : ℕ :=
  if flowToGen.elementsNum > gen.generateBurst then gen.generateBurst else flowToGen.elementsNum

/-- It asks for a packet for each token, within the burst. -/
lemma PacketGenerator.generateNum_eq (gen : PacketGenerator) {q : CircularQueue} {l : List ℕ}
    (h : q.Fifo l) : gen.generateNum q = min l.length gen.generateBurst := by
  rw [generateNum, h.elementsNum_eq]
  split
  · rename_i hlt
    exact (min_eq_right hlt.le).symm
  · rename_i hle
    exact (min_eq_left (not_lt.mp hle)).symm

/-- `AllocPackets`; `bulk` is the answer of `AllocBulk`, packet by packet with the contents of
the reused buffers, or nothing when the pool cannot supply the batch. -/
def PacketGenerator.allocPackets (gen : PacketGenerator) (flowToGen : CircularQueue)
    (bulk : Option (ℕ → ℕ × Buffer)) : Option (List (ℕ × Buffer)) :=
  bulk.map fun pkts => (List.range (gen.generateNum flowToGen)).map pkts

/-- The bytes that a copy of `size` bytes in blocks of 32 covers. -/
def copiedBytes (size : ℕ) : ℕ := (size + 31) / 32 * 32

/-- The packet of one round of `RewriteUsingSingleTemplate`. -/
def PacketGenerator.rewriteOne (gen : PacketGenerator) (pos : ℕ) (pkt : ℕ × Buffer) : Packet :=
  let tpl := gen.templates pos
  let buf : Buffer := fun i => if i < copiedBytes tpl.size then tpl.bytes i else pkt.2 i
  { ptr := pkt.1, totalLen := gen.generatePktSize
    src := readBe32 buf ipSrcOff, dst := readBe32 buf ipDstOff }

def PacketGenerator.rewriteUsingSingleTemplate (gen : PacketGenerator) :
    List (ℕ × Buffer) → CircularQueue → List Packet × CircularQueue
  | [], q => ([], q)
  | pkt :: batch, q =>
      let (pos, q) := q.pop
      let rest := gen.rewriteUsingSingleTemplate batch q
      (gen.rewriteOne pos pkt :: rest.1, rest.2)

/-! ### The source of a generated packet -/

/-- The template string reaches the IPv4 source, and the UDP header that its header length
points at does not overlap the source. -/
def HeadersOk (templates : List UInt8) : Prop :=
  30 ≤ templates.length ∧ (templates.getD ipOff 0).toNat % 16 ≠ 2 ∧
    (templates.getD ipOff 0).toNat % 16 ≠ 3

instance (templates : List UInt8) : Decidable (HeadersOk templates) :=
  inferInstanceAs (Decidable (_ ∧ _ ∧ _))

section Source

variable {buf : Buffer} {off i v : ℕ} {bytes : List UInt8}

lemma write_of_not_mem (h : i < off ∨ off + bytes.length ≤ i) : write buf off bytes i = buf i :=
  if_neg (by omega)

lemma write_of_mem (h : i < bytes.length) : write buf off bytes (off + i) = bytes.getD i 0 := by
  rw [write, if_pos (by omega), Nat.add_sub_cancel_left]

/-- Reading back a `be32_t`. -/
lemma readBe32_of_bytes (h : ∀ i < 4, buf (off + i) = (be32 v).getD i 0) :
    readBe32 buf off = v % 2 ^ 32 := by
  have h0 := h 0 (by norm_num)
  have h1 := h 1 (by norm_num)
  have h2 := h 2 (by norm_num)
  have h3 := h 3 (by norm_num)
  simp only [Nat.add_zero, be32, List.getD_cons_zero, List.getD_cons_succ] at h0 h1 h2 h3
  rw [readBe32, h0, h1, h2, h3]
  simp only [UInt8.toNat_ofNat']
  omega

/-- The offset of the UDP header, by the header length in the template string. -/
def udpOff (tpl : List UInt8) : ℕ := ipOff + (tpl.getD ipOff 0).toNat % 16 * 4

/-- What a round of the constructor writes over the template string. -/
lemma fillTemplate_eq {tpl : List UInt8} (hlen : ipOff < tpl.length) (sums : Checksums)
    (buf : Buffer) (src dst : ℕ) :
    ∃ udpSum ipSum, fillTemplate sums tpl buf src dst =
      write (write (write (write (write (write (write buf 0 tpl) ipSrcOff (be32 src))
        ipDstOff (be32 dst)) (udpOff tpl) (be16 1)) (udpOff tpl + 2) (be16 1))
        (udpOff tpl + 6) (le16 udpSum)) ipChecksumOff (le16 ipSum) := by
  have hihl : write (write (write buf 0 tpl) ipSrcOff (be32 src)) ipDstOff (be32 dst) ipOff
      = tpl.getD ipOff 0 := by
    have htpl := @write_of_mem buf 0 ipOff tpl hlen
    rw [Nat.zero_add] at htpl
    rw [write_of_not_mem (by left; decide), write_of_not_mem (by left; decide), htpl]
  rw [fillTemplate, hihl, ← udpOff]
  exact ⟨_, _, rfl⟩

/-- A round of the constructor leaves the flow in the source bytes. -/
lemma fillTemplate_src {tpl : List UInt8} (hok : HeadersOk tpl) (sums : Checksums) (buf : Buffer)
    (src dst : ℕ) (hi : i < 4) :
    fillTemplate sums tpl buf src dst (ipSrcOff + i) = (be32 src).getD i 0 := by
  obtain ⟨hlen, h2, h3⟩ := hok
  obtain ⟨udpSum, ipSum, heq⟩ := fillTemplate_eq (show ipOff < tpl.length by rw [ipOff]; omega)
    sums buf src dst
  have hsrcOff : ipSrcOff = 26 := rfl
  have hipOff : ipOff = 14 := rfl
  have hsum : ipChecksumOff = 24 := rfl
  have hudp : udpOff tpl = ipOff + (tpl.getD ipOff 0).toNat % 16 * 4 := rfl
  -- the ports, the two checksums, the destination: none of them reaches the source
  rw [heq, write_of_not_mem (by right; simp only [le16, List.length_cons, List.length_nil]; omega),
    write_of_not_mem (by simp only [le16, List.length_cons, List.length_nil]; omega),
    write_of_not_mem (by simp only [be16, List.length_cons, List.length_nil]; omega),
    write_of_not_mem (by simp only [be16, List.length_cons, List.length_nil]; omega),
    write_of_not_mem (by left; simp only [ipSrcOff, ipDstOff]; omega),
    write_of_mem (by simpa [be32] using hi)]

/-- The template that a round of the constructor keeps of the buffer it found. -/
def keptTemplate (sums : Checksums) (tpl : List UInt8) (buf : Buffer) (src dst : ℕ) :
    PacketTemplate :=
  { size := tpl.length
    bytes := fun i => if i < tpl.length then fillTemplate sums tpl buf src dst i else 0 }

/-- The loop fills the template of every flow it visits and of no other, by induction on its
rounds. -/
lemma fillRounds_eq (sums : Checksums) (tpl : List UInt8) (flowsPerDst : ℕ) (randDst : ℕ → ℕ)
    (s : Buffer × (ℕ → PacketTemplate)) (m : ℕ) :
    (∀ t < m, ∃ buf, ((List.range m).foldl (fillRound sums tpl flowsPerDst randDst) s).2 t
        = keptTemplate sums tpl buf t (randDst (t / flowsPerDst))) ∧
      ∀ t, m ≤ t → ((List.range m).foldl (fillRound sums tpl flowsPerDst randDst) s).2 t
        = s.2 t := by
  induction m with
  | zero => simp
  | succ m ih =>
      rw [List.range_succ, List.foldl_append, List.foldl_cons, List.foldl_nil, fillRound]
      dsimp only
      refine ⟨fun t ht => ?_, fun t ht => ?_⟩
      · by_cases htm : t = m
        · subst htm
          rw [Function.update_self]
          exact ⟨_, rfl⟩
        · rw [Function.update_of_ne htm]
          exact ih.1 t (by omega)
      · rw [Function.update_of_ne (by omega)]
        exact ih.2 t (by omega)

/-- A kept template has the flow in its source bytes. -/
lemma keptTemplate_src {tpl : List UInt8} (hok : HeadersOk tpl) (sums : Checksums) (buf : Buffer)
    (src dst : ℕ) (hi : i < 4) :
    (keptTemplate sums tpl buf src dst).bytes (ipSrcOff + i) = (be32 src).getD i 0 := by
  have hin : ipSrcOff + i < tpl.length := by
    have hlen := hok.1
    have hsrcOff : ipSrcOff = 26 := rfl
    omega
  rw [keptTemplate]
  dsimp only
  rw [if_pos hin]
  exact fillTemplate_src hok sums buf src dst hi

end Source

/-- The templates of all flows, when the groups divide them evenly. -/
lemma new_src {templates : List UInt8} (hok : HeadersOk templates) {n flowsPerDst : ℕ}
    (hdvd : flowsPerDst ∣ n) (sums : Checksums) (burst : ℕ) (buf : Buffer) (randDst : ℕ → ℕ)
    {t : ℕ} (ht : t < n) :
    30 ≤ ((PacketGenerator.new sums burst templates n flowsPerDst (some buf) randDst).templates
        t).size ∧
      ∀ i < 4, ((PacketGenerator.new sums burst templates n flowsPerDst (some buf)
        randDst).templates t).bytes (ipSrcOff + i) = (be32 t).getD i 0 := by
  have hok' : HeadersOk (templates.take kMaxTemplateSize) := by
    obtain ⟨hlen, hihl⟩ := hok
    have hget : (templates.take kMaxTemplateSize).getD ipOff 0 = templates.getD ipOff 0 := by
      simp [List.getD_eq_getElem?_getD, ipOff, kMaxTemplateSize]
    refine ⟨?_, by rw [hget]; exact hihl⟩
    rw [List.length_take, kMaxTemplateSize]
    omega
  obtain ⟨buf', hkept⟩ := (fillRounds_eq sums (templates.take kMaxTemplateSize) flowsPerDst randDst
    (buf, fun _ => { size := 0, bytes := fun _ => 0 }) (n / flowsPerDst * flowsPerDst)).1 t
    (by rwa [Nat.div_mul_cancel hdvd])
  rw [PacketGenerator.new]
  dsimp only
  rw [hkept]
  exact ⟨hok'.1, fun i hi => keptTemplate_src hok' sums buf' t _ hi⟩

/-- A packet rewritten from such a template carries the flow as its source. -/
lemma rewriteOne_src {gen : PacketGenerator} {t : ℕ} (ht : t < 2 ^ 32)
    (hsize : 30 ≤ (gen.templates t).size)
    (hbytes : ∀ i < 4, (gen.templates t).bytes (ipSrcOff + i) = (be32 t).getD i 0)
    (pkt : ℕ × Buffer) : (gen.rewriteOne t pkt).src = t := by
  rw [PacketGenerator.rewriteOne, readBe32_of_bytes (v := t), Nat.mod_eq_of_lt ht]
  intro i hi
  have hin : ipSrcOff + i < copiedBytes (gen.templates t).size := by
    have hsrcOff : ipSrcOff = 26 := rfl
    rw [copiedBytes]
    omega
  rw [if_pos hin]
  exact hbytes i hi

/-- **Generation** takes the oldest tokens and makes a packet for each of them, by induction on
the batch. -/
lemma rewrite_src {gen : PacketGenerator} {batch : List (ℕ × Buffer)} :
    ∀ {q : CircularQueue} {ring : List ℕ}, q.Fifo ring → batch.length ≤ ring.length →
      (∀ t ∈ ring, ∀ pkt, (gen.rewriteOne t pkt).src = t) →
      (gen.rewriteUsingSingleTemplate batch q).1.map Packet.src = ring.take batch.length ∧
        (∀ p ∈ (gen.rewriteUsingSingleTemplate batch q).1, p.totalLen = gen.generatePktSize) ∧
        (gen.rewriteUsingSingleTemplate batch q).2.Fifo (ring.drop batch.length) ∧
        (gen.rewriteUsingSingleTemplate batch q).2.size = q.size := by
  induction batch with
  | nil => exact fun h _ _ => ⟨rfl, by simp [PacketGenerator.rewriteUsingSingleTemplate], h, rfl⟩
  | cons pkt batch ih =>
      intro q ring h hlen hsrc
      cases ring with
      | nil => simp at hlen
      | cons t ring =>
          obtain ⟨hpop, hfifo, hsize⟩ := h.pop
          obtain ⟨hmap, hall, hrest, hrsize⟩ := ih hfifo (by simpa using hlen)
            fun t' ht' => hsrc t' (List.mem_cons_of_mem t ht')
          rw [PacketGenerator.rewriteUsingSingleTemplate]
          dsimp only
          rw [hpop]
          refine ⟨?_, ?_, hrest, hrsize.trans hsize⟩
          · rw [List.map_cons, hmap, hsrc t (by simp), List.length_cons, List.take_succ_cons]
          · intro p hp
            rcases List.mem_cons.mp hp with rfl | hp
            · rfl
            · exact hall p hp

end Bess
