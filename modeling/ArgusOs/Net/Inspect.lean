/-
  Packet inspection: `inspect_slice` of `rust_net.rs`.

  The function is followed step by step, in the order its checks are made; the Ethernet and
  IPv4 part, UDP and TCP are separate definitions here. Slices that are out of range and
  reads beyond the end are the `none` of `slice` and `readBe16`.

  `ValidFrame` says in terms of the bytes of the frame which packets are to be accepted:
  Ethernet II with IPv4 without options or fragments, and UDP or TCP with a valid checksum.
  Checksums there are one's complement sums (`ocSum`).

  The two differ in one place. A TCP checksum may be zero like any other value; the zero that
  means "no checksum" is a matter of UDP only. `inspect_slice` refuses it for both, so that it
  accepts exactly the valid frames other than TCP frames with a zero checksum field.
-/
import ArgusOs.Lib.Checksum
import ArgusOs.Lib.Word

namespace ArgusOs.Net

open Lib

variable {first i k last n : Nat} {bytes : List UInt8}

inductive NetStatus where
  | ok
  | invalid
  | unsupported
  | checksum
  | fragment
  | queueFull
  | bufferTooSmall
  | queueEmpty
  | stateError
  deriving DecidableEq, Repr

variable {status : NetStatus}

def maxFrame : Nat := 1514

structure PacketSummary where
  etherType : UInt16
  ipTotalLength : UInt16
  protocol : UInt8
  tcpFlags : UInt8
  transportHeaderLength : UInt16
  sourceIpv4 : UInt32
  destinationIpv4 : UInt32
  sourcePort : UInt16
  destinationPort : UInt16
  payloadLength : UInt16
  deriving DecidableEq, Repr

/-! ## Reading bytes -/

variable (bytes)

/-- `bytes.get(first..last)`. -/
def slice (first last : Nat) : Option (List UInt8) :=
  if first ≤ last ∧ last ≤ bytes.length then some ((bytes.take last).drop first) else none

def readBe16 (offset : Nat) : Option UInt16 :=
  match slice bytes offset (offset + 2) with
  | some [high, low] => some ((high.toUInt16 <<< 8) ||| low.toUInt16)
  | _ => none

def readBe32 (offset : Nat) : Option UInt32 :=
  match slice bytes offset (offset + 4) with
  | some [first, second, third, fourth] =>
    some ((first.toUInt32 <<< 24) ||| (second.toUInt32 <<< 16) ||| (third.toUInt32 <<< 8) |||
      fourth.toUInt32)
  | _ => none

/-! ## Checksums -/

def checksumAdd (sum : UInt32) : List UInt8 → UInt32
  | [] => sum
  | [last] => sum + (last.toUInt32 <<< 8)
  | high :: low :: rest => checksumAdd (sum + ((high.toUInt32 <<< 8) ||| low.toUInt32)) rest

def checksumFold (sum : UInt32) : UInt16 := (carryFold sum.toNat sum).toUInt16

def checksumValid : Bool := checksumFold (checksumAdd 0 bytes) = 0xFFFF

def transportChecksumValid (source destination : List UInt8) (protocol : UInt8)
    (segment : List UInt8) : Bool :=
  if source.length ≠ 4 ∨ destination.length ≠ 4 ∨ segment.length > 0xFFFF then false
  else
    let sum := checksumAdd 0 source
    let sum := checksumAdd sum destination
    let sum := sum + protocol.toUInt32
    let sum := sum + UInt32.ofNat segment.length
    checksumFold (checksumAdd sum segment) = 0xFFFF

/-! ## Inspection -/

/-- `if bad { return Err(status) }`. -/
def rejectIf (bad : Bool) (status : NetStatus) : Except NetStatus Unit :=
  if bad then .error status else .ok ()

/-- `value.ok_or(status)?`. -/
def okOr {α : Type} (value : Option α) (status : NetStatus) : Except NetStatus α :=
  match value with
  | some a => .ok a
  | none => .error status

/-- The slices the transport checks work on. -/
structure TransportView where
  source : List UInt8
  destination : List UInt8
  transport : List UInt8
  deriving DecidableEq

variable (frame : List UInt8)

/-- The part up to the transport header. -/
def inspectHeader : Except NetStatus (PacketSummary × TransportView) := do
  rejectIf (frame.length < 34 ∨ frame.length > maxFrame) .invalid
  let etherType ← okOr (readBe16 frame 12) .invalid
  rejectIf (etherType ≠ 0x0800) .unsupported
  let ip ← okOr (slice frame 14 frame.length) .invalid
  rejectIf (ip[0]? ≠ some 0x45) .unsupported
  let totalLength ← okOr (readBe16 ip 2) .invalid
  rejectIf (totalLength.toNat < 20 ∨ totalLength.toNat > ip.length) .invalid
  let ipHeader ← okOr (slice ip 0 20) .invalid
  rejectIf (!checksumValid ipHeader) .checksum
  let fragmentation ← okOr (readBe16 ip 6) .invalid
  rejectIf (fragmentation &&& 0xBFFF ≠ 0) .fragment
  let ttl ← okOr ip[8]? .invalid
  rejectIf (ttl = 0) .invalid
  let protocol ← okOr ip[9]? .invalid
  let transport ← okOr (slice ip 20 totalLength.toNat) .invalid
  let source ← okOr (slice ip 12 16) .invalid
  let destination ← okOr (slice ip 16 20) .invalid
  let sourceIpv4 ← okOr (readBe32 ip 12) .invalid
  let destinationIpv4 ← okOr (readBe32 ip 16) .invalid
  return (⟨etherType, totalLength, protocol, 0, 0, sourceIpv4, destinationIpv4, 0, 0, 0⟩,
    ⟨source, destination, transport⟩)

variable (summary : PacketSummary) (view : TransportView)

def inspectUdp : Except NetStatus PacketSummary := do
  rejectIf (view.transport.length < 8) .invalid
  let udpLength ← okOr (readBe16 view.transport 4) .invalid
  rejectIf (udpLength.toNat ≠ view.transport.length ∨ udpLength.toNat < 8) .invalid
  let checksum ← okOr (readBe16 view.transport 6) .invalid
  rejectIf (checksum = 0 ∨ transportChecksumValid view.source view.destination summary.protocol
    view.transport = false) .checksum
  let sourcePort ← okOr (readBe16 view.transport 0) .invalid
  let destinationPort ← okOr (readBe16 view.transport 2) .invalid
  return { summary with
    transportHeaderLength := 8
    sourcePort := sourcePort
    destinationPort := destinationPort
    payloadLength := UInt16.ofNat (udpLength.toNat - 8) }

/-- The TCP flag combinations refused. -/
def badFlags (flags : UInt8) : Bool :=
  let syn := flags &&& 0x02 ≠ 0
  let rst := flags &&& 0x04 ≠ 0
  let fin := flags &&& 0x01 ≠ 0
  flags = 0 ∨ (syn ∧ (rst ∨ fin)) ∨ (rst ∧ fin)

def inspectTcp : Except NetStatus PacketSummary := do
  rejectIf (view.transport.length < 20) .invalid
  let offsetByte ← okOr view.transport[12]? .invalid
  let headerLength := (offsetByte >>> 4).toNat * 4
  rejectIf (headerLength < 20 ∨ headerLength > 60 ∨ headerLength > view.transport.length) .invalid
  rejectIf (offsetByte &&& 0x0E ≠ 0) .invalid
  let flags ← okOr view.transport[13]? .invalid
  rejectIf (badFlags flags) .invalid
  let checksum ← okOr (readBe16 view.transport 16) .invalid
  rejectIf (checksum = 0 ∨ transportChecksumValid view.source view.destination summary.protocol
    view.transport = false) .checksum
  let sourcePort ← okOr (readBe16 view.transport 0) .invalid
  let destinationPort ← okOr (readBe16 view.transport 2) .invalid
  return { summary with
    tcpFlags := flags
    transportHeaderLength := UInt16.ofNat headerLength
    sourcePort := sourcePort
    destinationPort := destinationPort
    payloadLength := UInt16.ofNat (view.transport.length - headerLength) }

def inspectTransport :
    Except NetStatus PacketSummary :=
  if summary.protocol = 17 then inspectUdp summary view
  else if summary.protocol = 6 then inspectTcp summary view
  else .error .unsupported

def inspectSlice : Except NetStatus PacketSummary := do
  let (summary, view) ← inspectHeader frame
  let summary ← inspectTransport summary view
  rejectIf (summary.sourcePort = 0 ∨ summary.destinationPort = 0) .invalid
  return summary

/-! ## Which frames are valid -/

/-- Byte `i` of a frame. -/
def byteAt (i : Nat) : Nat := (bytes.getD i 0).toNat

/-- The big-endian 16-bit number at `i`. -/
def be16At (i : Nat) : Nat := 256 * byteAt bytes i + byteAt bytes (i + 1)

/-- The big-endian 32-bit number at `i`. -/
def be32At (i : Nat) : Nat := 65536 * be16At bytes i + be16At bytes (i + 2)

/-- Bytes `first` up to `last`. -/
def bytesFrom (first last : Nat) : List UInt8 := (bytes.take last).drop first

/-- The IPv4 total length. -/
def totalLengthOf : Nat := be16At frame 16

/-- The transport protocol. -/
def protocolOf : Nat := byteAt frame 23

/-- What follows the IPv4 header, up to its total length. -/
def segmentOf : List UInt8 := bytesFrom frame 34 (14 + totalLengthOf frame)

/-- The words under the transport checksum: addresses, protocol and length, segment. -/
def transportWords : List Nat :=
  beWords (bytesFrom frame 26 30) ++ beWords (bytesFrom frame 30 34) ++
    [protocolOf frame, (segmentOf frame).length] ++ beWords (segmentOf frame)

structure ValidIpv4 (frame : List UInt8) : Prop where
  length_ge : 34 ≤ frame.length
  length_le : frame.length ≤ 1514
  ether_type : be16At frame 12 = 0x0800
  version : byteAt frame 14 = 0x45
  total_ge : 20 ≤ totalLengthOf frame
  total_le : totalLengthOf frame ≤ frame.length - 14
  checksum : ocSum (beWords (bytesFrom frame 14 34)) = 0xFFFF
  /-- Nothing but the don't-fragment bit. -/
  fragment : be16At frame 20 = 0 ∨ be16At frame 20 = 0x4000
  ttl : byteAt frame 22 ≠ 0

structure ValidUdp (frame : List UInt8) : Prop where
  protocol : protocolOf frame = 17
  length_ge : 8 ≤ (segmentOf frame).length
  length_field : be16At frame 38 = (segmentOf frame).length
  checksum_present : be16At frame 40 ≠ 0
  checksum : ocSum (transportWords frame) = 0xFFFF

/-- The TCP header length. -/
def dataOffsetOf : Nat := 4 * (byteAt frame 46 / 16)

/-- A TCP flag: FIN is bit 0, SYN bit 1, RST bit 2. -/
def tcpFlag (bit : Nat) : Prop := (byteAt frame 47).testBit bit = true

structure ValidTcp (frame : List UInt8) : Prop where
  protocol : protocolOf frame = 6
  offset_ge : 20 ≤ dataOffsetOf frame
  offset_le : dataOffsetOf frame ≤ 60
  offset_in : dataOffsetOf frame ≤ (segmentOf frame).length
  /-- The three reserved bits between the data offset and the flags. -/
  reserved : byteAt frame 46 / 2 % 8 = 0
  flags : byteAt frame 47 ≠ 0
  no_syn_rst : ¬ (tcpFlag frame 1 ∧ tcpFlag frame 2)
  no_syn_fin : ¬ (tcpFlag frame 1 ∧ tcpFlag frame 0)
  no_rst_fin : ¬ (tcpFlag frame 2 ∧ tcpFlag frame 0)
  checksum : ocSum (transportWords frame) = 0xFFFF

structure ValidFrame (frame : List UInt8) : Prop where
  ipv4 : ValidIpv4 frame
  transport : ValidUdp frame ∨ ValidTcp frame
  source_port : be16At frame 34 ≠ 0
  destination_port : be16At frame 36 ≠ 0

/-- The length of the transport header. -/
def transportHeaderOf : Nat :=
  if protocolOf frame = 17 then 8 else dataOffsetOf frame

/-- A summary reports the frame's own fields. -/
structure Summarises (summary : PacketSummary) (frame : List UInt8) : Prop where
  ether_type : summary.etherType.toNat = be16At frame 12
  ip_total_length : summary.ipTotalLength.toNat = totalLengthOf frame
  protocol : summary.protocol.toNat = protocolOf frame
  tcp_flags : summary.tcpFlags.toNat = if protocolOf frame = 6 then byteAt frame 47 else 0
  header_length : summary.transportHeaderLength.toNat = transportHeaderOf frame
  source_ipv4 : summary.sourceIpv4.toNat = be32At frame 26
  destination_ipv4 : summary.destinationIpv4.toNat = be32At frame 30
  source_port : summary.sourcePort.toNat = be16At frame 34
  destination_port : summary.destinationPort.toNat = be16At frame 36
  payload_length : summary.payloadLength.toNat =
    totalLengthOf frame - 20 - transportHeaderOf frame

/-! ## Reads are bytes of the frame -/

theorem byteAt_lt (i : Nat) : byteAt bytes i < 256 := (bytes.getD i 0).toNat_lt

theorem be16At_lt (i : Nat) : be16At bytes i < 65536 := by
  have h1 := byteAt_lt bytes i
  have h2 := byteAt_lt bytes (i + 1)
  unfold be16At
  omega

variable {bytes}

theorem slice_eq (h : first ≤ last) (hle : last ≤ bytes.length) :
    slice bytes first last = some (bytesFrom bytes first last) := by
  simp [slice, bytesFrom, h, hle]

theorem bytesFrom_length (hle : last ≤ bytes.length) :
    (bytesFrom bytes first last).length = last - first := by
  simp [bytesFrom, hle]

theorem byteAt_bytesFrom (hlt : first + k < last) :
    byteAt (bytesFrom bytes first last) k = byteAt bytes (first + k) := by
  simp [byteAt, bytesFrom, List.getD_eq_getElem?_getD, List.getElem?_drop, hlt]

theorem bytesFrom_bytesFrom {a b : Nat} (hle : first + b ≤ last) :
    bytesFrom (bytesFrom bytes first last) a b = bytesFrom bytes (first + a) (first + b) := by
  unfold bytesFrom
  rw [List.take_drop, List.take_take, List.drop_drop, Nat.min_eq_left (by omega)]

theorem be16At_bytesFrom (hlt : first + k + 1 < last) :
    be16At (bytesFrom bytes first last) k = be16At bytes (first + k) := by
  unfold be16At
  rw [byteAt_bytesFrom (by omega), byteAt_bytesFrom (by omega)]
  rfl

theorem be32At_bytesFrom (hlt : first + k + 3 < last) :
    be32At (bytesFrom bytes first last) k = be32At bytes (first + k) := by
  unfold be32At
  rw [be16At_bytesFrom (by omega), be16At_bytesFrom (by omega)]
  rfl

theorem getElem?_eq_byte (h : i < bytes.length) : bytes[i]? = some (bytes.getD i 0) := by
  simp [List.getD_eq_getElem?_getD, h]

theorem bytesFrom_two (h : i + 2 ≤ bytes.length) :
    bytesFrom bytes i (i + 2) = [bytes.getD i 0, bytes.getD (i + 1) 0] := by
  apply List.ext_getElem
  · simp [bytesFrom_length h]
  · intro k h1 h2
    rw [bytesFrom_length h] at h1
    obtain rfl | rfl : k = 0 ∨ k = 1 := by omega
    · simp [bytesFrom, List.getD_eq_getElem?_getD, show i < bytes.length by omega]
    · simp [bytesFrom, List.getD_eq_getElem?_getD, show i + 1 < bytes.length by omega]

theorem readBe16_eq (h : i + 2 ≤ bytes.length) :
    readBe16 bytes i = some (UInt16.ofNat (be16At bytes i)) := by
  unfold readBe16
  rw [slice_eq (by omega) h, bytesFrom_two h]
  dsimp only
  congr 1
  rw [← UInt16.toNat_inj, UInt16.or_comm, pair_toNat, UInt16.toNat_ofNat',
    Nat.mod_eq_of_lt (be16At_lt bytes i)]
  exact Nat.add_comm ..

theorem word_toNat (first second third fourth : UInt8) :
    ((first.toUInt32 <<< 24) ||| (second.toUInt32 <<< 16) ||| (third.toUInt32 <<< 8) |||
      fourth.toUInt32).toNat =
    65536 * (256 * first.toNat + second.toNat) + (256 * third.toNat + fourth.toNat) := by
  rw [UInt32.or_comm, UInt32.or_comm _ (third.toUInt32 <<< 8),
    UInt32.or_comm (first.toUInt32 <<< 24), ← UInt32.or_assoc, ← UInt32.or_assoc, quad_toNat]
  omega

theorem bytesFrom_four (h : i + 4 ≤ bytes.length) :
    bytesFrom bytes i (i + 4) =
      [bytes.getD i 0, bytes.getD (i + 1) 0, bytes.getD (i + 2) 0, bytes.getD (i + 3) 0] := by
  apply List.ext_getElem
  · simp [bytesFrom_length h]
  · intro k h1 h2
    rw [bytesFrom_length h] at h1
    obtain rfl | rfl | rfl | rfl : k = 0 ∨ k = 1 ∨ k = 2 ∨ k = 3 := by omega
    · simp [bytesFrom, List.getD_eq_getElem?_getD, show i < bytes.length by omega]
    · simp [bytesFrom, List.getD_eq_getElem?_getD, show i + 1 < bytes.length by omega]
    · simp [bytesFrom, List.getD_eq_getElem?_getD, show i + 2 < bytes.length by omega]
    · simp [bytesFrom, List.getD_eq_getElem?_getD, show i + 3 < bytes.length by omega]

theorem be32At_lt (bytes : List UInt8) (i : Nat) : be32At bytes i < 2 ^ 32 := by
  have h1 := be16At_lt bytes i
  have h2 := be16At_lt bytes (i + 2)
  unfold be32At
  omega

theorem readBe32_eq (h : i + 4 ≤ bytes.length) :
    readBe32 bytes i = some (UInt32.ofNat (be32At bytes i)) := by
  unfold readBe32
  rw [slice_eq (by omega) h, bytesFrom_four h]
  dsimp only
  congr 1
  rw [← UInt32.toNat_inj, word_toNat, UInt32.toNat_ofNat', Nat.mod_eq_of_lt (be32At_lt bytes i)]
  rfl

/-! ## The code's checksums are one's complement sums -/

theorem pair32_toNat (high low : UInt8) :
    ((high.toUInt32 <<< 8) ||| low.toUInt32).toNat = 256 * high.toNat + low.toNat := by
  have h1 := high.toNat_lt
  rw [UInt32.or_comm, UInt32.toNat_or, UInt32.toNat_shiftLeft, UInt8.toNat_toUInt32,
    UInt8.toNat_toUInt32, Nat.add_comm]
  exact nat_join (k := 8) low.toNat_lt (by omega)

/-- The running sum does not wrap as long as the exact sum fits. -/
theorem checksumAdd_toNat (bytes : List UInt8) (sum : UInt32)
    (hlt : sum.toNat + (beWords bytes).sum < 2 ^ 32) :
    (checksumAdd sum bytes).toNat = sum.toNat + (beWords bytes).sum := by
  induction bytes using beWords.induct generalizing sum with
  | case1 => simp [checksumAdd, beWords]
  | case2 last =>
    have h := last.toNat_lt
    simp only [beWords, List.sum_singleton] at hlt
    simp only [checksumAdd, beWords, List.sum_singleton]
    rw [UInt32.toNat_add, UInt32.toNat_shiftLeft, UInt8.toNat_toUInt32,
      show (8 : UInt32).toNat % 32 = 8 from rfl, Nat.shiftLeft_eq]
    omega
  | case3 high low rest ih =>
    simp only [beWords, List.sum_cons] at hlt
    have hstep : (sum + ((high.toUInt32 <<< 8) ||| low.toUInt32)).toNat =
        sum.toNat + (256 * high.toNat + low.toNat) := by
      rw [UInt32.toNat_add, pair32_toNat]
      omega
    simp only [checksumAdd, beWords, List.sum_cons]
    rw [ih _ (by rw [hstep]; omega), hstep]
    omega

theorem checksumAdd_zero (bytes : List UInt8) (hlen : bytes.length ≤ 65535) :
    (checksumAdd 0 bytes).toNat = (beWords bytes).sum := by
  have hsum := beWords_sum_le bytes
  rw [checksumAdd_toNat bytes 0 (by rw [UInt32.toNat_zero]; omega), UInt32.toNat_zero, Nat.zero_add]

theorem checksumFold_rep (sum : UInt32) : OcRep (checksumFold sum).toNat sum.toNat := by
  have h := carryFold_rep sum.toNat sum (Nat.le_refl _)
  have hlt := h.lt
  have heq : (checksumFold sum).toNat = (carryFold sum.toNat sum).toNat := by
    unfold checksumFold
    rw [UInt32.toNat_toUInt16]
    omega
  rw [heq]
  exact h

theorem checksumFold_all_ones (sum : UInt32) (words : List Nat) (hw : ∀ w ∈ words, w < 65536)
    (hsum : sum.toNat = words.sum) : checksumFold sum = 0xFFFF ↔ ocSum words = 0xFFFF := by
  rw [← UInt16.toNat_inj]
  have h := checksumFold_rep sum
  rw [hsum] at h
  exact h.congr (ocSum_rep words hw)

theorem checksumValid_iff (bytes : List UInt8) (hlen : bytes.length ≤ 65535) :
    checksumValid bytes = true ↔ ocSum (beWords bytes) = 0xFFFF := by
  unfold checksumValid
  rw [decide_eq_true_iff]
  exact checksumFold_all_ones _ _ (beWords_lt bytes) (checksumAdd_zero bytes hlen)

/-- What the transport checksums add up: the addresses, the protocol, the length and as much of the
    segment as is given. -/
def transportSum (source destination : List UInt8) (protocol : UInt8) (length : Nat)
    (segment : List UInt8) : UInt32 :=
  checksumAdd (checksumAdd (checksumAdd 0 source) destination + protocol.toUInt32 +
    UInt32.ofNat length) segment

theorem transportSum_toNat {source destination segment : List UInt8} (protocol : UInt8)
    {length : Nat} (hs : source.length = 4) (hd : destination.length = 4) (hlength : length ≤ 65535)
    (hlen : segment.length ≤ 65535) :
    (transportSum source destination protocol length segment).toNat =
      (beWords source ++ beWords destination ++ [protocol.toNat, length] ++
        beWords segment).sum := by
  have hp := protocol.toNat_lt
  have hsrc := beWords_sum_le source
  have hdst := beWords_sum_le destination
  have hseg := beWords_sum_le segment
  rw [hs] at hsrc
  rw [hd] at hdst
  have h1 : (checksumAdd 0 source).toNat = (beWords source).sum :=
    checksumAdd_zero source (by omega)
  have h2 : (checksumAdd (checksumAdd 0 source) destination).toNat =
      (beWords source).sum + (beWords destination).sum := by
    rw [checksumAdd_toNat destination _ (by omega), h1]
  have h3 : (checksumAdd (checksumAdd 0 source) destination + protocol.toUInt32 +
      UInt32.ofNat length).toNat =
      (beWords source).sum + (beWords destination).sum + protocol.toNat + length := by
    rw [UInt32.toNat_add, UInt32.toNat_add, h2, UInt8.toNat_toUInt32, UInt32.toNat_ofNat']
    omega
  unfold transportSum
  rw [checksumAdd_toNat segment _ (by omega), h3]
  simp only [List.sum_append, List.sum_cons, List.sum_nil]
  omega

theorem transportChecksumValid_iff {source destination segment : List UInt8} (protocol : UInt8)
    (hs : source.length = 4) (hd : destination.length = 4) (hlen : segment.length ≤ 65535) :
    transportChecksumValid source destination protocol segment = true ↔
      ocSum (beWords source ++ beWords destination ++ [protocol.toNat, segment.length] ++
        beWords segment) = 0xFFFF := by
  have hp := protocol.toNat_lt
  have hcond : ¬ (source.length ≠ 4 ∨ destination.length ≠ 4 ∨ segment.length > 0xFFFF) := by omega
  unfold transportChecksumValid
  rw [if_neg hcond]
  dsimp only
  rw [decide_eq_true_iff]
  refine checksumFold_all_ones _ _ (fun w hw => ?_) (transportSum_toNat protocol hs hd hlen hlen)
  simp only [List.mem_append, List.mem_cons, List.not_mem_nil, or_false] at hw
  rcases hw with ((hw | hw) | (hw | hw)) | hw
  · exact beWords_lt source w hw
  · exact beWords_lt destination w hw
  · omega
  · omega
  · exact beWords_lt segment w hw

/-! ## What the checks accept -/

section Accept

variable {α β : Type}

theorem rejectIf_bind {bad : Bool} {f : Unit → Except NetStatus β} {r : β} :
    (rejectIf bad status >>= f) = .ok r ↔ bad = false ∧ f () = .ok r := by
  cases bad <;> simp [rejectIf, bind, Except.bind]

theorem rejectIf_ok {bad : Bool} {u : Unit} : rejectIf bad status = .ok u ↔ bad = false := by
  cases bad <;> simp [rejectIf]

theorem okOr_bind {value : Option α} {f : α → Except NetStatus β} {r : β} :
    (okOr value status >>= f) = .ok r ↔ ∃ a, value = some a ∧ f a = .ok r := by
  cases value <;> simp [okOr, bind, Except.bind]

theorem except_bind {e : Except NetStatus α} {f : α → Except NetStatus β} {r : β} :
    (e >>= f) = .ok r ↔ ∃ a, e = .ok a ∧ f a = .ok r := by
  cases e <;> simp [bind, Except.bind]

theorem pure_eq_ok {a r : β} : (pure a : Except NetStatus β) = .ok r ↔ a = r := by
  simp [pure, Except.pure]

end Accept

/-- What the header part hands on for a frame. -/
def headerOf (frame : List UInt8) : PacketSummary × TransportView :=
  (⟨UInt16.ofNat (be16At frame 12), UInt16.ofNat (totalLengthOf frame), frame.getD 23 0, 0, 0,
    UInt32.ofNat (be32At frame 26), UInt32.ofNat (be32At frame 30), 0, 0, 0⟩,
   ⟨bytesFrom frame 26 30, bytesFrom frame 30 34, segmentOf frame⟩)

theorem ofNat16_toNat (h : n < 65536) : (UInt16.ofNat n).toNat = n := by
  rw [UInt16.toNat_ofNat']
  exact Nat.mod_eq_of_lt h

/-- Only the don't-fragment bit may be set. -/
theorem fragment_iff (h : n < 65536) : UInt16.ofNat n &&& 0xBFFF = 0 ↔ n = 0 ∨ n = 0x4000 := by
  have hsplit : n &&& 0xBFFF = (n &&& 2 ^ 15) + (n % 2 ^ 14) := by
    have e1 : (0xBFFF : Nat) = 2 ^ 15 ||| (2 ^ 14 - 1) := by decide
    rw [e1, Nat.and_or_distrib_left, Nat.and_two_pow_sub_one_eq_mod, nat_and_bit]
    exact nat_or_of_lt (k := 15) (by omega) (by omega)
  rw [← UInt16.toNat_inj, UInt16.toNat_and, ofNat16_toNat h,
    show (0xBFFF : UInt16).toNat = 0xBFFF from rfl, hsplit, nat_and_bit,
    show (0 : UInt16).toNat = 0 from rfl]
  omega

/-- The reads of the header part, for a frame that is long enough. -/
structure HeaderReads (frame ip : List UInt8) : Prop where
  ether_type : readBe16 frame 12 = some (UInt16.ofNat (be16At frame 12))
  ip_slice : slice frame 14 frame.length = some ip
  length : ip.length = frame.length - 14
  version : ip[0]? = some (frame.getD 14 0)
  total : readBe16 ip 2 = some (UInt16.ofNat (totalLengthOf frame))
  header : slice ip 0 20 = some (bytesFrom frame 14 34)
  fragmentation : readBe16 ip 6 = some (UInt16.ofNat (be16At frame 20))
  ttl : ip[8]? = some (frame.getD 22 0)
  protocol : ip[9]? = some (frame.getD 23 0)
  transport : ∀ total, 20 ≤ total → total ≤ frame.length - 14 →
    slice ip 20 total = some (bytesFrom frame 34 (14 + total))
  source : slice ip 12 16 = some (bytesFrom frame 26 30)
  destination : slice ip 16 20 = some (bytesFrom frame 30 34)
  source_ipv4 : readBe32 ip 12 = some (UInt32.ofNat (be32At frame 26))
  destination_ipv4 : readBe32 ip 16 = some (UInt32.ofNat (be32At frame 30))

theorem headerReads {frame : List UInt8} (hlen : 34 ≤ frame.length) :
    HeaderReads frame (bytesFrom frame 14 frame.length) := by
  have hip : (bytesFrom frame 14 frame.length).length = frame.length - 14 :=
    bytesFrom_length (Nat.le_refl _)
  have hbyte : ∀ k, k < 20 → (bytesFrom frame 14 frame.length)[k]? =
    some (frame.getD (14 + k) 0) := by
    intro k hk
    rw [getElem?_eq_byte (by omega)]
    congr 1
    rw [← UInt8.toNat_inj]
    exact byteAt_bytesFrom (by omega)
  have hslice : ∀ a b, a ≤ b → b ≤ frame.length - 14 →
      slice (bytesFrom frame 14 frame.length) a b = some (bytesFrom frame (14 + a) (14 + b)) := by
    intro a b hab hb
    rw [slice_eq hab (by omega), bytesFrom_bytesFrom (by omega)]
  have hword : ∀ k, k + 2 ≤ 20 → readBe16 (bytesFrom frame 14 frame.length) k =
      some (UInt16.ofNat (be16At frame (14 + k))) := by
    intro k hk
    rw [readBe16_eq (by omega), be16At_bytesFrom (by omega)]
  have hlong : ∀ k, k + 4 ≤ 20 → readBe32 (bytesFrom frame 14 frame.length) k =
      some (UInt32.ofNat (be32At frame (14 + k))) := by
    intro k hk
    rw [readBe32_eq (by omega), be32At_bytesFrom (by omega)]
  exact {
    ether_type := readBe16_eq (by omega)
    ip_slice := slice_eq (by omega) (Nat.le_refl _)
    length := hip
    version := hbyte 0 (by decide)
    total := hword 2 (by decide)
    header := hslice 0 20 (by decide) (by omega)
    fragmentation := hword 6 (by decide)
    ttl := hbyte 8 (by decide)
    protocol := hbyte 9 (by decide)
    transport := fun total h1 h2 => hslice 20 total h1 h2
    source := hslice 12 16 (by decide) (by omega)
    destination := hslice 16 20 (by decide) (by omega)
    source_ipv4 := hlong 12 (by decide)
    destination_ipv4 := hlong 16 (by decide) }

theorem inspectHeader_ok (frame : List UInt8) (r : PacketSummary × TransportView) :
    inspectHeader frame = .ok r ↔ ValidIpv4 frame ∧ r = headerOf frame := by
  by_cases hlen : 34 ≤ frame.length ∧ frame.length ≤ 1514
  · obtain ⟨hge, hle⟩ := hlen
    have hr := headerReads hge
    generalize bytesFrom frame 14 frame.length = ip at hr
    have htotal : (UInt16.ofNat (totalLengthOf frame)).toNat = totalLengthOf frame :=
      ofNat16_toNat (be16At_lt frame 16)
    have hheader : (bytesFrom frame 14 34).length ≤ 65535 := by
      rw [bytesFrom_length hge]
      decide
    unfold inspectHeader
    simp only [rejectIf_bind, okOr_bind, pure_eq_ok, hr.ether_type, hr.ip_slice, hr.version,
      hr.total, hr.header, hr.fragmentation, hr.ttl, hr.protocol, hr.source, hr.destination,
      hr.source_ipv4,
      hr.destination_ipv4, Option.some.injEq, exists_eq_left', htotal, hr.length,
      decide_eq_false_iff_not, Bool.not_eq_false', checksumValid_iff _ hheader, not_not]
    constructor
    · rintro ⟨_, hether, hver, htot, hsum, hfrag, httl, transport, htr, rfl⟩
      rw [not_or] at htot
      have hge' : 20 ≤ totalLengthOf frame := by omega
      have hle' : totalLengthOf frame ≤ frame.length - 14 := by omega
      rw [hr.transport _ hge' hle'] at htr
      cases htr
      refine ⟨⟨hge, hle, ?_, ?_, hge', hle', hsum, ?_, ?_⟩, rfl⟩
      · rw [← ofNat16_toNat (be16At_lt frame 12), hether]
        rfl
      · exact congrArg UInt8.toNat hver
      · exact (fragment_iff (be16At_lt frame 20)).mp hfrag
      · intro h0
        exact httl (UInt8.toNat_inj.mp h0)
    · rintro ⟨hv, rfl⟩
      refine ⟨?_, ?_, ?_, ?_, hv.checksum, ?_, ?_, segmentOf frame, ?_, rfl⟩
      · unfold maxFrame
        omega
      · rw [hv.ether_type]
        rfl
      · exact UInt8.toNat_inj.mp hv.version
      · have h1 := hv.total_ge
        have h2 := hv.total_le
        omega
      · exact (fragment_iff (be16At_lt frame 20)).mpr hv.fragment
      · intro h0
        exact hv.ttl (congrArg UInt8.toNat h0)
      · exact hr.transport _ hv.total_ge hv.total_le
  · constructor
    · intro h
      unfold inspectHeader at h
      rw [rejectIf_bind, decide_eq_false_iff_not] at h
      unfold maxFrame at h
      omega
    · rintro ⟨hv, _⟩
      exact absurd ⟨hv.length_ge, hv.length_le⟩ hlen

/-! ## The transport checks -/

section Transport

variable {frame : List UInt8}

theorem segmentOf_length (hv : ValidIpv4 frame) :
    (segmentOf frame).length = totalLengthOf frame - 20 := by
  have h1 := hv.total_ge
  have h2 := hv.total_le
  have h3 := hv.length_ge
  unfold segmentOf
  rw [bytesFrom_length (by omega)]
  omega

theorem segmentOf_read (hv : ValidIpv4 frame) (hk : k + 2 ≤ (segmentOf frame).length) :
    readBe16 (segmentOf frame) k = some (UInt16.ofNat (be16At frame (34 + k))) := by
  have hlen := segmentOf_length hv
  rw [readBe16_eq hk]
  unfold segmentOf
  rw [be16At_bytesFrom (by omega)]

theorem segmentOf_byte (hv : ValidIpv4 frame) (hk : k < (segmentOf frame).length) :
    (segmentOf frame)[k]? = some (frame.getD (34 + k) 0) := by
  have hlen := segmentOf_length hv
  rw [getElem?_eq_byte hk]
  congr 1
  rw [← UInt8.toNat_inj]
  exact byteAt_bytesFrom (by omega)

theorem transportChecksum_frame (hv : ValidIpv4 frame) :
    transportChecksumValid (headerOf frame).2.source (headerOf frame).2.destination
      (headerOf frame).1.protocol (headerOf frame).2.transport = true ↔
    ocSum (transportWords frame) = 0xFFFF := by
  have h1 := hv.total_ge
  have h2 := hv.total_le
  have h3 := hv.length_ge
  have h4 := hv.length_le
  apply transportChecksumValid_iff
  · exact bytesFrom_length (by omega)
  · exact bytesFrom_length (by omega)
  · show (segmentOf frame).length ≤ 65535
    rw [segmentOf_length hv]
    omega

theorem ofNat16_eq_zero (h : n < 65536) : UInt16.ofNat n = 0 ↔ n = 0 := by
  rw [← UInt16.toNat_inj, ofNat16_toNat h]
  rfl

/-- The summary of an accepted UDP frame. -/
def udpSummary (frame : List UInt8) : PacketSummary :=
  { (headerOf frame).1 with
    transportHeaderLength := 8
    sourcePort := UInt16.ofNat (be16At frame 34)
    destinationPort := UInt16.ofNat (be16At frame 36)
    payloadLength := UInt16.ofNat (be16At frame 38 - 8) }

theorem inspectUdp_ok (hv : ValidIpv4 frame) (hproto : protocolOf frame = 17) (s : PacketSummary) :
    inspectUdp (headerOf frame).1 (headerOf frame).2 = .ok s ↔
      ValidUdp frame ∧ s = udpSummary frame := by
  have hview : (headerOf frame).2.transport = segmentOf frame := rfl
  by_cases hlen : 8 ≤ (segmentOf frame).length
  · have hfield : (UInt16.ofNat (be16At frame (34 + 4))).toNat = be16At frame 38 :=
      ofNat16_toNat (be16At_lt frame 38)
    have hsum := transportChecksum_frame hv
    rw [hview] at hsum
    unfold inspectUdp
    simp only [rejectIf_bind, okOr_bind, pure_eq_ok, hview, segmentOf_read hv (k := 4) (by omega),
      segmentOf_read hv (k := 6) (by omega), segmentOf_read hv (k := 0) (by omega),
      segmentOf_read hv (k := 2) (by omega), Option.some.injEq, exists_eq_left', hfield,
      decide_eq_false_iff_not, ofNat16_eq_zero (be16At_lt _ _), not_or, Bool.not_eq_false, hsum]
    constructor
    · rintro ⟨_, ⟨heq, _⟩, ⟨hne, hok⟩, rfl⟩
      exact ⟨⟨hproto, hlen, not_not.mp heq, hne, hok⟩, rfl⟩
    · rintro ⟨hu, rfl⟩
      refine ⟨by omega, ⟨not_not.mpr hu.length_field, ?_⟩, ⟨hu.checksum_present, hu.checksum⟩, rfl⟩
      rw [hu.length_field]
      omega
  · constructor
    · intro h
      unfold inspectUdp at h
      rw [rejectIf_bind, decide_eq_false_iff_not, hview] at h
      omega
    · rintro ⟨hu, _⟩
      exact absurd hu.length_ge hlen

/-- The summary of an accepted TCP frame. -/
def tcpSummary (frame : List UInt8) : PacketSummary :=
  { (headerOf frame).1 with
    tcpFlags := frame.getD 47 0
    transportHeaderLength := UInt16.ofNat (dataOffsetOf frame)
    sourcePort := UInt16.ofNat (be16At frame 34)
    destinationPort := UInt16.ofNat (be16At frame 36)
    payloadLength := UInt16.ofNat ((segmentOf frame).length - dataOffsetOf frame) }

theorem dataOffset_eq (frame : List UInt8) :
    ((frame.getD 46 0) >>> 4).toNat * 4 = dataOffsetOf frame := by
  rw [UInt8.toNat_shiftRight, show (4 : UInt8).toNat % 8 = 4 from rfl, Nat.shiftRight_eq_div_pow]
  unfold dataOffsetOf byteAt
  omega

theorem reserved_iff (byte : UInt8) : byte &&& 0x0E = 0 ↔ byte.toNat / 2 % 8 = 0 := by
  revert byte
  exact forall_byte (by decide)

theorem badFlags_iff (flags : UInt8) : badFlags flags = false ↔
    flags.toNat ≠ 0 ∧ ¬ (flags.toNat.testBit 1 = true ∧ flags.toNat.testBit 2 = true) ∧
      ¬ (flags.toNat.testBit 1 = true ∧ flags.toNat.testBit 0 = true) ∧
      ¬ (flags.toNat.testBit 2 = true ∧ flags.toNat.testBit 0 = true) := by
  revert flags
  exact forall_byte (by decide)

/-- A TCP segment is accepted when it is valid and its checksum field is not zero. -/
theorem inspectTcp_ok (hv : ValidIpv4 frame) (hproto : protocolOf frame = 6) (s : PacketSummary) :
    inspectTcp (headerOf frame).1 (headerOf frame).2 = .ok s ↔
      (ValidTcp frame ∧ be16At frame 50 ≠ 0) ∧ s = tcpSummary frame := by
  have hview : (headerOf frame).2.transport = segmentOf frame := rfl
  by_cases hlen : 20 ≤ (segmentOf frame).length
  · have hsum := transportChecksum_frame hv
    rw [hview] at hsum
    have hoffset : (segmentOf frame)[12]? = some (frame.getD 46 0) := segmentOf_byte hv (by omega)
    have hflags : (segmentOf frame)[13]? = some (frame.getD 47 0) := segmentOf_byte hv (by omega)
    unfold inspectTcp
    simp only [rejectIf_bind, okOr_bind, pure_eq_ok, hview, hoffset, hflags,
      segmentOf_read hv (k := 16) (by omega), segmentOf_read hv (k := 0) (by omega),
      segmentOf_read hv (k := 2) (by omega),
      Option.some.injEq, exists_eq_left', dataOffset_eq, decide_eq_false_iff_not, not_not,
      ofNat16_eq_zero (be16At_lt _ _), not_or, Bool.not_eq_false, hsum, reserved_iff, badFlags_iff]
    constructor
    · rintro ⟨_, ⟨h1, h2, h3⟩, hres, ⟨hf0, hf1, hf2, hf3⟩, ⟨hne, hok⟩, rfl⟩
      exact ⟨⟨⟨hproto, by omega, by omega, by omega, hres, hf0, hf1, hf2, hf3, hok⟩, hne⟩, rfl⟩
    · rintro ⟨⟨ht, hne⟩, rfl⟩
      have h1 := ht.offset_ge
      have h2 := ht.offset_le
      have h3 := ht.offset_in
      exact ⟨by omega, ⟨by omega, by omega, by omega⟩, ht.reserved,
        ⟨ht.flags, ht.no_syn_rst, ht.no_syn_fin, ht.no_rst_fin⟩, ⟨hne, ht.checksum⟩, rfl⟩
  · constructor
    · intro h
      unfold inspectTcp at h
      rw [rejectIf_bind, decide_eq_false_iff_not, hview] at h
      omega
    · rintro ⟨⟨ht, _⟩, _⟩
      have h1 := ht.offset_ge
      have h2 := ht.offset_in
      omega

end Transport

/-! ## What a refusal says -/

/-- The statuses inspection refuses with. -/
def Refusal (status : NetStatus) : Prop :=
  status = .invalid ∨ status = .unsupported ∨ status = .checksum ∨ status = .fragment

instance (status : NetStatus) : Decidable (Refusal status) := inferInstanceAs (Decidable (_ ∨ _))

/-- Whenever this fails, it fails with a refusal. -/
def RefusesOnly {α : Type} (e : Except NetStatus α) : Prop :=
  ∀ status, e = .error status → Refusal status

section Refuses

variable {α β : Type}

theorem RefusesOnly.bind {e : Except NetStatus α} {f : α → Except NetStatus β}
    (he : RefusesOnly e) (hf : ∀ a, RefusesOnly (f a)) : RefusesOnly (e >>= f) := by
  intro status h
  cases e with
  | error st =>
    cases h
    exact he _ rfl
  | ok a => exact hf a status h

theorem RefusesOnly.rejectIf (bad : Bool) (h : Refusal status) :
    RefusesOnly (rejectIf bad status) := by
  intro st hst
  cases bad <;> simp [Net.rejectIf] at hst
  rwa [← hst]

theorem RefusesOnly.okOr (value : Option α) (h : Refusal status) :
    RefusesOnly (okOr value status) := by
  intro st hst
  cases value <;> simp [Net.okOr] at hst
  rwa [← hst]

theorem RefusesOnly.error (h : Refusal status) :
    RefusesOnly (.error status : Except NetStatus α) := by
  rintro st ⟨⟩
  exact h

theorem RefusesOnly.pure (a : α) : RefusesOnly (pure a : Except NetStatus α) := by
  intro st hst
  cases hst

end Refuses

variable (frame : List UInt8)

theorem inspectHeader_refuses : RefusesOnly (inspectHeader frame) := by
  unfold inspectHeader
  repeat' first
    | exact RefusesOnly.pure _
    | exact RefusesOnly.rejectIf _ (by decide)
    | exact RefusesOnly.okOr _ (by decide)
    | apply RefusesOnly.bind
    | intro _

theorem inspectTransport_refuses : RefusesOnly (inspectTransport summary view) := by
  unfold inspectTransport inspectUdp inspectTcp
  repeat' first
    | exact RefusesOnly.pure _
    | exact RefusesOnly.rejectIf _ (by decide)
    | exact RefusesOnly.okOr _ (by decide)
    | exact RefusesOnly.error (by decide)
    | apply RefusesOnly.bind
    | split
    | intro _

theorem inspectSlice_refuses : RefusesOnly (inspectSlice frame) := by
  apply RefusesOnly.bind (inspectHeader_refuses frame)
  rintro ⟨summary, view⟩
  apply RefusesOnly.bind (inspectTransport_refuses summary view)
  intro summary
  exact (RefusesOnly.rejectIf _ (by decide)).bind fun _ => RefusesOnly.pure _

/-! ## The frames accepted -/

/-- A valid TCP frame whose checksum happens to be zero. -/
def ZeroTcpChecksum : Prop :=
  ValidFrame frame ∧ protocolOf frame = 6 ∧ be16At frame 50 = 0

/-- The summary of an accepted frame. -/
def summaryOf : PacketSummary :=
  if protocolOf frame = 17 then udpSummary frame else tcpSummary frame

theorem inspectSlice_ok (s : PacketSummary) :
    inspectSlice frame = .ok s ↔
      (ValidFrame frame ∧ ¬ ZeroTcpChecksum frame) ∧ s = summaryOf frame := by
  have hports : ∀ {summary : PacketSummary},
      summary.sourcePort = UInt16.ofNat (be16At frame 34) →
      summary.destinationPort = UInt16.ofNat (be16At frame 36) →
      (decide (summary.sourcePort = 0 ∨ summary.destinationPort = 0) = false ↔
        be16At frame 34 ≠ 0 ∧ be16At frame 36 ≠ 0) := by
    intro summary h1 h2
    rw [h1, h2, decide_eq_false_iff_not, ofNat16_eq_zero (be16At_lt _ _),
      ofNat16_eq_zero (be16At_lt _ _), not_or]
  have hword : ∀ n : UInt8, n.toNat = protocolOf frame → (headerOf frame).1.protocol = n := by
    intro n hn
    exact UInt8.toNat_inj.mp hn.symm
  unfold inspectSlice
  simp only [except_bind, rejectIf_ok, exists_const, pure_eq_ok, inspectHeader_ok]
  constructor
  · rintro ⟨r, ⟨hv, rfl⟩, summary, htr, hp, rfl⟩
    unfold inspectTransport at htr
    by_cases hudp : protocolOf frame = 17
    · rw [if_pos (hword 17 hudp.symm), inspectUdp_ok hv hudp] at htr
      obtain ⟨hu, rfl⟩ := htr
      rw [hports rfl rfl] at hp
      refine ⟨⟨⟨hv, Or.inl hu, hp.1, hp.2⟩, ?_⟩, by rw [summaryOf, if_pos hudp]⟩
      rintro ⟨_, h6, _⟩
      omega
    · have hne : (headerOf frame).1.protocol ≠ 17 := fun hc => hudp (congrArg UInt8.toNat hc)
      rw [if_neg hne] at htr
      by_cases htcp : protocolOf frame = 6
      · rw [if_pos (hword 6 htcp.symm), inspectTcp_ok hv htcp] at htr
        obtain ⟨⟨ht, hsum⟩, rfl⟩ := htr
        rw [hports rfl rfl] at hp
        refine ⟨⟨⟨hv, Or.inr ht, hp.1, hp.2⟩, ?_⟩, by rw [summaryOf, if_neg hudp]⟩
        rintro ⟨_, _, h0⟩
        exact hsum h0
      · have hne' : (headerOf frame).1.protocol ≠ 6 := fun hc => htcp (congrArg UInt8.toNat hc)
        rw [if_neg hne'] at htr
        cases htr
  · rintro ⟨⟨hvalid, hzero⟩, rfl⟩
    have hv := hvalid.ipv4
    refine ⟨headerOf frame, ⟨hv, rfl⟩, summaryOf frame, ?_, ?_, rfl⟩
    · unfold inspectTransport
      rcases hvalid.transport with hu | ht
      · rw [if_pos (hword 17 hu.protocol.symm), inspectUdp_ok hv hu.protocol, summaryOf,
          if_pos hu.protocol]
        exact ⟨hu, rfl⟩
      · have hudp : protocolOf frame ≠ 17 := by
          rw [ht.protocol]
          decide
        have hne : (headerOf frame).1.protocol ≠ 17 := fun hc => hudp (congrArg UInt8.toNat hc)
        rw [if_neg hne, if_pos (hword 6 ht.protocol.symm), inspectTcp_ok hv ht.protocol, summaryOf,
          if_neg hudp]
        exact ⟨⟨ht, fun h0 => hzero ⟨hvalid, ht.protocol, h0⟩⟩, rfl⟩
    · have hs : (summaryOf frame).sourcePort = UInt16.ofNat (be16At frame 34) ∧
          (summaryOf frame).destinationPort = UInt16.ofNat (be16At frame 36) := by
        unfold summaryOf
        split
        · exact ⟨rfl, rfl⟩
        · exact ⟨rfl, rfl⟩
      rw [hports hs.1 hs.2]
      exact ⟨hvalid.source_port, hvalid.destination_port⟩

theorem summaryOf_summarises {frame : List UInt8} (hvalid : ValidFrame frame) :
    Summarises (summaryOf frame) frame := by
  have hv := hvalid.ipv4
  have hlen := segmentOf_length hv
  have htotal := be16At_lt frame 16
  have hge := hv.total_ge
  have hheader : ∀ {s : PacketSummary}, s.etherType = (headerOf frame).1.etherType →
      s.ipTotalLength = (headerOf frame).1.ipTotalLength →
      s.protocol = (headerOf frame).1.protocol → s.sourceIpv4 = (headerOf frame).1.sourceIpv4 →
      s.destinationIpv4 = (headerOf frame).1.destinationIpv4 →
      s.etherType.toNat = be16At frame 12 ∧ s.ipTotalLength.toNat = totalLengthOf frame ∧
      s.protocol.toNat = protocolOf frame ∧ s.sourceIpv4.toNat = be32At frame 26 ∧
      s.destinationIpv4.toNat = be32At frame 30 := by
    intro s h1 h2 h3 h4 h5
    rw [h1, h2, h3, h4, h5]
    refine ⟨ofNat16_toNat (be16At_lt _ _), ofNat16_toNat (be16At_lt _ _), rfl, ?_, ?_⟩
    · exact (UInt32.toNat_ofNat' ..).trans (Nat.mod_eq_of_lt (be32At_lt _ _))
    · exact (UInt32.toNat_ofNat' ..).trans (Nat.mod_eq_of_lt (be32At_lt _ _))
  unfold summaryOf
  rcases hvalid.transport with hu | ht
  · rw [if_pos hu.protocol]
    obtain ⟨h1, h2, h3, h4, h5⟩ := hheader (s := udpSummary frame) rfl rfl rfl rfl rfl
    refine ⟨h1, h2, h3, ?_, ?_, h4, h5, ofNat16_toNat (be16At_lt _ _),
      ofNat16_toNat (be16At_lt _ _),
      ?_⟩
    · rw [if_neg (by rw [hu.protocol]; decide)]
      rfl
    · rw [transportHeaderOf, if_pos hu.protocol]
      rfl
    · rw [transportHeaderOf, if_pos hu.protocol]
      have hfield := hu.length_field
      have hlt := be16At_lt frame 38
      show (UInt16.ofNat (be16At frame 38 - 8)).toNat = _
      rw [ofNat16_toNat (by omega)]
      omega
  · have hudp : protocolOf frame ≠ 17 := by
      rw [ht.protocol]
      decide
    rw [if_neg hudp]
    obtain ⟨h1, h2, h3, h4, h5⟩ := hheader (s := tcpSummary frame) rfl rfl rfl rfl rfl
    have hle := ht.offset_le
    have hin := ht.offset_in
    unfold totalLengthOf at hlen hge
    refine ⟨h1, h2, h3, ?_, ?_, h4, h5, ofNat16_toNat (be16At_lt _ _),
      ofNat16_toNat (be16At_lt _ _),
      ?_⟩
    · rw [if_pos ht.protocol]
      rfl
    · rw [transportHeaderOf, if_neg hudp]
      exact ofNat16_toNat (by omega)
    · rw [transportHeaderOf, if_neg hudp]
      show (UInt16.ofNat ((segmentOf frame).length - dataOffsetOf frame)).toNat = _
      rw [ofNat16_toNat (by omega), hlen]
      rfl

/-- Inspection accepts exactly the valid frames, and reports their fields, at every frame that is
    not a valid TCP frame with a zero checksum field. -/
theorem inspect_exact_iff (frame : List UInt8) :
    (((∃ s, inspectSlice frame = .ok s) ↔ ValidFrame frame) ∧
      ∀ s, inspectSlice frame = .ok s → Summarises s frame) ↔
    ¬ (ValidFrame frame ∧ protocolOf frame = 6 ∧ be16At frame 50 = 0) := by
  constructor
  · rintro ⟨hiff, _⟩ hzero
    obtain ⟨s, hs⟩ := hiff.mpr hzero.1
    exact ((inspectSlice_ok frame s).mp hs).1.2 hzero
  · intro hzero
    refine ⟨⟨?_, ?_⟩, ?_⟩
    · rintro ⟨s, hs⟩
      exact ((inspectSlice_ok frame s).mp hs).1.1
    · intro hvalid
      exact ⟨_, (inspectSlice_ok frame _).mpr ⟨⟨hvalid, hzero⟩, rfl⟩⟩
    · intro s hs
      obtain ⟨⟨hvalid, _⟩, rfl⟩ := (inspectSlice_ok frame s).mp hs
      exact summaryOf_summarises hvalid

/-- A SYN segment whose other words add up to all ones, so that its checksum is zero. -/
def zeroChecksumFrame : List UInt8 :=
  [82, 84, 0, 65, 82, 71, 82, 84, 0, 83, 69, 67, 8, 0,
   69, 0, 0, 40, 18, 52, 64, 0, 64, 6, 20, 154, 10, 0, 0, 1, 10, 0, 0, 2,
   164, 16, 1, 187, 0, 0, 0, 1, 0, 0, 0, 0, 80, 2, 246, 19, 0, 0, 0, 0]

theorem zero_tcp_checksum_refused :
    ValidFrame zeroChecksumFrame ∧ ∀ s, inspectSlice zeroChecksumFrame ≠ .ok s := by
  have hvalid : ValidFrame zeroChecksumFrame := by
    refine ⟨⟨?_, ?_, ?_, ?_, ?_, ?_, ?_, ?_, ?_⟩, Or.inr ⟨?_, ?_, ?_, ?_, ?_, ?_, ?_, ?_, ?_, ?_⟩,
      ?_, ?_⟩
    all_goals first | decide +kernel | (unfold tcpFlag; decide +kernel)
  refine ⟨hvalid, ?_⟩
  intro s hs
  exact ((inspectSlice_ok _ s).mp hs).1.2 ⟨hvalid, by decide +kernel, by decide +kernel⟩

end ArgusOs.Net
