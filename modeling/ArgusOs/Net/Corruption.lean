/-
  What a flipped bit does to inspection.

  From the EtherType to the end of the IP packet every bit is under a check: the EtherType is
  compared, the IPv4 header and the transport segment are summed. A single bit changes a one's
  complement sum by a power of two, never by a multiple of 65535, and the bytes that say which
  bytes are summed are themselves under the header's sum. The MAC addresses and the bytes
  behind the packet are read by nothing.
-/
import ArgusOs.Net.Inspect

namespace ArgusOs.Net

open Lib

/-- The frame with one bit flipped. -/
def flipBit (frame : List UInt8) (i bit : Nat) : List UInt8 :=
  frame.set i (flipByte (frame.getD i 0) bit)

/-! ## One byte of a frame -/

section Bytes

variable {bytes : List UInt8} {i : Nat} {byte : UInt8}

theorem byteAt_set_self (h : i < bytes.length) : byteAt (bytes.set i byte) i = byte.toNat := by
  unfold byteAt
  rw [List.getD_eq_getElem?_getD, List.getElem?_set_self h]
  rfl

theorem getD_set_of_ne {j : Nat} (h : j ≠ i) : (bytes.set i byte).getD j 0 = bytes.getD j 0 := by
  rw [List.getD_eq_getElem?_getD, List.getElem?_set_ne (Ne.symm h), ← List.getD_eq_getElem?_getD]

theorem byteAt_set_of_ne {j : Nat} (h : j ≠ i) : byteAt (bytes.set i byte) j = byteAt bytes j := by
  unfold byteAt
  rw [getD_set_of_ne h]

theorem be16At_set_of_ne {j : Nat} (h : j ≠ i) (h' : j + 1 ≠ i) :
    be16At (bytes.set i byte) j = be16At bytes j := by
  unfold be16At
  rw [byteAt_set_of_ne h, byteAt_set_of_ne h']

theorem bytesFrom_set_outside {first last : Nat} (h : i < first ∨ last ≤ i) :
    bytesFrom (bytes.set i byte) first last = bytesFrom bytes first last := by
  unfold bytesFrom
  rw [List.take_set]
  rcases h with h | h
  · rw [List.drop_set, if_pos h]
  · rw [List.set_eq_of_length_le]
    exact Nat.le_trans (List.length_take_le ..) h

theorem bytesFrom_set_inside {first last : Nat} (hfirst : first ≤ i) :
    bytesFrom (bytes.set i byte) first last =
      (bytesFrom bytes first last).set (i - first) byte := by
  unfold bytesFrom
  rw [List.take_set, List.drop_set, if_neg (by omega)]

theorem bytesFrom_getD {first last k : Nat} (h : first + k < last) :
    (bytesFrom bytes first last).getD k 0 = bytes.getD (first + k) 0 :=
  UInt8.toNat_inj.mp (byteAt_bytesFrom h)

end Bytes

section Flip

variable {frame : List UInt8} {i bit : Nat}

theorem flipBit_length : (flipBit frame i bit).length = frame.length := List.length_set ..

/-- The words of a part of the frame with the bit in it. -/
theorem beWords_flip (bit : Nat) {first last : Nat} (hfirst : first ≤ i) (hlast : i < last)
    (hle : last ≤ frame.length) :
    (beWords (bytesFrom (flipBit frame i bit) first last)).sum +
        byteWeight (i - first) * (frame.getD i 0).toNat =
      (beWords (bytesFrom frame first last)).sum +
        byteWeight (i - first) * (flipByte (frame.getD i 0) bit).toNat := by
  have h := beWords_sum_set (bytesFrom frame first last) (i - first)
    (by rw [bytesFrom_length hle]; omega) (flipByte (frame.getD i 0) bit)
  rw [bytesFrom_getD (by omega), show first + (i - first) = i by omega] at h
  unfold flipBit
  rw [bytesFrom_set_inside hfirst]
  exact h

theorem flip_etherType (hbit : bit < 8) (hi : i = 12 ∨ i = 13) (hlen : 14 ≤ frame.length) :
    be16At (flipBit frame i bit) 12 ≠ be16At frame 12 := by
  have hflip := flipByte_toNat (frame.getD i 0) hbit
  have hpos : 0 < 2 ^ bit := Nat.two_pow_pos bit
  have hself : byteAt (flipBit frame i bit) i ≠ byteAt frame i := by
    unfold flipBit
    rw [byteAt_set_self (by omega)]
    unfold byteAt
    omega
  unfold be16At
  rcases hi with rfl | rfl
  · have hother : byteAt (flipBit frame 12 bit) (12 + 1) = byteAt frame (12 + 1) :=
      byteAt_set_of_ne (by omega)
    omega
  · have hother : byteAt (flipBit frame 13 bit) 12 = byteAt frame 12 := byteAt_set_of_ne (by omega)
    have hlow : byteAt (flipBit frame 13 bit) (12 + 1) ≠ byteAt frame (12 + 1) := hself
    omega

theorem flip_header (hv : ValidIpv4 frame) (hbit : bit < 8) (hlow : 14 ≤ i) (hhigh : i < 34) :
    ocSum (beWords (bytesFrom (flipBit frame i bit) 14 34)) ≠ 0xFFFF :=
  ocSum_flip (beWords_lt _) (beWords_lt _) hbit (beWords_flip bit hlow hhigh hv.length_ge)
    hv.checksum

theorem transportWords_lt (h : frame.length ≤ 1514) :
    ∀ w ∈ transportWords frame, w < 65536 := by
  intro w hw
  have hseg : (segmentOf frame).length ≤ frame.length := by
    unfold segmentOf bytesFrom
    rw [List.length_drop, List.length_take]
    omega
  have hproto : protocolOf frame < 256 := byteAt_lt frame 23
  unfold transportWords at hw
  simp only [List.mem_append, List.mem_cons, List.not_mem_nil, or_false] at hw
  rcases hw with ((hw | hw) | (hw | hw)) | hw
  · exact beWords_lt _ w hw
  · exact beWords_lt _ w hw
  · omega
  · omega
  · exact beWords_lt _ w hw

/-- A bit of the segment changes nothing that says which bytes are summed. -/
theorem transportWords_flip (hv : ValidIpv4 frame) (hlow : 34 ≤ i)
    (hhigh : i < 14 + totalLengthOf frame) :
    (transportWords (flipBit frame i bit)).sum + byteWeight (i - 34) * (frame.getD i 0).toNat =
      (transportWords frame).sum +
        byteWeight (i - 34) * (flipByte (frame.getD i 0) bit).toNat := by
  have htotal : totalLengthOf (flipBit frame i bit) = totalLengthOf frame :=
    be16At_set_of_ne (by omega) (by omega)
  have hproto : protocolOf (flipBit frame i bit) = protocolOf frame :=
    byteAt_set_of_ne (by omega)
  have hsource : bytesFrom (flipBit frame i bit) 26 30 = bytesFrom frame 26 30 :=
    bytesFrom_set_outside (by omega)
  have hdest : bytesFrom (flipBit frame i bit) 30 34 = bytesFrom frame 30 34 :=
    bytesFrom_set_outside (by omega)
  have hle := hv.total_le
  have hge := hv.length_ge
  have hend : 14 + totalLengthOf frame ≤ frame.length := by omega
  have hlength : (segmentOf (flipBit frame i bit)).length = (segmentOf frame).length := by
    unfold segmentOf
    rw [htotal, bytesFrom_length (by rw [flipBit_length]; exact hend), bytesFrom_length hend]
  have hwords := beWords_flip bit hlow hhigh hend
  unfold transportWords
  rw [hsource, hdest, hproto, hlength]
  simp only [List.sum_append, List.sum_cons, List.sum_nil]
  unfold segmentOf
  rw [htotal]
  omega

/-- A bit of the segment breaks the transport checksum. -/
theorem flip_segment (hv : ValidIpv4 frame) (hbit : bit < 8) (hlow : 34 ≤ i)
    (hhigh : i < 14 + totalLengthOf frame) (hsum : ocSum (transportWords frame) = 0xFFFF) :
    ocSum (transportWords (flipBit frame i bit)) ≠ 0xFFFF :=
  ocSum_flip (transportWords_lt hv.length_le)
    (transportWords_lt (by rw [flipBit_length]; exact hv.length_le)) hbit
    (transportWords_flip hv hlow hhigh) hsum

theorem ValidFrame.transport_sum (h : ValidFrame frame) :
    ocSum (transportWords frame) = 0xFFFF := by
  rcases h.transport with hudp | htcp
  · exact hudp.checksum
  · exact htcp.checksum

/-- No flipped bit between the EtherType and the end of the packet leaves a valid frame. -/
theorem flip_invalid (h : ValidFrame frame) (hbit : bit < 8) (hlow : 12 ≤ i)
    (hhigh : i < 14 + totalLengthOf frame) : ¬ ValidFrame (flipBit frame i bit) := by
  intro hflip
  have hlen := h.ipv4.length_ge
  by_cases hether : i < 14
  · have hne : be16At (flipBit frame i bit) 12 ≠ be16At frame 12 :=
      flip_etherType hbit (by omega) (by omega)
    rw [hflip.ipv4.ether_type, h.ipv4.ether_type] at hne
    exact hne rfl
  by_cases hheader : i < 34
  · exact flip_header h.ipv4 hbit (by omega) hheader hflip.ipv4.checksum
  · exact flip_segment h.ipv4 hbit (by omega) hhigh h.transport_sum hflip.transport_sum

/-- A bit outside that range changes nothing the header part hands on. -/
theorem flip_headerOf (bit : Nat) (hv : ValidIpv4 frame)
    (hi : i < 12 ∨ 14 + totalLengthOf frame ≤ i) :
    ValidIpv4 (flipBit frame i bit) ∧ headerOf (flipBit frame i bit) = headerOf frame := by
  have hge := hv.total_ge
  have hword : ∀ j, 12 ≤ j → j + 1 < 34 → be16At (flipBit frame i bit) j = be16At frame j :=
    fun j h1 h2 => be16At_set_of_ne (by omega) (by omega)
  have hbyte : ∀ j, 12 ≤ j → j < 34 → (flipBit frame i bit).getD j 0 = frame.getD j 0 :=
    fun j h1 h2 => getD_set_of_ne (by omega)
  have hpart : ∀ a b, 12 ≤ a → b ≤ 14 + totalLengthOf frame →
      bytesFrom (flipBit frame i bit) a b = bytesFrom frame a b :=
    fun a b h1 h2 => bytesFrom_set_outside (by omega)
  have htotal : totalLengthOf (flipBit frame i bit) = totalLengthOf frame :=
    hword 16 (by omega) (by omega)
  have hsegment : segmentOf (flipBit frame i bit) = segmentOf frame := by
    unfold segmentOf
    rw [htotal]
    exact hpart 34 _ (by omega) (Nat.le_refl _)
  constructor
  · exact
      { length_ge := by
          rw [flipBit_length]
          exact hv.length_ge
        length_le := by
          rw [flipBit_length]
          exact hv.length_le
        ether_type := by
          rw [hword 12 (by omega) (by omega)]
          exact hv.ether_type
        version := by
          unfold byteAt
          rw [hbyte 14 (by omega) (by omega)]
          exact hv.version
        total_ge := by
          rw [htotal]
          exact hge
        total_le := by
          rw [htotal, flipBit_length]
          exact hv.total_le
        checksum := by
          rw [hpart 14 34 (by omega) (by omega)]
          exact hv.checksum
        fragment := by
          rw [hword 20 (by omega) (by omega)]
          exact hv.fragment
        ttl := by
          unfold byteAt
          rw [hbyte 22 (by omega) (by omega)]
          exact hv.ttl }
  · unfold headerOf be32At
    rw [hword 12 (by omega) (by omega), htotal, hbyte 23 (by omega) (by omega),
      hword 26 (by omega) (by omega), hword (26 + 2) (by omega) (by omega),
      hword 30 (by omega) (by omega), hword (30 + 2) (by omega) (by omega),
      hpart 26 30 (by omega) (by omega), hpart 30 34 (by omega) (by omega), hsegment]

/-- The rest of inspection sees only what the header part hands on. -/
theorem inspectSlice_congr {frame' : List UInt8} (hv : ValidIpv4 frame) (hv' : ValidIpv4 frame')
    (h : headerOf frame' = headerOf frame) : inspectSlice frame' = inspectSlice frame := by
  unfold inspectSlice
  rw [(inspectHeader_ok frame' _).mpr ⟨hv', rfl⟩, (inspectHeader_ok frame _).mpr ⟨hv, rfl⟩, h]

end Flip

/-- Of an accepted frame, any flipped bit from the EtherType to the end of the IP packet is
    caught, and any other leaves the answer as it was. -/
theorem single_bit_corruption (frame : List UInt8) (s : PacketSummary)
    (h : inspectSlice frame = .ok s) (i bit : Nat) (hbit : bit < 8) :
    (12 ≤ i → i < 14 + s.ipTotalLength.toNat →
      ∃ status, inspectSlice (flipBit frame i bit) = .error status) ∧
    (i < 12 ∨ 14 + s.ipTotalLength.toNat ≤ i → inspectSlice (flipBit frame i bit) = .ok s) := by
  obtain ⟨⟨hvalid, -⟩, rfl⟩ := (inspectSlice_ok frame s).mp h
  rw [(summaryOf_summarises hvalid).ip_total_length]
  constructor
  · intro hlow hhigh
    cases hres : inspectSlice (flipBit frame i bit) with
    | error status => exact ⟨status, rfl⟩
    | ok s' =>
      have hflip := ((inspectSlice_ok _ s').mp hres).1.1
      exact absurd hflip (flip_invalid hvalid hbit hlow hhigh)
  · intro hi
    obtain ⟨hv', hsame⟩ := flip_headerOf bit hvalid.ipv4 hi
    rw [inspectSlice_congr hvalid.ipv4 hv' hsame]
    exact h

/-- A SYN segment from 10.0.0.1:42000 to 10.0.0.2:443. -/
def synFrame : List UInt8 :=
  [82, 84, 0, 65, 82, 71, 82, 84, 0, 83, 69, 67, 8, 0,
   69, 0, 0, 40, 18, 52, 64, 0, 64, 6, 20, 154, 10, 0, 0, 1, 10, 0, 0, 2,
   164, 16, 1, 187, 0, 0, 0, 1, 0, 0, 0, 0, 80, 2, 246, 18, 0, 1, 0, 0]

theorem single_bit_corruption_syn :
    inspectSlice synFrame = .ok (summaryOf synFrame) ∧
      (∃ status, inspectSlice (flipBit synFrame 53 7) = .error status) ∧
      inspectSlice (flipBit synFrame 5 0) = .ok (summaryOf synFrame) := by
  have h : inspectSlice synFrame = .ok (summaryOf synFrame) := by decide +kernel
  exact ⟨h, (single_bit_corruption _ _ h 53 7 (by decide)).1 (by decide) (by decide +kernel),
    (single_bit_corruption _ _ h 5 0 (by decide)).2 (Or.inl (by decide))⟩

end ArgusOs.Net
