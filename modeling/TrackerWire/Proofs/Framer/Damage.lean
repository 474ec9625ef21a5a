import TrackerWire.Proofs.Checksum.Parity
import TrackerWire.Proofs.Framer.Step

/-!
# Frames damaged on the way

The checksum guards a frame's device, command, payload and the checksum itself. Bytes that differ
from a frame there alone still look like a frame from outside (`Damaged.framed`), so the framer
judges them by their checksum and either takes them as they are or drops them as a whole
(`Damaged.dropped`).

`burst_dropped`: damage within sixteen consecutive bits never gets through. `odd_flips_dropped`:
neither does an odd number of changed bits, wherever they are.
-/
namespace TrackerWire

/-- Up to the end of its checksum field, an intact frame leaves the zero register. -/
theorem Intact.remainder_eq_zero {bytes : Bytes} (h : Intact bytes)
    (hlong : Frame.trailerSize ≤ bytes.length) :
    Crc16.remainder Crc16.start (bytes.take (bytes.length - 2)) = 0#16 := by
  have htrailer : Frame.trailerSize = 4 := rfl
  have hfield : (bytes.drop (bytes.length - Frame.trailerSize)).take 2 =
      Bytes.ofWord (crc16 (bytes.take (bytes.length - Frame.trailerSize))) := by
    rw [← h, Bytes.ofWord_leadingWord (by rw [List.length_drop]; omega)]
  have hsplit : bytes.take (bytes.length - 2) =
      bytes.take (bytes.length - Frame.trailerSize) ++
        (bytes.drop (bytes.length - Frame.trailerSize)).take 2 := by
    rw [← List.take_add]
    congr 1
    omega
  rw [hsplit, hfield, Crc16.remainder_checked]

namespace Frame

/-- The bytes of a frame with some bits changed, all of them between its length field and its
terminator. -/
structure Damaged (f : Frame) (bytes : Bytes) : Prop where
  changed : bytes ≠ f.wire
  guarded : Bytes.AgreeOutside (8 * 4) (8 * (f.encodedLength - 2)) f.wire bytes

namespace Damaged

variable {f : Frame} {bytes : Bytes}

theorem length_eq (h : f.Damaged bytes) : bytes.length = f.encodedLength := by
  rw [← h.guarded.length_eq, f.length_wire]

/-- Marker and length field are as they were. -/
theorem take_eq (h : f.Damaged bytes) : bytes.take 4 = f.wire.take 4 := by
  have hmin : 17 ≤ f.encodedLength := f.minSize_le_encodedLength
  apply Bytes.bits_injective
  rw [Bytes.bits_take _ _ (by rw [h.length_eq]; omega),
    Bytes.bits_take _ _ (by rw [f.length_wire]; omega)]
  exact h.guarded.front.symm

/-- The terminator is as it was. -/
theorem drop_eq (h : f.Damaged bytes) :
    bytes.drop (f.encodedLength - 2) = f.wire.drop (f.encodedLength - 2) := by
  apply Bytes.bits_injective
  rw [Bytes.bits_drop _ _ (by rw [h.length_eq]; omega),
    Bytes.bits_drop _ _ (by rw [f.length_wire]; omega)]
  exact h.guarded.back.symm

theorem framed (h : f.Damaged bytes) (hfits : f.Fits) : Framed bytes := by
  have hwire := framed_wire hfits
  have hlen := h.length_eq
  have hmin : 17 ≤ f.encodedLength := f.minSize_le_encodedLength
  refine ⟨?_, by rw [hlen]; exact f.minSize_le_encodedLength, ?_, ?_⟩
  · have hfront : marker <+: bytes.take 4 := by
      rw [h.take_eq]
      exact List.prefix_take_iff.mpr ⟨hwire.marker, by decide⟩
    exact hfront.trans (List.take_prefix 4 bytes)
  · have hfield (c : Bytes) (hc : 4 ≤ c.length) :
        Bytes.leadingWord (c.drop 2) = Bytes.leadingWord ((c.take 4).drop 2) := by
      conv => lhs; rw [← List.take_append_drop 4 c]
      rw [List.drop_append_of_le_length (by rw [List.length_take]; omega),
        Bytes.leadingWord_append (by rw [List.length_drop, List.length_take]; omega)]
    rw [hfield bytes (by omega), h.take_eq, ← hfield f.wire (by rw [f.length_wire]; omega),
      hwire.length, hlen, f.length_wire]
  · have hend : terminator <:+ bytes.drop (f.encodedLength - 2) := by
      rw [h.drop_eq]
      exact List.suffix_of_suffix_length_le hwire.terminator (List.drop_suffix _ _)
        (by rw [List.length_drop, f.length_wire]; simp [terminator]; omega)
    exact hend.trans (List.drop_suffix _ _)

/-- **What the checksum gives away is dropped as a whole**, and the framer goes on as if it had not
been there. -/
theorem dropped (h : f.Damaged bytes) (hfits : f.Fits) (hsum : ¬ Intact bytes) (rest : Bytes)
    (n : Nat) :
    Framer.step? ⟨bytes ++ rest, n⟩ = some (.corrupted bytes, ⟨rest, n⟩) ∧
      Framer.next ⟨bytes ++ rest, n⟩ = Framer.next ⟨rest, n⟩ := by
  have hstep := Framer.step_corrupted ⟨h.framed hfits, hsum⟩ rest n
  exact ⟨hstep, Framer.next_onward hstep rfl⟩

/-- If damage does not show in the checksum, the register is zero before the terminator, in the
frame as in what became of it. -/
theorem remainder_eq_zero (h : f.Damaged bytes) (hsum : Intact bytes) :
    Crc16.remainder Crc16.start (f.wire.take (f.encodedLength - 2)) = 0#16 ∧
      Crc16.remainder Crc16.start (bytes.take (f.encodedLength - 2)) = 0#16 := by
  have hmin : 17 ≤ f.encodedLength := f.minSize_le_encodedLength
  have htrailer : trailerSize = 4 := rfl
  have hlen := h.length_eq
  have hwire := f.length_wire
  have hzero := hsum.remainder_eq_zero (by omega)
  have hzero' := f.intact_wire.remainder_eq_zero (by omega)
  rw [hlen] at hzero
  rw [hwire] at hzero'
  exact ⟨hzero', hzero⟩

/-- Damage within sixteen consecutive bits shows in the checksum. -/
theorem not_intact_of_burst (h : f.Damaged bytes) {start : Nat}
    (hburst : Bytes.AgreeOutside start (start + 16) f.wire bytes) : ¬ Intact bytes := by
  have hmin : 17 ≤ f.encodedLength := f.minSize_le_encodedLength
  have hwire := f.length_wire
  intro hsum
  obtain ⟨hzero, hzero'⟩ := h.remainder_eq_zero hsum
  have hchecked : f.wire.take (f.encodedLength - 2) = bytes.take (f.encodedLength - 2) :=
    Crc16.eq_of_remainder_eq (hburst.take (by omega)) (by rw [List.length_take]; omega)
      (hzero.trans hzero'.symm)
  refine h.changed ?_
  rw [← List.take_append_drop (f.encodedLength - 2) bytes, ← hchecked, h.drop_eq,
    List.take_append_drop]

/-- What is changed stands before the terminator. -/
theorem flips_take (h : f.Damaged bytes) : Bytes.flips f.wire bytes =
    Bytes.flips (f.wire.take (f.encodedLength - 2)) (bytes.take (f.encodedLength - 2)) := by
  have hlen : (f.wire.take (f.encodedLength - 2)).length =
      (bytes.take (f.encodedLength - 2)).length := by
    rw [List.length_take, List.length_take, h.guarded.length_eq]
  conv => lhs; rw [← List.take_append_drop (f.encodedLength - 2) f.wire,
    ← List.take_append_drop (f.encodedLength - 2) bytes, Bytes.flips_append hlen, h.drop_eq,
    Bytes.flips_self, Nat.add_zero]

/-- An odd number of changed bits shows in the checksum: up to its checksum field an intact frame
has an even number of bits set. -/
theorem not_intact_of_odd (h : f.Damaged bytes) (hodd : Bytes.flips f.wire bytes % 2 = 1) :
    ¬ Intact bytes := by
  intro hsum
  obtain ⟨hzero, hzero'⟩ := h.remainder_eq_zero hsum
  have hnone : Crc16.ones 0#16 = 0 := by decide
  have heven := Crc16.ones_remainder (f.wire.take (f.encodedLength - 2))
  have heven' := Crc16.ones_remainder (bytes.take (f.encodedLength - 2))
  rw [hzero, hnone] at heven
  rw [hzero', hnone] at heven'
  rw [h.flips_take, Bytes.flips_mod
    (by rw [List.length_take, List.length_take, h.guarded.length_eq])] at hodd
  omega

end Damaged

end Frame

namespace Framer

/-- **Burst errors never get through.** A frame that was damaged between its length field and its
terminator, within sixteen consecutive bits, is dropped as a whole: whatever follows it and however
many bytes have been skipped, the framer goes on with what follows. -/
theorem burst_dropped {f : Frame} (hfits : f.Fits) {bytes : Bytes} (hdamaged : f.Damaged bytes)
    {start : Nat} (hburst : Bytes.AgreeOutside start (start + 16) f.wire bytes) (rest : Bytes)
    (n : Nat) :
    step? ⟨bytes ++ rest, n⟩ = some (.corrupted bytes, ⟨rest, n⟩) ∧
      next ⟨bytes ++ rest, n⟩ = next ⟨rest, n⟩ :=
  hdamaged.dropped hfits (hdamaged.not_intact_of_burst hburst) rest n

/-- A heartbeat whose last payload byte and first checksum byte have changed, before a heartbeat
that has not. -/
theorem burst_across_checksum :
    let id : RawId := ⟨[0x13, 0x61, 0x23, 0x45, 0x67, 0x8F, 0xFF], rfl⟩
    let f : Frame := ⟨id, Command.heartbeat.code, [0x20, 0x41]⟩
    let bytes := (f.wire.set 14 0x4E).set 15 0x00
    (f.Fits ∧ f.Damaged bytes ∧ Bytes.AgreeOutside 116 (116 + 16) f.wire bytes) ∧
      next ⟨bytes ++ f.wire, 3⟩ = (some f, {}) := by
  intro id f bytes
  have hfits : f.Fits := by decide
  have hdamaged : f.Damaged bytes :=
    ⟨by decide +kernel, by decide +kernel, by decide +kernel, by decide +kernel⟩
  have hburst : Bytes.AgreeOutside 116 (116 + 16) f.wire bytes :=
    ⟨by decide +kernel, by decide +kernel, by decide +kernel⟩
  refine ⟨⟨hfits, hdamaged, hburst⟩, ?_⟩
  rw [(burst_dropped hfits hdamaged hburst f.wire 3).2]
  have hwhole := step_wire hfits [] 3
  rw [List.append_nil] at hwhole
  exact next_frame hwhole rfl

/-- **An odd number of bit errors never gets through.** The check of a message has the parity of
the message. So a frame in which an odd number of bits was changed, anywhere between its length
field and its terminator, is dropped as a whole: whatever follows it and however many bytes have
been skipped, the framer goes on with what follows. -/
theorem odd_flips_dropped :
    (∀ message : Bytes,
      Bytes.ones (Bytes.ofWord (crc16 message)) % 2 = Bytes.ones message % 2) ∧
    ∀ f : Frame, f.Fits → ∀ bytes : Bytes,
      Bytes.AgreeOutside (8 * 4) (8 * (f.encodedLength - 2)) f.wire bytes →
      Bytes.flips f.wire bytes % 2 = 1 → ∀ (rest : Bytes) (n : Nat),
        step? ⟨bytes ++ rest, n⟩ = some (.corrupted bytes, ⟨rest, n⟩) ∧
          next ⟨bytes ++ rest, n⟩ = next ⟨rest, n⟩ := by
  refine ⟨Crc16.ones_crc16, fun f hfits bytes hguarded hodd rest n => ?_⟩
  have hdamaged : f.Damaged bytes := by
    refine ⟨fun hsame => ?_, hguarded⟩
    rw [hsame, Bytes.flips_self] at hodd
    cases hodd
  exact hdamaged.dropped hfits (hdamaged.not_intact_of_odd hodd) rest n

/-- A heartbeat with one bit changed in its device, one in its payload and one in its checksum,
before a heartbeat that has not changed. -/
theorem odd_flips_far_apart :
    let id : RawId := ⟨[0x13, 0x61, 0x23, 0x45, 0x67, 0x8F, 0xFF], rfl⟩
    let f : Frame := ⟨id, Command.heartbeat.code, [0x20, 0x41]⟩
    let bytes := ((f.wire.modify 4 (· ^^^ 0x01)).modify 13 (· ^^^ 0x80)).modify 16 (· ^^^ 0x08)
    (f.Fits ∧ Bytes.AgreeOutside (8 * 4) (8 * (f.encodedLength - 2)) f.wire bytes ∧
      Bytes.flips f.wire bytes = 3) ∧
      next ⟨bytes ++ f.wire, 3⟩ = (some f, {}) := by
  intro id f bytes
  have hfits : f.Fits := by decide
  have hguarded : Bytes.AgreeOutside (8 * 4) (8 * (f.encodedLength - 2)) f.wire bytes :=
    ⟨by decide +kernel, by decide +kernel, by decide +kernel⟩
  have hthree : Bytes.flips f.wire bytes = 3 := by decide +kernel
  refine ⟨⟨hfits, hguarded, hthree⟩, ?_⟩
  rw [(odd_flips_dropped.2 f hfits bytes hguarded (by rw [hthree]) f.wire 3).2]
  have hwhole := step_wire hfits [] 3
  rw [List.append_nil] at hwhole
  exact next_frame hwhole rfl

end Framer

end TrackerWire
