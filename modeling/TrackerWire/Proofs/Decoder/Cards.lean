import Mathlib.Data.Nat.Digits.Defs
import TrackerWire.Proofs.Decoder.Handle
import TrackerWire.Proofs.Sentence.Decoding

/-!
# The cards of a swipe

Sixty bytes of a swipe are fifteen slots for a card number. A slot with a number becomes an
attribute of its own, named after the slot and ten digits long, and the last one is the tag of the
report (`ShowsCards`). The sentence behind them touches neither.

`cards_shown`: a swipe whose sentence is accepted shows its cards, all and no others, so its sixty
bytes can be told from the attributes; any other swipe leads to nothing.
-/
namespace TrackerWire

/-! ## Numbers in a column -/

namespace Text

/-- A text of decimal digits, as many as the column is wide, and the number they are. -/
structure Digits (width : Nat) (text : String) (n : Nat) : Prop where
  length : text.length = width
  digits : ∀ c ∈ text.toList, c.isDigit = true
  value : Nat.ofDigitChars 10 text.toList 0 = n

theorem toList_zeroPad (width n : Nat) : (zeroPad width n).toList =
    List.replicate (width - (Nat.toDigits 10 n).length) '0' ++ Nat.toDigits 10 n := by
  simp only [zeroPad, copies, Nat.toString_eq_ofList_toDigits, String.toList_append,
    String.toList_ofList, String.length_ofList]

/-- Zeros in front fill the column and change no number. -/
theorem digits_zeroPad {width n : Nat} (hwidth : 0 < width) (h : n < 10 ^ width) :
    Digits width (zeroPad width n) n := by
  have hfits := (Nat.length_toDigits_le_iff (by decide) hwidth).mpr h
  refine ⟨?_, only_zeroPad width n, ?_⟩
  · rw [← String.length_toList, toList_zeroPad, List.length_append, List.length_replicate]
    omega
  · rw [toList_zeroPad, Nat.ofDigitChars_append, Nat.ofDigitChars_replicate_zero, Nat.mul_zero,
      Nat.ofDigitChars_ten_toDigits]

end Text

/-! ## Numbers of four bytes -/

namespace Bytes

/-- The number in the first four bytes, high byte first. -/
def leadingWord32 (bytes : Bytes) : Nat :=
  Nat.ofDigits 256 ((bytes.take 4).reverse.map UInt8.toNat)

/-- The four bytes of a number, high byte first. -/
def ofWord32 (n : Nat) : Bytes :=
  [UInt8.ofNat (n / 256 ^ 3), UInt8.ofNat (n / 256 ^ 2), UInt8.ofNat (n / 256), UInt8.ofNat n]

theorem leadingWord32_cons (a b c d : UInt8) (rest : Bytes) :
    leadingWord32 (a :: b :: c :: d :: rest) =
      ((a.toNat * 256 + b.toNat) * 256 + c.toNat) * 256 + d.toNat := by
  simp [leadingWord32, Nat.ofDigits_cons]
  omega

theorem leadingWord32_lt (bytes : Bytes) : leadingWord32 bytes < 2 ^ 32 := by
  have hlt := Nat.ofDigits_lt_base_pow_length (b := 256)
    (l := (bytes.take 4).reverse.map UInt8.toNat) (by decide) fun n hn => by
      obtain ⟨b, -, rfl⟩ := List.mem_map.mp hn
      exact b.toNat_lt
  rw [List.length_map, List.length_reverse, List.length_take] at hlt
  exact Nat.lt_of_lt_of_le hlt (Nat.pow_le_pow_right (by decide) (Nat.min_le_left 4 _))

theorem ofWord32_leadingWord32 {bytes : Bytes} (h : 4 ≤ bytes.length) :
    ofWord32 (leadingWord32 bytes) = bytes.take 4 := by
  match bytes, h with
  | a :: b :: c :: d :: rest, _ =>
    have ha := a.toNat_lt; have hb := b.toNat_lt; have hc := c.toNat_lt; have hd := d.toNat_lt
    rw [leadingWord32_cons, ofWord32]
    simp only [List.take_succ_cons, List.take_zero, List.cons.injEq, and_true]
    refine ⟨?_, ?_, ?_, ?_⟩ <;> apply UInt8.toNat_inj.mp <;> rw [UInt8.toNat_ofNat'] <;> omega

theorem words32_eq {n : Nat} {bytes : Bytes} (h : bytes.length = 4 * n) :
    words32 bytes = (List.range n).map fun i => leadingWord32 (bytes.drop (4 * i)) := by
  induction n generalizing bytes with
  | zero => rw [List.length_eq_zero_iff.mp h]; rfl
  | succ n ih =>
    match bytes, h with
    | a :: b :: c :: d :: rest, h =>
      have hrest : rest.length = 4 * n := by
        simp only [List.length_cons] at h
        omega
      rw [words32, ih hrest, List.range_succ_eq_map, List.map_cons, List.map_map, Nat.mul_zero,
        List.drop_zero, leadingWord32_cons]
      rfl

theorem flatMap_take_four (bytes : Bytes) (n : Nat) :
    ((List.range n).flatMap fun i => (bytes.drop (4 * i)).take 4) = bytes.take (4 * n) := by
  induction n with
  | zero => rfl
  | succ n ih =>
    rw [List.range_succ, List.flatMap_append, ih, List.flatMap_singleton, ← List.take_add]
    rfl

end Bytes

namespace Decoder

/-! ## Slots -/

def slots : List Nat := List.range' 1 15

/-- The number in a slot. -/
def slotNumber (block : Bytes) (slot : Nat) : Nat :=
  Bytes.leadingWord32 (block.drop (4 * (slot - 1)))

/-- The slots with a card in them. -/
def filledSlots (block : Bytes) : List Nat :=
  slots.filter fun slot => slotNumber block slot ≠ 0

def cardKey (slot : Nat) : String := "card" ++ toString slot

/-- The number that the attribute of a slot shows, zero if there is none. -/
def shownNumber (attributes : Table String Attribute) (slot : Nat) : Nat :=
  match attributes.get? (cardKey slot) with
  | some (.text digits) => Nat.ofDigitChars 10 digits.toList 0
  | _ => 0

/-- The bytes of the slots, as the attributes tell of them. -/
def shownBlock (attributes : Table String Attribute) : Bytes :=
  slots.flatMap fun slot => Bytes.ofWord32 (shownNumber attributes slot)

/-- The cards of a swipe in a report. -/
structure ShowsCards (block : Bytes) (report : Report) : Prop where
  /-- A slot with a card in it has its number as an attribute, in ten digits. -/
  filled : ∀ slot ∈ filledSlots block, ∃ digits,
    report.attribute? (cardKey slot) = some (.text digits) ∧
      Text.Digits 10 digits (slotNumber block slot)
  /-- There is no other attribute. -/
  keys : report.attributes.keys.Perm ((filledSlots block).map cardKey)
  /-- The report is tagged with the last card, if there is one. -/
  uniqueId : report.uniqueId.map .text =
    (filledSlots block).getLast?.bind fun slot => report.attribute? (cardKey slot)
  restored : shownBlock report.attributes = block

theorem cardKey_injective : Function.Injective cardKey := by
  intro a b h
  have hdigits : Nat.toDigits 10 a = Nat.toDigits 10 b := by
    have htext := (String.append_right_inj "card").mp h
    rw [Nat.toString_eq_ofList_toDigits, Nat.toString_eq_ofList_toDigits] at htext
    exact String.ofList_inj.mp htext
  have hvalue := congrArg (fun digits => Nat.ofDigitChars 10 digits 0) hdigits
  simpa only [Nat.ofDigitChars_ten_toDigits] using hvalue

theorem slots_eq : slots = (List.range 15).map fun i => 1 + i := List.range'_eq_map_range

theorem slotNumber_eq (block : Bytes) (i : Nat) :
    slotNumber block (1 + i) = Bytes.leadingWord32 (block.drop (4 * i)) := by
  rw [slotNumber, Nat.add_sub_cancel_left]

theorem words32_slots {block : Bytes} (h : block.length = 60) :
    Bytes.words32 block = slots.map (slotNumber block) := by
  rw [Bytes.words32_eq (n := 15) h, slots_eq, List.map_map]
  exact List.map_congr_left fun i _ => (slotNumber_eq block i).symm

theorem flatMap_slots {block : Bytes} (h : block.length = 60) :
    (slots.flatMap fun slot => Bytes.ofWord32 (slotNumber block slot)) = block := by
  rw [slots_eq, List.flatMap_map]
  have hbytes : ∀ i ∈ List.range 15, Bytes.ofWord32 (slotNumber block (1 + i)) =
      (block.drop (4 * i)).take 4 := by
    intro i hi
    have := List.mem_range.mp hi
    rw [slotNumber_eq, Bytes.ofWord32_leadingWord32 (by rw [List.length_drop]; omega)]
  rw [List.flatMap_congr hbytes, Bytes.flatMap_take_four]
  exact List.take_of_length_le (Nat.le_of_eq h)

/-! ## What the cards make of a report -/

section Cards

variable (number : Nat → Nat)

def cardEntry (slot : Nat) : String × Attribute := (cardKey slot, .text (cardText (number slot)))

/-- A report whose keys are none of the slots to come gets an entry for each of them that is not
empty. -/
theorem entries_addCards (slot n : Nat) (report : Report)
    (hfresh : ∀ later, slot ≤ later → cardKey later ∉ report.attributes.keys) :
    (addCards slot ((List.range' slot n).map number) report).attributes.entries.Perm
      (((List.range' slot n).filter fun s => number s ≠ 0).map (cardEntry number) ++
        report.attributes.entries) := by
  induction n generalizing slot report with
  | zero => exact .refl _
  | succ n ih =>
    rw [List.range'_succ, List.map_cons, addCards]
    by_cases hzero : number slot = 0
    · rw [List.filter_cons_of_neg (by simp [hzero]), if_pos hzero]
      exact ih (slot + 1) report fun later hlater => hfresh later (by omega)
    · have hput := Table.entries_put (hfresh slot (Nat.le_refl slot))
        (Attribute.text (cardText (number slot)))
      rw [List.filter_cons_of_pos (by simp [hzero]), if_neg hzero]
      refine (ih (slot + 1) _ fun later hlater hmem => ?_).trans
        ((hput.append_left _).trans List.perm_middle)
      rcases List.mem_cons.mp ((hput.map Prod.fst).mem_iff.mp hmem) with hkey | hkey
      · have := cardKey_injective hkey
        omega
      · exact hfresh later (by omega) hkey

/-- The last slot that is not empty gives the tag. -/
theorem uniqueId_addCards (slot n : Nat) (report : Report) :
    (addCards slot ((List.range' slot n).map number) report).uniqueId =
      (((List.range' slot n).filter fun s => number s ≠ 0).getLast?.map
        fun s => cardText (number s)).or report.uniqueId := by
  induction n generalizing slot report with
  | zero => rfl
  | succ n ih =>
    rw [List.range'_succ, List.map_cons, addCards, ih]
    by_cases hzero : number slot = 0
    · rw [List.filter_cons_of_neg (by simp [hzero]), if_pos hzero]
    · rw [List.filter_cons_of_pos (by simp [hzero]), if_neg hzero, List.getLast?_cons]
      cases ((List.range' (slot + 1) n).filter fun s => number s ≠ 0).getLast? <;> rfl

end Cards

/-! ## What the attributes tell -/

theorem digits_cardText (block : Bytes) (slot : Nat) :
    Text.Digits 10 (cardText (slotNumber block slot)) (slotNumber block slot) :=
  Text.digits_zeroPad (by decide)
    (Nat.lt_of_lt_of_le (Bytes.leadingWord32_lt _) (by decide))

section Shown

variable {block : Bytes} {attributes : Table String Attribute}
  (hentries : attributes.entries.Perm
    ((filledSlots block).map (cardEntry (slotNumber block))))
include hentries

theorem keys_of_entries : attributes.keys.Perm ((filledSlots block).map cardKey) := by
  have hmap := hentries.map Prod.fst
  rwa [List.map_map] at hmap

theorem get?_cardKey {slot : Nat} (hslot : slot ∈ filledSlots block) :
    attributes.get? (cardKey slot) = some (.text (cardText (slotNumber block slot))) := by
  have hslots : slots.Nodup := List.nodup_range' 1
  have hnodup : attributes.keys.Nodup :=
    (keys_of_entries hentries).nodup_iff.mpr ((hslots.filter _).map cardKey_injective)
  exact Table.get?_of_mem hnodup (hentries.mem_iff.mpr (List.mem_map_of_mem hslot))

/-- The number of a slot is shown, a zero by having no attribute. -/
theorem shownNumber_eq {slot : Nat} (hslot : slot ∈ slots) :
    shownNumber attributes slot = slotNumber block slot := by
  by_cases hzero : slotNumber block slot = 0
  · have hmissing : cardKey slot ∉ attributes.keys := by
      rw [(keys_of_entries hentries).mem_iff, List.mem_map_of_injective cardKey_injective,
        filledSlots, List.mem_filter]
      simp [hzero]
    rw [shownNumber, Table.get?_eq_none hmissing, hzero]
  · have hmem : slot ∈ filledSlots block := List.mem_filter.mpr ⟨hslot, by simpa using hzero⟩
    rw [shownNumber, get?_cardKey hentries hmem]
    exact (digits_cardText block slot).value

theorem shownBlock_eq (h : block.length = 60) : shownBlock attributes = block := by
  have hbytes : ∀ slot ∈ slots, Bytes.ofWord32 (shownNumber attributes slot) =
      Bytes.ofWord32 (slotNumber block slot) := fun _ hslot =>
    congrArg Bytes.ofWord32 (shownNumber_eq hentries hslot)
  rw [shownBlock, List.flatMap_congr hbytes, flatMap_slots h]

end Shown

/-- **Cards are shown** by every report that has the attributes and the tag they give. -/
theorem showsCards {block : Bytes} (h : block.length = 60) {device : DeviceId} {report : Report}
    (hattributes : report.attributes =
      (addCards 1 (Bytes.words32 block) (.blank device)).attributes)
    (huniqueId : report.uniqueId =
      (addCards 1 (Bytes.words32 block) (.blank device)).uniqueId) : ShowsCards block report := by
  rw [words32_slots h] at hattributes huniqueId
  have hentries : report.attributes.entries.Perm
      ((filledSlots block).map (cardEntry (slotNumber block))) := by
    have hperm := entries_addCards (slotNumber block) 1 15 (.blank device)
      fun _ _ hmem => nomatch hmem
    rw [hattributes, ← List.append_nil ((filledSlots block).map _)]
    exact hperm
  have hlast : report.uniqueId =
      (filledSlots block).getLast?.map fun slot => cardText (slotNumber block slot) := by
    rw [huniqueId]
    exact (uniqueId_addCards _ 1 15 _).trans Option.or_none
  refine ⟨fun slot hslot => ⟨_, get?_cardKey hentries hslot, digits_cardText block slot⟩,
    keys_of_entries hentries, ?_, shownBlock_eq hentries h⟩
  rw [hlast]
  cases hfilled : (filledSlots block).getLast? with
  | none => rfl
  | some slot => exact (get?_cardKey hentries (List.mem_of_getLast? hfilled)).symm

/-! ## Swipes -/

/-- The sentence of a swipe gives a report just when it is accepted and its stamp is real. -/
theorem isSome_decode_rfid (before : Report) (s : String) :
    (SentenceKind.rfid.decode before s).isSome = true ↔
      ∃ captures stamp, SentenceKind.rfid.grammar.parse s = some captures ∧
        Sentence.Shows captures 0 3 stamp ∧ stamp.IsReal := by
  cases hparse : SentenceKind.rfid.grammar.parse s with
  | none =>
    rw [SentenceKind.decode, hparse]
    simp
  | some captures =>
    obtain ⟨stamp, hshows, htime⟩ := Sentence.time_fill_rfid hparse
    rw [SentenceKind.rfid.decode_of_parse hparse, ← Option.isSome_map (f := Report.time),
      htime before, Option.isSome_map, stamp.isSome_time?]
    refine ⟨fun hreal => ⟨captures, stamp, rfl, hshows, hreal⟩, ?_⟩
    rintro ⟨others, other, hothers, hother, hreal⟩
    rw [← Option.some.inj hothers] at hother
    exact hshows.unique hother ▸ hreal

/-- The sentence touches neither the cards nor the tag. -/
theorem decode_rfid_keeps {before after : Report} {s : String}
    (h : SentenceKind.rfid.decode before s = some after) :
    after.attributes = before.attributes ∧ after.uniqueId = before.uniqueId := by
  obtain ⟨captures, -, hfill⟩ := Option.bind_eq_some_iff.mp h
  rw [(Sentence.fillRfid_fills hfill).others]
  exact ⟨rfl, rfl⟩

theorem outcome_rfid {settings : Settings} {registry : Registry} {link : Option Link} {id : RawId}
    {device : DeviceId} (hresolves : registry.Resolves id device) {block : Bytes}
    (hblock : block.length = 60) (sentence : Bytes) :
    (handle settings registry link ⟨id, Command.rfid.code, block ++ sentence⟩).value.outcome =
      .ok (.ofOption (SentenceKind.rfid.decode (addCards 1 (Bytes.words32 block) (.blank device))
        (Ascii.text sentence))) := by
  have hsize : cardSlots * 4 = block.length := hblock.symm
  have hlong : ¬ (block ++ sentence).length < cardSlots * 4 := by
    rw [hsize, List.length_append]
    omega
  rw [outcome_resolved hresolves rfl]
  simp only [decodePayload, if_neg hlong, value_decodeSentence]
  rw [hsize, List.take_left, List.drop_left]

/-- **No card of a swipe is lost.** A swipe of a resolved device whose sentence is accepted with a
date and a time of day that exist leads to a report that shows its cards: an attribute for each slot
with a number in it and for no other, the last one as the tag, and the sixty bytes can be told from
the attributes. Any other sentence behind sixty bytes leads to nothing at all. -/
theorem cards_shown (settings : Settings) (registry : Registry) (link : Option Link) (id : RawId)
    (device : DeviceId) (hresolves : registry.Resolves id device) (block sentence : Bytes)
    (hblock : block.length = 60) :
    let outcome :=
      (handle settings registry link ⟨id, Command.rfid.code, block ++ sentence⟩).value.outcome
    let accepted := ∃ captures stamp,
      SentenceKind.rfid.grammar.parse (Ascii.text sentence) = some captures ∧
        Sentence.Shows captures 0 3 stamp ∧ stamp.IsReal
    (accepted → ∃ report, outcome = .ok (.report report) ∧ ShowsCards block report) ∧
      (¬ accepted → outcome = .ok .nothing) := by
  intro outcome accepted
  have houtcome : outcome = _ := outcome_rfid hresolves hblock sentence
  have haccepted :=
    isSome_decode_rfid (addCards 1 (Bytes.words32 block) (.blank device)) (Ascii.text sentence)
  cases hdecode : SentenceKind.rfid.decode (addCards 1 (Bytes.words32 block) (.blank device))
      (Ascii.text sentence) with
  | none =>
    rw [hdecode] at houtcome haccepted
    exact ⟨fun h => (Bool.false_ne_true (haccepted.mpr h)).elim, fun _ => houtcome⟩
  | some report =>
    rw [hdecode] at houtcome haccepted
    obtain ⟨hattributes, huniqueId⟩ := decode_rfid_keeps hdecode
    exact ⟨fun _ => ⟨report, houtcome, showsCards hblock hattributes huniqueId⟩,
      fun h => (h (haccepted.mp rfl)).elim⟩

/-- Three cards in slots of one and of two digits, behind them a swipe at half past nine. -/
theorem cards_shown_of_three :
    let id : RawId := ⟨[0x13, 0x61, 0x23, 0x45, 0x67, 0x8F, 0xFF], rfl⟩
    let registry := (Registry.register {} "13612345678").2
    let block := [0, 12345, 0, 0, 4294967295, 0, 0, 0, 0, 0, 0, 7, 0, 0, 0].flatMap Bytes.ofWord32
    let place : Sentence.PlaceText := ⟨⟨Ascii.utf8 "2230.1234", by decide⟩, false,
      ⟨Ascii.utf8 "11403.5678", by decide⟩, false⟩
    let swipe : Sentence.SwipeText :=
      { hour := 9, minute := 30, second := 0, day := 25, month := 3, year := 22, place }
    registry.Resolves id 1 ∧ block.length = 60 ∧
      Ascii.text swipe.bytes = "|093000,250322,2230.1234,N,11403.5678,E" ∧
      ∃ report,
        (handle {} registry none ⟨id, Command.rfid.code, block ++ swipe.bytes⟩).value.outcome =
          .ok (.report report) ∧
        report.attributes.keys.Perm ["card2", "card5", "card12"] ∧
        (∃ digits, report.attribute? "card2" = some (.text digits) ∧
          Text.Digits 10 digits 12345) ∧
        report.uniqueId.map .text = report.attribute? "card12" ∧
        shownBlock report.attributes = block := by
  intro id registry block place swipe
  have hresolves : registry.Resolves id 1 := by decide +kernel
  have hblock : block.length = 60 := by decide
  have hreal : swipe.stamp.IsReal := ⟨by decide, by decide, by decide, by decide, by decide⟩
  have hfilled : filledSlots block = [2, 5, 12] := by decide +kernel
  obtain ⟨captures, hparse, htexts⟩ := Sentence.parse_swipe_text swipe
  obtain ⟨report, houtcome, hshows⟩ :=
    (cards_shown {} registry none id 1 hresolves block swipe.bytes hblock).1
      ⟨captures, swipe.stamp, hparse, Sentence.SwipeText.shows htexts, hreal⟩
  obtain ⟨digits, hdigits, hnumber⟩ := hshows.filled 2 (by rw [hfilled]; decide)
  have hkeys := hshows.keys
  have huniqueId := hshows.uniqueId
  rw [hfilled] at hkeys huniqueId
  exact ⟨hresolves, hblock, by decide +kernel, report, houtcome, hkeys, ⟨digits, hdigits, hnumber⟩,
    huniqueId, hshows.restored⟩

end Decoder

end TrackerWire
