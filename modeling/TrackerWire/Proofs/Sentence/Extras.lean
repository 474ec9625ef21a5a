import TrackerWire.Proofs.Sentence.Fill
import TrackerWire.Proofs.Sentence.Readable

/-!
# Extras are read without holes

Behind its date a regular sentence may hold any text, and the search may take back what it has read
of the extras. Still the captures of a match are those of one layout: the first so many channels,
and one odometer or none. For an optional channel is given up only where it has no text, and a
reading that gives it up and takes the next one is not the foremost.

* `layout_tail`: what is captured behind the date, and the odometer that is reported.
* `extras_in_order`: so a report never takes an identifier and a signal strength or satellites from
  one sentence, and its odometer is that of the form that was read.
-/
namespace TrackerWire

open Slot

namespace Sentence

/-! ## Layouts -/

/-- Which captures of the two odometers take part, and which of the two is reported. -/
inductive OdometerLayout : List Bool → Option Nat → Prop
  | short (satellites : Bool) : OdometerLayout [true, true, satellites, false, false] (some 0)
  | long (uniqueId : Bool) : OdometerLayout [false, false, false, true, uniqueId] (some 1)
  | neither : OdometerLayout [false, false, false, false, false] none

/-- The first so many of eight channels. -/
def channelFlags (count : Nat) : List Bool :=
  List.replicate count true ++ List.replicate (8 - count) false

/-- No channels and no odometer, or two to eight channels and perhaps an odometer. -/
inductive ChannelsLayout : Nat → List Bool → Option Nat → Prop
  | absent : ChannelsLayout 0 (channelFlags 0 ++ [false, false, false, false, false]) none
  | present {count : Nat} {odometer : List Bool} {form : Option Nat} (hleast : 2 ≤ count)
    (hmost : count ≤ 8) (hodometer : OdometerLayout odometer form) :
    ChannelsLayout count (channelFlags count ++ odometer) form

/-- Dilution, altitude and status, each perhaps left out, in front of the channels. -/
def TailLayout (count : Nat) (present : List Bool) (form : Option Nat) : Prop :=
  ∃ hdop altitude status channels,
    present = [hdop, altitude, status] ++ channels ∧ ChannelsLayout count channels form

/-! ### What the blocks report -/

section
variable {present : List Bool} {alternatives : List (Option Nat)}

theorem layout_optional {token : Token} {rest : List Slot}
    (h : Reports (.optional [captured token] :: rest) present alternatives) :
    ∃ part more, present = part :: more ∧ Reports rest more alternatives := by
  obtain ⟨_, more, _, _, rfl, rfl, htaken | ⟨rfl, rfl⟩, hrest⟩ := h.optional_cons
  · obtain ⟨_, rfl, hnil⟩ := htaken.captured_cons
    obtain ⟨rfl, rfl⟩ := hnil.nil
    exact ⟨true, more, rfl, hrest⟩
  · exact ⟨false, more, rfl, hrest⟩

theorem layout_barred {token : Token}
    (h : Reports [.optional [bar, captured token]] present alternatives) :
    ∃ part, present = [part] ∧ alternatives = [] := by
  obtain ⟨_, _, _, _, rfl, rfl, htaken | ⟨rfl, rfl⟩, hnil⟩ := h.optional_cons
  · obtain ⟨rfl, rfl⟩ := hnil.nil
    obtain ⟨_, rfl, hnil⟩ := htaken.byte_cons.captured_cons
    obtain ⟨rfl, rfl⟩ := hnil.nil
    exact ⟨true, rfl, rfl⟩
  · obtain ⟨rfl, rfl⟩ := hnil.nil
    exact ⟨false, rfl, rfl⟩

theorem layout_shortOdometer (h : Reports shortOdometer present alternatives) :
    ∃ satellites, present = [true, true, satellites] ∧ alternatives = [] := by
  obtain ⟨_, rfl, hreading⟩ := h.byte_cons.skip_cons.byte_cons.captured_cons
  obtain ⟨_, rfl, hsatellites⟩ := hreading.byte_cons.captured_cons
  obtain ⟨satellites, rfl, rfl⟩ := layout_barred hsatellites
  exact ⟨satellites, rfl, rfl⟩

theorem layout_longOdometer (h : Reports longOdometer present alternatives) :
    ∃ uniqueId, present = [true, uniqueId] ∧ alternatives = [] := by
  obtain ⟨_, rfl, huniqueId⟩ := h.byte_cons.captured_cons
  obtain ⟨uniqueId, rfl, rfl⟩ := layout_barred huniqueId
  exact ⟨uniqueId, rfl, rfl⟩

theorem layout_odometer
    (h : Reports [.optional [anyOf [shortOdometer, longOdometer]]] present alternatives) :
    ∃ form, alternatives = [form] ∧ OdometerLayout present form := by
  obtain ⟨_, _, _, _, rfl, rfl, htaken | ⟨rfl, rfl⟩, hnil⟩ := h.optional_cons
  · obtain ⟨rfl, rfl⟩ := hnil.nil
    obtain ⟨_, _, ⟨hshort, rfl, rfl⟩ | ⟨hlong, rfl, rfl⟩⟩ := htaken.anyOf
    · obtain ⟨satellites, rfl, rfl⟩ := layout_shortOdometer hshort
      exact ⟨some 0, rfl, .short satellites⟩
    · obtain ⟨uniqueId, rfl, rfl⟩ := layout_longOdometer hlong
      exact ⟨some 1, rfl, .long uniqueId⟩
  · obtain ⟨rfl, rfl⟩ := hnil.nil
    exact ⟨none, rfl, .neither⟩

theorem layout_extraChannel (h : Reports [comma, captured (hex 4)] present alternatives) :
    present = [true] ∧ alternatives = [] := by
  obtain ⟨_, rfl, hnil⟩ := h.byte_cons.captured_cons
  obtain ⟨rfl, rfl⟩ := hnil.nil
  exact ⟨rfl, rfl⟩

end

section
variable {start : Nat} {text : Bytes} {r : Reading}

/-- **Channels have no holes**: those beyond the second are the first so many of the six. -/
theorem layout_extraChannels (h : Foremost (List.replicate 6 extraChannel) start text r) :
    ∃ count ≤ 6, r.present = List.replicate count true ++ List.replicate (6 - count) false ∧
      r.alternatives = [] := by
  obtain ⟨taken, hmost, htaken, rfl⟩ := Foremost.repeated h
  have hone : ∀ s ∈ taken, s.present = [true] ∧ s.alternatives = [] := by
    intro s hs
    obtain ⟨start, text, hreads⟩ := htaken s hs
    exact layout_extraChannel hreads.reports
  have hpresent : taken.flatMap Reading.present = List.replicate taken.length true := by
    rw [← List.flatten_replicate_singleton, ← List.map_eq_replicate_iff.mpr fun s hs =>
      (hone s hs).1]
    rfl
  have halternatives : taken.flatMap Reading.alternatives = [] :=
    List.flatMap_eq_nil_iff.mpr fun s hs => (hone s hs).2
  refine ⟨taken.length, hmost, ?_, ?_⟩
  · rw [Reading.present_joined, List.flatMap_append, List.flatMap_map, List.flatMap_replicate]
    show taken.flatMap Reading.present ++ (List.replicate _ [false]).flatten = _
    rw [hpresent, List.flatten_replicate_singleton]
  · rw [Reading.alternatives_joined, List.flatMap_append, List.flatMap_map, List.flatMap_replicate]
    show taken.flatMap Reading.alternatives ++ (List.replicate _ []).flatten = _
    rw [halternatives, List.flatten_replicate_nil]
    rfl

theorem layout_channels (h : Foremost channels start text r) :
    ∃ count form, r.alternatives = [form] ∧ ChannelsLayout count r.present form := by
  have hsplit : channels = [bar, captured (hex 4), comma, captured (hex 4)] ++
      (List.replicate 6 extraChannel ++ [.optional [anyOf [shortOdometer, longOdometer]]]) := rfl
  rw [hsplit] at h
  obtain ⟨_, _, s, t, -, rfl, hfront, hbehind⟩ := h.append
  obtain ⟨_, _, t, u, -, rfl, hmore, hodometer⟩ := hbehind.append
  obtain ⟨_, hs, hsecond⟩ := hfront.1.reports.byte_cons.captured_cons
  obtain ⟨_, rfl, hnil⟩ := hsecond.byte_cons.captured_cons
  obtain ⟨rfl, hs'⟩ := hnil.nil
  obtain ⟨count, hmost, ht, ht'⟩ := layout_extraChannels hmore
  obtain ⟨form, hu', hu⟩ := layout_odometer hodometer.1.reports
  refine ⟨count + 2, form, ?_, ?_⟩
  · rw [Reading.alternatives_append, Reading.alternatives_append, hs', ht', hu']
    rfl
  · have hflags : channelFlags (count + 2) =
        [true, true] ++ (List.replicate count true ++ List.replicate (6 - count) false) := by
      rw [channelFlags, List.replicate_succ, List.replicate_succ, Nat.add_sub_add_right _ 2 _]
      rfl
    have hlayout := ChannelsLayout.present (Nat.le_add_left 2 count) (Nat.succ_le_succ
      (Nat.succ_le_succ hmost)) hu
    rwa [hflags, ← ht, ← hs, List.append_assoc, ← Reading.present_append,
      ← Reading.present_append] at hlayout

theorem layout_extras (h : Foremost extras start text r) :
    ∃ count form, r.alternatives = [form] ∧ TailLayout count r.present form := by
  have hsplit : extras = [bar, .optional [captured .decimal], bar,
    .optional [captured .signedNumber], bar, .optional [captured (hex 4)]] ++
      [.optional channels] := rfl
  rw [hsplit] at h
  obtain ⟨_, _, s, t, -, rfl, hfront, hbehind⟩ := h.append
  obtain ⟨hdop, _, hs, haltitude⟩ := layout_optional hfront.1.reports.byte_cons
  obtain ⟨altitude, _, rfl, hstatus⟩ := layout_optional haltitude.byte_cons
  obtain ⟨status, _, rfl, hnil⟩ := layout_optional hstatus.byte_cons
  obtain ⟨rfl, hs'⟩ := hnil.nil
  rw [Reading.present_append, Reading.alternatives_append, hs, hs']
  rcases hbehind.optional with ⟨t, rfl, ht⟩ | ⟨-, rfl, -⟩
  · obtain ⟨count, form, hform, hlayout⟩ := layout_channels ht
    exact ⟨count, form, hform, hdop, altitude, status, _, rfl, hlayout⟩
  · exact ⟨0, none, rfl, hdop, altitude, status, _, rfl, .absent⟩

/-- **What is captured behind the date**, whatever stands there. -/
theorem layout_tail (h : Foremost tailSlots start text r) :
    ∃ count form, r.alternatives = [form] ∧ TailLayout count r.present form := by
  obtain ⟨_, _, s, t, -, rfl, hfree, hbehind⟩ := Foremost.cons h
  obtain ⟨_, _, t, u, -, rfl, hextras, hrest⟩ := hbehind.cons
  obtain ⟨hs, hs'⟩ := hfree.1.reports.skip_cons.nil
  obtain ⟨hu, hu'⟩ := hrest.1.reports.skip_cons.nil
  simp only [Reading.present_append, Reading.alternatives_append, hs, hs', hu, hu',
    List.nil_append, List.append_nil]
  rcases hextras.optional with ⟨t, rfl, ht⟩ | ⟨-, rfl, -⟩
  · have hlayout := layout_extras ht
    exact hlayout
  · exact ⟨0, none, rfl, false, false, false, _, rfl, .absent⟩

end

/-! ## Matches -/

/-- The captures of the extras take part in this order, with so many channels. -/
structure ExtrasInOrder (captures : Captures) (count : Nat) : Prop where
  /-- One channel alone is no extras. -/
  bounds : count = 0 ∨ 2 ≤ count ∧ count ≤ 8
  /-- The channels are the first so many. -/
  channels : ∀ channel : Fin 8,
    captures.isPresent (RegularField.analog channel).index = decide (channel.val < count)
  /-- Only behind channels is there an odometer. -/
  form : captures.alternative? odometerChoice = none ∨ 2 ≤ count ∧
    (captures.alternative? odometerChoice = some 0 ∨
      captures.alternative? odometerChoice = some 1)
  short : captures.alternative? odometerChoice = some 0 →
    captures.isPresent RegularField.rssi.index = true ∧
    captures.isPresent RegularField.shortOdometer.index = true ∧
    captures.isPresent RegularField.longOdometer.index = false ∧
    captures.isPresent RegularField.uniqueId.index = false
  long : captures.alternative? odometerChoice = some 1 →
    captures.isPresent RegularField.longOdometer.index = true ∧
    captures.isPresent RegularField.rssi.index = false ∧
    captures.isPresent RegularField.shortOdometer.index = false ∧
    captures.isPresent RegularField.satellites.index = false
  neither : captures.alternative? odometerChoice = none →
    ∀ field ∈ [RegularField.rssi, .shortOdometer, .satellites, .longOdometer, .uniqueId],
      captures.isPresent field.index = false

theorem length_channelFlags {count : Nat} (h : count ≤ 8) : (channelFlags count).length = 8 := by
  rw [channelFlags, List.length_append, List.length_replicate, List.length_replicate]
  omega

theorem getElem?_channelFlags {count index : Nat} (hindex : index < 8) :
    ((channelFlags count)[index]?).getD false = decide (index < count) := by
  rw [channelFlags, List.getElem?_append, List.length_replicate]
  split
  · rw [List.getElem?_replicate_of_lt ‹_›, Option.getD_some, decide_eq_true ‹_›]
  · rw [List.getElem?_replicate_of_lt (by omega), Option.getD_some, decide_eq_false ‹_›]

theorem ChannelsLayout.bounds {count : Nat} {present : List Bool} {form : Option Nat}
    (h : ChannelsLayout count present form) :
    (count = 0 ∧ form = none ∨ 2 ≤ count) ∧ count ≤ 8 ∧
      ∃ odometer, present = channelFlags count ++ odometer ∧ OdometerLayout odometer form := by
  cases h with
  | absent => exact ⟨.inl ⟨rfl, rfl⟩, Nat.zero_le 8, _, rfl, .neither⟩
  | present hleast hmost hodometer => exact ⟨.inr hleast, hmost, _, rfl, hodometer⟩

/-- The captures of a layout behind thirteen others. -/
theorem TailLayout.inOrder {captures : Captures} {count : Nat} {present : List Bool}
    {form : Option Nat} (h : TailLayout count present form)
    (hform : captures.alternative? odometerChoice = form)
    (hpresent : ∀ index, captures.isPresent (index + 13) = (present[index]?).getD false) :
    ExtrasInOrder captures count := by
  obtain ⟨hdop, altitude, status, _, rfl, hchannels⟩ := h
  obtain ⟨hleast, hmost, odometer, rfl, hodometer⟩ := hchannels.bounds
  have hflags := length_channelFlags hmost
  have hchannel : ∀ channel < 8,
      captures.isPresent (channel + 16) = decide (channel < count) := by
    intro channel hchannel
    have hleft : (channelFlags count ++ odometer)[channel]? = (channelFlags count)[channel]? :=
      List.getElem?_append_left (hflags.symm ▸ hchannel)
    rw [← getElem?_channelFlags hchannel, ← hleft]
    exact hpresent (channel + 3)
  have hbehind : ∀ index, captures.isPresent (index + 24) = (odometer[index]?).getD false := by
    intro index
    have hright : (channelFlags count ++ odometer)[index + 8]? = odometer[index]? := by
      rw [List.getElem?_append_right (hflags ▸ Nat.le_add_left 8 index), hflags,
        Nat.add_sub_cancel]
    rw [← hright]
    exact hpresent (index + 11)
  refine ⟨?_, fun channel => ?_, ?_, fun hshort => ?_, fun hlong => ?_, fun hnone => ?_⟩
  · rcases hleast with ⟨rfl, -⟩ | hleast
    · exact .inl rfl
    · exact .inr ⟨hleast, hmost⟩
  · rw [RegularField.index, Nat.add_comm, hchannel channel.val channel.isLt]
  · rw [hform]
    rcases hleast with ⟨-, rfl⟩ | hleast
    · exact .inl rfl
    · cases hodometer with
      | short => exact .inr ⟨hleast, .inl rfl⟩
      | long => exact .inr ⟨hleast, .inr rfl⟩
      | neither => exact .inl rfl
  · rw [← hform, hshort] at hodometer
    cases hodometer
    exact ⟨hbehind 0, hbehind 1, hbehind 3, hbehind 4⟩
  · rw [← hform, hlong] at hodometer
    cases hodometer
    exact ⟨hbehind 3, hbehind 0, hbehind 1, hbehind 2⟩
  · rw [← hform, hnone] at hodometer
    cases hodometer
    intro field hfield
    simp only [List.mem_cons, List.not_mem_nil, or_false] at hfield
    rcases hfield with rfl | rfl | rfl | rfl | rfl
    · exact hbehind 0
    · exact hbehind 1
    · exact hbehind 2
    · exact hbehind 3
    · exact hbehind 4

theorem exists_inOrder {s : String} {captures : Captures}
    (h : regular.parse s = some captures) : ∃ count, ExtrasInOrder captures count := by
  obtain ⟨r, hr, rfl⟩ := parse_foremost (regular_eq ▸ h)
  obtain ⟨_, _, s, t, -, rfl, hfix, htail⟩ := hr.append
  obtain ⟨count, form, hform, hlayout⟩ := layout_tail htail
  obtain ⟨hgroups, halternatives⟩ := Tally.mk.inj (tally_readsBlock hfix.1)
  refine ⟨count, hlayout.inOrder ?_ fun index => ?_⟩
  · have hnone : s.alternatives = [] := List.length_eq_zero_iff.mp halternatives
    show ((s.alternatives ++ t.alternatives)[0]?).join = form
    rw [hnone, hform]
    rfl
  · have hlength : s.present.length = 13 := (List.length_map _).trans hgroups
    rw [Captures.isPresent_eq, Reading.present_append,
      List.getElem?_append_right (hlength ▸ Nat.le_add_left 13 index), hlength,
      Nat.add_sub_cancel]

/-! ## Reports -/

/-- What the extras of a match set in a report: with the short odometer, the signal strength and
perhaps the satellites; with the long one, perhaps the identifier; with neither, none of these. -/
structure ExtrasSet (captures : Captures) (before after : Report) : Prop where
  short : captures.alternative? odometerChoice = some 0 →
    after.uniqueId = before.uniqueId ∧
    ∃ text, captures.bytesAt RegularField.shortOdometer.index = some text ∧
      (hex 8).Accepts text ∧ after.odometer = some (Float.ofNat (Whole.hexNumber text))
  long : captures.alternative? odometerChoice = some 1 →
    after.rssi = before.rssi ∧ after.satellites = before.satellites ∧
    ∃ text, captures.bytesAt RegularField.longOdometer.index = some text ∧
      (hex 9).Accepts text ∧ after.odometer = some (Float.ofNat (Whole.hexNumber text))
  neither : captures.alternative? odometerChoice = none →
    after.rssi = before.rssi ∧ after.odometer = before.odometer ∧
    after.satellites = before.satellites ∧ after.uniqueId = before.uniqueId

theorem hexLongAt_odometer {s : String} {captures : Captures}
    (h : regular.parse s = some captures) (field : RegularField) {n : Nat}
    (htoken : field.token = hex n) (hn : 0 < n) (hlimit : 16 ^ n ≤ Whole.limit64)
    (hpresent : captures.isPresent field.index = true) :
    ∃ text, captures.bytesAt field.index = some text ∧ (hex n).Accepts text ∧
      captures.hexLongAt field.index = some (Whole.hexNumber text) := by
  obtain ⟨text, htext, haccepts⟩ :=
    bytesAt_present (regular_eq ▸ h) (tokens_regular field) field.suits.plain hpresent
  rw [htoken] at haccepts
  refine ⟨text, htext, haccepts, ?_⟩
  rw [Captures.hexLongAt, htext]
  exact hexBelow?_accepts haccepts hn hlimit

theorem fillRegular_extras {s : String} {captures : Captures}
    (h : regular.parse s = some captures) {count : Nat} (horder : ExtrasInOrder captures count)
    {before after : Report} (hfills : FillsRegular captures before after) :
    ExtrasSet captures before after := by
  refine ⟨fun hshort => ?_, fun hlong => ?_, fun hnone => ?_⟩
  · obtain ⟨text, htext, haccepts, hread⟩ := hexLongAt_odometer h .shortOdometer rfl
      (by decide) (by decide) (horder.short hshort).2.1
    refine ⟨?_, text, htext, haccepts, ?_⟩
    · rw [hfills.uniqueId, hshort, if_neg (by decide)]
    · rw [hfills.odometer, odometerOf, hshort, hread]
      rfl
  · obtain ⟨text, htext, haccepts, hread⟩ := hexLongAt_odometer h .longOdometer rfl
      (by decide) (by decide) (horder.long hlong).1
    refine ⟨?_, ?_, text, htext, haccepts, ?_⟩
    · rw [hfills.rssi, hlong, if_neg (by decide)]
    · rw [hfills.satellites, hlong, if_neg (by decide)]
    · rw [hfills.odometer, odometerOf, hlong, hread]
      rfl
  · refine ⟨?_, ?_, ?_, ?_⟩
    · rw [hfills.rssi, hnone, if_neg (by decide)]
    · rw [hfills.odometer, odometerOf, hnone]
      rfl
    · rw [hfills.satellites, hnone, if_neg (by decide)]
    · rw [hfills.uniqueId, hnone, if_neg (by decide)]

/-- **Extras are read without holes or mixtures**, whatever text follows the fix. The channels of a
match are the first so many, none or two to eight of them; only behind channels is there an
odometer, and of the captures of its two forms those of one take part. So decoding changes the
identifier or the signal strength and the satellites, never both, and an odometer that it sets is
that of the form that was read. -/
theorem extras_in_order {s : String} {captures : Captures}
    (h : regular.parse s = some captures) :
    (∃ count, ExtrasInOrder captures count) ∧
    ∀ before after : Report, SentenceKind.regular.decode before s = some after →
      (after.uniqueId = before.uniqueId ∨
        after.rssi = before.rssi ∧ after.satellites = before.satellites) ∧
      ExtrasSet captures before after := by
  obtain ⟨count, horder⟩ := exists_inOrder h
  refine ⟨⟨count, horder⟩, fun before after hdecode => ?_⟩
  rw [SentenceKind.regular.decode_of_parse h] at hdecode
  have hfills : FillsRegular captures before after := fillRegular_fills hdecode
  have hset := fillRegular_extras h horder hfills
  refine ⟨?_, hset⟩
  rcases horder.form with hnone | ⟨-, hshort | hlong⟩
  · exact .inl (hset.neither hnone).2.2.2
  · exact .inl (hset.short hshort).1
  · exact .inr ⟨(hset.long hlong).1, (hset.long hlong).2.1⟩

/-- Three channels, the long odometer, and an identifier that is too short to be one. -/
theorem extras_before_noise : ∃ captures,
    regular.parse "123456,V,00000.0,S,000.0,E,,,010199|||0010|0010,0020,0030|ABCDEF012|1234" =
      some captures ∧
    captures.alternative? odometerChoice = some 1 ∧ (∃ count, ExtrasInOrder captures count) ∧
    ∀ before after : Report, SentenceKind.regular.decode before
        "123456,V,00000.0,S,000.0,E,,,010199|||0010|0010,0020,0030|ABCDEF012|1234" = some after →
      (after.uniqueId = before.uniqueId ∨
        after.rssi = before.rssi ∧ after.satellites = before.satellites) ∧
      ExtrasSet captures before after := by
  have hform : (regular.parse
      "123456,V,00000.0,S,000.0,E,,,010199|||0010|0010,0020,0030|ABCDEF012|1234").map
        (·.alternative? odometerChoice) = some (some 1) := by decide +kernel
  obtain ⟨captures, hparse, halternative⟩ := Option.map_eq_some_iff.mp hform
  exact ⟨captures, hparse, halternative, extras_in_order hparse⟩

end Sentence

end TrackerWire
