import TrackerWire.Proofs.Sentence.Header
import TrackerWire.Proofs.Sentence.RegularText

/-!
# Regular sentences match as they were composed

No part of a composed sentence could be taken for more of the part before it: behind every token
stands a comma, a bar, a byte that it has no room for, or text that starts with none of its bytes.
So each block prefers its own text, block by block up to `prefers_regular`.

* `parse_sentence`: a composed sentence matches, and the match holds the text of each field.
-/
namespace TrackerWire

open Slot

namespace Sentence

/-! ## The blocks of a sentence -/

def FixText.texts (fix : FixText) : List (Option Bytes) :=
  [some (pairText fix.hour), some (pairText fix.minute), some (pairText fix.second),
    some [fix.validityLetter]] ++ fix.place.texts ++
  [fix.speed.map Subtype.val, fix.course.map Subtype.val,
    some (pairText fix.day), some (pairText fix.month), some (pairText fix.year)]

/-- The header of a sentence, which does not tell that date and time of day exist. -/
def FixText.header (fix : FixText) : HeaderText :=
  { hour := fix.hour, minute := fix.minute, second := fix.second, point := fix.point
    fraction := fix.fraction, valid := fix.valid, place := fix.place, speed := fix.speed
    course := fix.course, day := fix.day, month := fix.month, year := fix.year }

theorem prefers_fix (fix : FixText) (after : Bytes) :
    Prefers fixSlots fix.bytes after fix.texts [] :=
  prefers_header fix.header after

/-! ## The blocks behind the date -/

/-- What may follow the extras: it cannot be taken for more of them. -/
def Ends (after : Bytes) : Prop :=
  ∀ b ∈ after.head?, Ascii.isHexDigit b = false ∧ b ≠ Ascii.comma ∧ b ≠ Ascii.bar

theorem Ends.stops_hex {after : Bytes} (h : Ends after) (min : Nat) (max : Option Nat) :
    (Token.hex min max).Stops after := fun b hb => (h b hb).1

theorem Ends.noBar {after : Bytes} (h : Ends after) : ∀ b ∈ after.head?, b ≠ Ascii.bar :=
  fun b hb => (h b hb).2.2

/-- What may follow a text that a barred one may follow. -/
theorem Ends.stops_barred {token : Token} (text : Option token.Text) {after : Bytes}
    (h : Ends after) (min : Nat) (max : Option Nat) :
    (Token.hex min max).Stops (barredText text ++ after) := by
  cases text with
  | some text => exact Token.stops_cons (by rfl) _
  | none => exact h.stops_hex min max

def odometerTexts (odometer : Option OdometerText) : List (Option Bytes) :=
  [RegularField.rssi, .shortOdometer, .satellites, .longOdometer, .uniqueId].map fun field =>
    odometer.bind fun odometer => odometer.textOf field

theorem prefers_odometer (odometer : OdometerText) {after : Bytes} (hends : Ends after) :
    Prefers [anyOf [shortOdometer, longOdometer]] odometer.bytes after
      (odometerTexts (some odometer)) [some odometer.choice] := by
  cases odometer with
  | short cell rssi reading satellites =>
    have hshort : Prefers shortOdometer (OdometerText.short cell rssi reading satellites).bytes
        after [some rssi.val, some reading.val, satellites.map Subtype.val] [] := by
      refine .byte_cons (by decide) ?_
      refine .skip_cons (cell.aligned rfl) (cell.prefers_cons rfl _) ?_
      refine .byte_cons (by decide) ?_
      refine .captured_cons (rssi.aligned rfl) (rssi.prefers_hex _) ?_
      refine .byte_cons (by decide) ?_
      refine .captured_cons (reading.aligned rfl) (reading.prefers_hex _) ?_
      exact prefers_barred rfl satellites (hends.stops_hex _ _) hends.noBar
    exact Prefers.anyOf [] (fun _ h => nomatch h) hshort
  | long reading uniqueId =>
    have hlong : Prefers longOdometer (OdometerText.long reading uniqueId).bytes after
        [some reading.val, uniqueId.map Subtype.val] [] := by
      refine .byte_cons (by decide) ?_
      refine .captured_cons (reading.aligned rfl) (reading.prefers_hex _) ?_
      exact prefers_barred rfl uniqueId (hends.stops_hex _ _) hends.noBar
    -- nine digits are too few for the cell of the other form
    have hcell : (Token.hex 16 (some 20)).lengths
        (reading.val ++ (barredText uniqueId ++ after)) = [] := by
      refine Token.lengths_of_stops reading.val (hends.stops_barred uniqueId _ _) ?_
      intro other hother
      have hnine : reading.val.length ≤ 9 := reading.property.2.2 9 rfl
      exact Nat.lt_of_le_of_lt hnine (Nat.lt_of_lt_of_le (by decide) hother.2.1)
    refine Prefers.anyOf [shortOdometer] ?_ hlong
    intro refused hmem
    rw [List.mem_singleton.mp hmem, OdometerText.bytes, List.cons_append, List.append_assoc]
    exact .behind (.skip hcell _) [Ascii.bar]

theorem prefers_extraChannels (places : Nat) (words : List (hex 4).Text)
    (hplaces : words.length ≤ places) {after : Bytes}
    (hcomma : ∀ b ∈ after.head?, b ≠ Ascii.comma) :
    Prefers (List.replicate places extraChannel) (ChannelsText.moreBytes words) after
      ((List.range places).map fun i => (words.map Subtype.val)[i]?) [] := by
  induction places generalizing words with
  | zero =>
    obtain rfl := List.eq_nil_of_length_eq_zero (Nat.le_zero.mp hplaces)
    exact .nil after
  | succ places ih =>
    rw [List.range_succ_eq_map, List.map_cons, List.map_map]
    cases words with
    | nil => exact .cons (.omitted (.byte hcomma _)) (ih [] (Nat.zero_le _))
    | cons word words =>
      have hword : ∀ behind, Prefers [extraChannel] (Ascii.comma :: word.val) behind
          [some word.val] [] := fun behind =>
        .taken (.byte_cons (by decide) (.captured (word.aligned rfl) (word.prefers_hex _)))
      exact .cons (hword _) (ih words (Nat.le_of_succ_le_succ hplaces))

def channelsTexts (channels : Option ChannelsText) : List (Option Bytes) :=
  (List.range analogChannels).map (fun i => channels.bind fun channels => channels.words[i]?) ++
    odometerTexts (channels.bind (·.odometer))

theorem prefers_channels (c : ChannelsText) {after : Bytes} (hends : Ends after) :
    Prefers channels c.bytes after (channelsTexts (some c))
      [c.odometer.map OdometerText.choice] := by
  have hodometer : Prefers [.optional [anyOf [shortOdometer, longOdometer]]]
      (c.odometer.elim [] OdometerText.bytes) after (odometerTexts c.odometer)
      [c.odometer.map OdometerText.choice] := by
    cases c.odometer with
    | some odometer => exact .taken (prefers_odometer odometer hends)
    | none =>
      refine .omitted (.anyOf fun block hmem => ?_)
      rcases List.mem_pair.mp hmem with rfl | rfl <;> exact .byte hends.noBar _
  have hcomma : ∀ b ∈ (c.odometer.elim [] OdometerText.bytes ++ after).head?,
      b ≠ Ascii.comma := by
    intro b hb
    cases hc : c.odometer with
    | some odometer => rw [hc] at hb; cases odometer <;> cases hb <;> decide
    | none => rw [hc] at hb; exact (hends b hb).2.1
  refine .byte_cons (by decide) ?_
  refine .captured_cons (c.first.aligned rfl) (c.first.prefers_hex _) ?_
  refine .byte_cons (by decide) ?_
  refine .captured_cons (c.second.aligned rfl) (c.second.prefers_hex _) ?_
  exact (prefers_extraChannels 6 c.more c.atMost hcomma).append hodometer

def extrasTexts (extras : Option ExtrasText) : List (Option Bytes) :=
  [extras.bind fun extras => extras.hdop.map Subtype.val,
    extras.bind fun extras => extras.altitude.map Subtype.val,
    extras.bind fun extras => extras.status.map Subtype.val] ++
  channelsTexts (extras.bind (·.channels))

def odometerForm (extras : Option ExtrasText) : Option Nat :=
  ((extras.bind (·.channels)).bind (·.odometer)).map OdometerText.choice

theorem prefers_extras (e : ExtrasText) {after : Bytes} (hends : Ends after) :
    Prefers extras e.bytes after (extrasTexts (some e)) [odometerForm (some e)] := by
  have hstatus : (hex 4).Stops (e.channels.elim [] ChannelsText.bytes ++ after) := by
    cases e.channels with
    | some channels => exact Token.stops_cons (by rfl) _
    | none => exact hends.stops_hex _ _
  have hchannels : Prefers [.optional channels] (e.channels.elim [] ChannelsText.bytes) after
      (channelsTexts e.channels) [odometerForm (some e)] := by
    unfold odometerForm
    simp only [Option.bind_some]
    cases e.channels with
    | some channels => exact .taken (prefers_channels channels hends)
    | none => exact .omitted (.byte hends.noBar _)
  refine .byte_cons (by decide) ?_
  refine prefers_optional_cons rfl (by decide) e.hdop (Token.stops_cons rfl _) ?_
  refine .byte_cons (by decide) ?_
  refine prefers_optional_cons rfl (by decide) e.altitude (Token.stops_cons rfl _) ?_
  refine .byte_cons (by decide) ?_
  exact prefers_optional_cons rfl (by decide) e.status hstatus hchannels

/-! ## The whole sentence -/

theorem hexDigits_char {b : UInt8} (h : Ascii.isHexDigit b = true) :
    Ascii.char b ∈ hexDigits := by
  have hall : ∀ n : Fin 256, Ascii.isHexDigit (UInt8.ofNat n) = true →
      Ascii.char (UInt8.ofNat n) ∈ hexDigits := by decide +kernel
  have := hall ⟨b.toNat, b.toNat_lt⟩
  rw [UInt8.ofNat_toNat] at this
  exact this h

theorem ExtrasText.ends (extras : ExtrasText) : Ends (Ascii.utf8 extras.trailing) := by
  intro b hb
  have hfirst : b < 0x80 → Ascii.char b ∉ hexDigits ∧ Ascii.char b ≠ ',' ∧ Ascii.char b ≠ '|' :=
    fun hascii => extras.apart _ (Utf8.char_head hb hascii)
  refine ⟨?_, ?_, ?_⟩
  · rw [Bool.eq_false_iff]
    intro hhex
    exact (hfirst (Ascii.lt_of_isHexDigit hhex)).1 (hexDigits_char hhex)
  · rintro rfl
    exact (hfirst (by decide)).2.1 (by decide)
  · rintro rfl
    exact (hfirst (by decide)).2.2 (by decide)

def extrasBytes (extras : Option ExtrasText) : Bytes := extras.elim [] ExtrasText.bytes

/-- The text behind the extras. -/
def trailingText (extras : Option ExtrasText) : String := extras.elim "" (·.trailing)

theorem prefers_noise {s : RegularText} {after : Bytes} (hbar : ∀ b ∈ after.head?, b = Ascii.bar) :
    (Token.noneOf [Ascii.bar]).Prefers (Ascii.utf8 s.noise) after := by
  have haccepts : (Token.noneOf [Ascii.bar]).Accepts (Ascii.utf8 s.noise) := by
    intro b hb hmem
    rw [List.mem_singleton.mp hmem] at hb
    exact s.noBar (Utf8.char_mem hb (by decide))
  refine Token.prefers_of_stops haccepts fun b hb => ?_
  rw [hbar b hb]
  rfl

theorem prefers_trailing (extras : Option ExtrasText) :
    Token.rest.Prefers (Ascii.utf8 (trailingText extras)) [] := by
  have haccepts : Token.rest.Accepts (Ascii.utf8 (trailingText extras)) := by
    intro b hb
    cases extras with
    | none => cases hb
    | some extras =>
      refine ⟨?_, ?_⟩
      · rintro rfl
        exact (extras.inLine _ (Utf8.char_mem hb (by decide))).1 (by decide)
      · rintro rfl
        exact (extras.inLine _ (Utf8.char_mem hb (by decide))).2 (by decide)
  exact Token.prefers_of_stops haccepts fun _ h => nomatch h

theorem prefers_regular (s : RegularText) :
    Prefers (fixSlots ++ [skip (.noneOf [Ascii.bar]), .optional extras, skip .rest])
      (s.fix.bytes ++ (Ascii.utf8 s.noise ++ (extrasBytes s.extras ++
        Ascii.utf8 (trailingText s.extras)))) []
      (s.fix.texts ++ extrasTexts s.extras) [odometerForm s.extras] := by
  have hextras : Prefers [.optional extras] (extrasBytes s.extras)
      (Ascii.utf8 (trailingText s.extras) ++ []) (extrasTexts s.extras)
      [odometerForm s.extras] := by
    rw [List.append_nil]
    cases s.extras with
    | some extras => exact .taken (prefers_extras extras extras.ends)
    | none => exact .omitted (.byte (fun b hb => by cases hb) _)
  have hbar : ∀ b ∈ (extrasBytes s.extras ++ Ascii.utf8 (trailingText s.extras) ++ []).head?,
      b = Ascii.bar := by
    intro b hb
    cases hs : s.extras with
    | some extras => rw [hs] at hb; cases hb; rfl
    | none => rw [hs] at hb; cases hb
  refine (prefers_fix s.fix _).append ?_
  refine .skip_cons (Utf8.aligned_utf8 s.noise) (prefers_noise hbar) ?_
  exact .cons hextras (.skip (Utf8.aligned_utf8 _) (prefers_trailing s.extras))

/-! ### As a string -/

theorem FixText.ascii (fix : FixText) : Ascii.All fix.bytes := fix.header.ascii

theorem OdometerText.ascii (odometer : OdometerText) : Ascii.All odometer.bytes := by
  cases odometer with
  | short cell rssi reading satellites =>
    have hsatellites : Ascii.All (barredText satellites) := ascii_barred rfl satellites
    simp [bytes, cell.ascii rfl, rssi.ascii rfl, reading.ascii rfl, hsatellites, Ascii.bar]
  | long reading uniqueId =>
    simp [bytes, reading.ascii rfl, ascii_barred rfl uniqueId, Ascii.bar]

theorem ChannelsText.ascii (channels : ChannelsText) : Ascii.All channels.bytes := by
  have hmore : Ascii.All (moreBytes channels.more) := by
    intro b hb
    obtain ⟨word, -, hb⟩ := List.mem_flatMap.mp hb
    rcases List.mem_cons.mp hb with rfl | hb
    · decide
    · exact word.ascii rfl b hb
  have hodometer : Ascii.All (channels.odometer.elim [] OdometerText.bytes) := by
    cases channels.odometer with
    | some odometer => exact odometer.ascii
    | none => exact Ascii.all_nil
  simp [bytes, channels.first.ascii rfl, channels.second.ascii rfl, hmore, hodometer,
    Ascii.bar, Ascii.comma]

theorem ExtrasText.ascii (extras : ExtrasText) : Ascii.All extras.bytes := by
  have hchannels : Ascii.All (extras.channels.elim [] ChannelsText.bytes) := by
    cases extras.channels with
    | some channels => exact channels.ascii
    | none => exact Ascii.all_nil
  have hstatus : Ascii.All (optionalText extras.status) := ascii_optional rfl extras.status
  simp [bytes, ascii_optional rfl extras.hdop, ascii_optional rfl extras.altitude, hstatus,
    hchannels, Ascii.bar]

theorem utf8_sentence (s : RegularText) : Ascii.utf8 s.sentence =
    s.fix.bytes ++ (Ascii.utf8 s.noise ++ (extrasBytes s.extras ++
      Ascii.utf8 (trailingText s.extras))) := by
  rw [RegularText.sentence, Utf8.utf8_append, Utf8.utf8_text s.fix.ascii, Utf8.utf8_append]
  cases s.extras with
  | some extras =>
    show _ ++ (_ ++ Ascii.utf8 (Ascii.text extras.bytes ++ extras.trailing)) = _
    rw [Utf8.utf8_append, Utf8.utf8_text extras.ascii]
    rfl
  | none => rfl

/-- **A composed sentence matches, and the match holds the text of each field.** -/
theorem parse_sentence (s : RegularText) : ∃ captures,
    regular.parse s.sentence = some captures ∧
      (∀ field : RegularField, captures.bytesAt field.index = s.textOf field) ∧
      captures.alternative? odometerChoice = s.odometer?.map OdometerText.choice := by
  have hprefers := prefers_regular s
  rw [← utf8_sentence] at hprefers
  obtain ⟨captures, hparse, hholds⟩ := parse_prefers "regular" hprefers
  refine ⟨captures, hparse, fun field => ?_, ?_⟩
  · rw [hholds.bytesAt_eq]
    cases field with
    | analog channel =>
      have hindex : (RegularField.analog channel).index = channel.val + 16 := Nat.add_comm _ _
      rw [hindex]
      -- sixteen captures stand before those of the channels
      show (channelsTexts s.channels?)[channel.val]?.join = _
      have hchannel : channel.val < analogChannels := channel.isLt
      rw [channelsTexts, List.getElem?_append_left (by simpa using hchannel), List.getElem?_map,
        List.getElem?_range hchannel]
      rfl
    | _ => rfl
  · rw [hholds.alternative?_eq]
    rfl

end Sentence

end TrackerWire
