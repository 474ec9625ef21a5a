import TrackerWire.Proofs.Sentence.Readable
import TrackerWire.Proofs.Text.Boundary

/-!
# Reading captures one after the other

Every read takes the captures under the cursor and moves the cursor on by its width, whether it
finds anything or not. So the reads of a sequence are those of the captures at their places
(`Reader.readAll_eq`), and past the last capture there is nothing (`Reader.readAt_past`).

What a capture holds is a text (`Captures.textAt_iff`). Only a coordinate is cut, two bytes before
its first point, and characters may be longer than two bytes.

* `Captures.coordinateAt_cases`: a coordinate is not cut, or cut between two texts, or would be cut
  inside a character, and then the read fails.
* `coordinateAt_token`: what a coordinate token has captured is always read.
* `reads_keep_place`: all of this for the captures of a match.
-/
namespace TrackerWire

/-- What the next read takes the captures for. -/
inductive Reader where
  | text
  /-- A signed whole number. -/
  | int
  /-- A whole number below two to 32. -/
  | word
  /-- A double. -/
  | float
  /-- A hexadecimal number below two to 32. -/
  | hexWord
  /-- A hexadecimal number below two to 64. -/
  | hexLong
  /-- Signed decimal degrees, of a capture and the hemisphere behind it. -/
  | coordinate
  deriving DecidableEq, Repr

/-- What a read finds. -/
inductive Reader.Value where
  | text (s : String)
  | int (n : Int)
  | natural (n : Nat)
  | float (x : Float)

namespace Reader

def width : Reader → Nat
  | coordinate => 2
  | _ => 1

def next : Reader → Captures → Except CutError (Option Value) × Captures
  | text, captures => (.ok (captures.next.1.map .text), captures.next.2)
  | int, captures => (.ok (captures.nextInt.1.map .int), captures.nextInt.2)
  | word, captures => (.ok (captures.nextWord.1.map .natural), captures.nextWord.2)
  | float, captures => (.ok (captures.nextFloat.1.map .float), captures.nextFloat.2)
  | hexWord, captures => (.ok (captures.nextHexWord.1.map .natural), captures.nextHexWord.2)
  | hexLong, captures => (.ok (captures.nextHexLong.1.map .natural), captures.nextHexLong.2)
  | coordinate, captures =>
    (captures.nextCoordinate.1.map (·.map .float), captures.nextCoordinate.2)

/-- Read one after the other, up to a text that cannot be cut. -/
def readAll : List Reader → Captures → Except CutError (List (Option Value) × Captures)
  | [], captures => .ok ([], captures)
  | reader :: readers, captures =>
    match reader.next captures with
    | (.error error, _) => .error error
    | (.ok value, behind) => (readAll readers behind).map fun x => (value :: x.1, x.2)

/-- Read the capture of this number. -/
def readAt : Reader → Captures → Nat → Except CutError (Option Value)
  | text, captures, index => .ok ((captures.textAt index).map .text)
  | int, captures, index => .ok ((captures.intAt index).map .int)
  | word, captures, index => .ok ((captures.wordAt index).map .natural)
  | float, captures, index => .ok ((captures.floatAt index).map .float)
  | hexWord, captures, index => .ok ((captures.hexWordAt index).map .natural)
  | hexLong, captures, index => .ok ((captures.hexLongAt index).map .natural)
  | coordinate, captures, index => (captures.coordinateAt index).map (·.map .float)

/-- Reads with the number of the capture that each is of. -/
def placed (index : Nat) : List Reader → List (Nat × Reader)
  | [] => []
  | reader :: readers => (index, reader) :: placed (index + reader.width) readers

/-! ## The cursor -/

/-- **A read moves the cursor by its width**, whatever it finds. -/
theorem next_eq (reader : Reader) (captures : Captures) :
    reader.next captures =
      (reader.readAt captures captures.cursor, captures.skip reader.width) := by
  cases reader <;> rfl

theorem readAt_skip (reader : Reader) (captures : Captures) (count index : Nat) :
    reader.readAt (captures.skip count) index = reader.readAt captures index := by
  cases reader <;> rfl

/-- **Reads keep their place**: each is the read of its own capture. -/
theorem readAll_eq (readers : List Reader) (captures : Captures) :
    readAll readers captures =
      ((placed captures.cursor readers).mapM fun x : Nat × Reader => x.2.readAt captures x.1).map
        fun values => (values, captures.skip (readers.map width).sum) := by
  induction readers generalizing captures with
  | nil => rfl
  | cons reader readers ih =>
    -- the others go on where the first has left the cursor, in the same captures
    have hreads : (fun x : Nat × Reader => x.2.readAt (captures.skip reader.width) x.1) =
        fun x : Nat × Reader => x.2.readAt captures x.1 := funext fun x => readAt_skip _ _ _ _
    have hskip : (captures.skip reader.width).skip (readers.map width).sum =
        captures.skip ((reader :: readers).map width).sum := by
      simp only [Captures.skip, List.map_cons, List.sum_cons, Nat.add_assoc]
    have hrest := ih (captures.skip reader.width)
    rw [hreads, hskip] at hrest
    rw [readAll, next_eq, placed, List.mapM_cons]
    cases reader.readAt captures captures.cursor with
    | error error => rfl
    | ok value =>
      simp only [hrest]
      change Except.map _ (Except.map _ (List.mapM _ (placed (captures.cursor + reader.width) _))) =
        _
      simp only [bind, Except.bind, pure, Except.pure]
      cases (placed (captures.cursor + reader.width) readers).mapM
          fun x : Nat × Reader => x.2.readAt captures x.1 with
      | error error => rfl
      | ok values => rfl

theorem readAt_past (reader : Reader) {captures : Captures} {index : Nat}
    (h : captures.groups.length ≤ index) : reader.readAt captures index = .ok none := by
  have hnone : captures.bytesAt index = none := by
    rw [Captures.bytesAt, List.getElem?_eq_none h]
    rfl
  cases reader with
  | coordinate => rw [readAt, Captures.coordinateAt, hnone]; rfl
  | _ =>
    simp only [readAt, Captures.textAt, Captures.intAt, Captures.wordAt, Captures.floatAt,
      Captures.hexWordAt, Captures.hexLongAt, hnone, Option.bind_none, Option.map_none]

end Reader

/-! ## Where a coordinate is cut -/

/-- The first point of the text stands behind this many bytes. -/
def FirstPoint (text : Bytes) (offset : Nat) : Prop :=
  ∃ before after, text = before ++ Ascii.point :: after ∧ Ascii.point ∉ before ∧
    before.length = offset

theorem findIdx?_point {text : Bytes} {offset : Nat} :
    text.findIdx? (· = Ascii.point) = some offset ↔ FirstPoint text offset := by
  constructor
  · intro h
    obtain ⟨hlt, hpoint, hbefore⟩ := List.findIdx?_eq_some_iff_getElem.mp h
    refine ⟨text.take offset, text.drop (offset + 1), ?_, fun hmem => ?_, ?_⟩
    · rw [← of_decide_eq_true hpoint, ← List.drop_eq_getElem_cons hlt, List.take_append_drop]
    · obtain ⟨j, hj, heq⟩ := List.mem_take_iff_getElem.mp hmem
      exact hbefore j (by omega) (decide_eq_true heq)
    · exact List.length_take_of_le (Nat.le_of_lt hlt)
  · rintro ⟨before, after, rfl, hbefore, rfl⟩
    have hnone : before.findIdx? (· = Ascii.point) = none :=
      List.findIdx?_eq_none_iff.mpr fun b hb => decide_eq_false fun heq => hbefore (heq ▸ hb)
    rw [List.findIdx?_append, hnone, List.findIdx?_cons, if_pos (decide_eq_true rfl)]
    simp

namespace Captures

variable {captures : Captures} {sentence : String} {index : Nat}

/-- A text with a point is cut two bytes before it. -/
theorem degrees?_cut {text : Bytes} {offset : Nat} (h : FirstPoint text (offset + 2)) :
    degrees? text =
      if Utf8.isBoundary text offset then
        .ok do
          let degrees ← Decimal.read? (text.take offset)
          let minutes ← Decimal.read? (text.drop offset)
          some (degrees + minutes / 60)
      else .error ⟨offset⟩ := by
  rw [degrees?, findIdx?_point.mpr h]
  simp only [Nat.add_sub_cancel]
  rw [if_neg (by omega)]

/-- A text without a point, or with fewer than two bytes before it, is no coordinate. -/
theorem degrees?_uncut {text : Bytes} (h : ∀ offset, ¬ FirstPoint text (offset + 2)) :
    degrees? text = .ok none := by
  unfold degrees?
  cases hfind : text.findIdx? (· = Ascii.point) with
  | none => rfl
  | some point =>
    have hshort : point < 2 := by
      by_contra hlong
      refine h (point - 2) ?_
      rw [Nat.sub_add_cancel (Nat.le_of_not_lt hlong)]
      exact findIdx?_point.mp hfind
    exact if_pos hshort

theorem bytesAt_text (hinput : captures.input = Ascii.utf8 sentence) {bytes : Bytes}
    (h : captures.bytesAt index = some bytes) : ∃ s, bytes = Ascii.utf8 s := by
  unfold bytesAt at h
  rw [hinput] at h
  split at h
  · cases h
  · split at h
    · next hboundaries =>
      cases h
      obtain ⟨hstart, hstop⟩ := Bool.and_eq_true_iff.mp hboundaries
      exact Utf8.exists_between hstart hstop
    · cases h

theorem textAt_iff (hinput : captures.input = Ascii.utf8 sentence) {s : String} :
    captures.textAt index = some s ↔ captures.bytesAt index = some (Ascii.utf8 s) := by
  constructor
  · intro h
    obtain ⟨bytes, hbytes, hread⟩ := Option.bind_eq_some_iff.mp h
    obtain ⟨t, rfl⟩ := bytesAt_text hinput hbytes
    rw [Utf8.fromUTF8?_utf8] at hread
    cases hread
    exact hbytes
  · intro h
    rw [textAt, h]
    exact Utf8.fromUTF8?_utf8 s

/-- The capture is a text whose first point stands two bytes behind this offset. -/
def PointBehind (captures : Captures) (index : Nat) (s : String) (offset : Nat) : Prop :=
  captures.textAt index = some s ∧ FirstPoint (Ascii.utf8 s) (offset + 2)

/-- South and west of the hemisphere captured behind it, degrees are negative. -/
def signed (captures : Captures) (index : Nat) (degrees : Float) : Float :=
  if isNegative (captures.bytesAt (index + 1)) then -degrees else degrees

variable {s a b : String} {offset : Nat}

theorem coordinateAt_text (hinput : captures.input = Ascii.utf8 sentence)
    (h : captures.textAt index = some s) :
    captures.coordinateAt index =
      (degrees? (Ascii.utf8 s)).map (·.map (captures.signed index)) := by
  rw [coordinateAt, (textAt_iff hinput).mp h]
  rfl

/-- Degrees and minutes as signed degrees, if both texts are doubles. -/
def combined? (captures : Captures) (index : Nat) (a b : String) : Option Float := do
  let degrees ← Decimal.read? (Ascii.utf8 a)
  let minutes ← Decimal.read? (Ascii.utf8 b)
  some (captures.signed index (degrees + minutes / 60))

theorem combined?_eq_some {value : Float} :
    captures.combined? index a b = some value ↔
      ∃ degrees minutes, Decimal.read? (Ascii.utf8 a) = some degrees ∧
        Decimal.read? (Ascii.utf8 b) = some minutes ∧
        value = captures.signed index (degrees + minutes / 60) := by
  simp only [combined?, bind, Option.bind_eq_some_iff, Option.some.injEq]
  constructor
  · rintro ⟨degrees, hdegrees, minutes, hminutes, rfl⟩
    exact ⟨degrees, minutes, hdegrees, hminutes, rfl⟩
  · rintro ⟨degrees, minutes, hdegrees, hminutes, rfl⟩
    exact ⟨degrees, hdegrees, minutes, hminutes, rfl⟩

theorem coordinateAt_split (hinput : captures.input = Ascii.utf8 sentence)
    (h : captures.PointBehind index s offset) (hsplits : Utf8.Splits s offset a b) :
    captures.coordinateAt index = .ok (captures.combined? index a b) := by
  rw [coordinateAt_text hinput h.1, degrees?_cut h.2,
    if_pos ((Utf8.isBoundary_iff s offset).mpr ⟨a, b, hsplits⟩), hsplits.take_eq, hsplits.drop_eq]
  unfold combined?
  cases Decimal.read? (Ascii.utf8 a) with
  | none => rfl
  | some degrees => cases Decimal.read? (Ascii.utf8 b) <;> rfl

theorem coordinateAt_torn (hinput : captures.input = Ascii.utf8 sentence)
    (h : captures.PointBehind index s offset) (htorn : ¬ ∃ a b, Utf8.Splits s offset a b) :
    captures.coordinateAt index = .error ⟨offset⟩ := by
  have hwithin := mt (Utf8.isBoundary_iff s offset).mp htorn
  rw [coordinateAt_text hinput h.1, degrees?_cut h.2, if_neg hwithin]
  rfl

theorem coordinateAt_uncut (hinput : captures.input = Ascii.utf8 sentence)
    (h : ∀ s offset, ¬ captures.PointBehind index s offset) :
    captures.coordinateAt index = .ok none := by
  cases hbytes : captures.bytesAt index with
  | none => rw [coordinateAt, hbytes]
  | some bytes =>
    obtain ⟨s, rfl⟩ := bytesAt_text hinput hbytes
    have htext := (textAt_iff hinput).mpr hbytes
    have huncut : ∀ offset, ¬ FirstPoint (Ascii.utf8 s) (offset + 2) :=
      fun offset hpoint => h s offset ⟨htext, hpoint⟩
    rw [coordinateAt_text hinput htext, degrees?_uncut huncut]
    rfl

/-- A coordinate is not cut, or cut between two texts, or would be cut inside a character. -/
theorem coordinateAt_cases (hinput : captures.input = Ascii.utf8 sentence) (index : Nat) :
    captures.coordinateAt index = .ok none ∨
    (∃ s offset a b, captures.PointBehind index s offset ∧ Utf8.Splits s offset a b ∧
      captures.coordinateAt index = .ok (captures.combined? index a b)) ∨
    ∃ s offset, captures.PointBehind index s offset ∧ (¬ ∃ a b, Utf8.Splits s offset a b) ∧
      captures.coordinateAt index = .error ⟨offset⟩ := by
  by_cases hpoint : ∃ s offset, captures.PointBehind index s offset
  · obtain ⟨s, offset, hpoint⟩ := hpoint
    by_cases hsplits : ∃ a b, Utf8.Splits s offset a b
    · obtain ⟨a, b, hsplits⟩ := hsplits
      exact .inr (.inl ⟨s, offset, a, b, hpoint, hsplits,
        coordinateAt_split hinput hpoint hsplits⟩)
    · exact .inr (.inr ⟨s, offset, hpoint, hsplits, coordinateAt_torn hinput hpoint hsplits⟩)
  · exact .inl (coordinateAt_uncut hinput fun s offset h => hpoint ⟨s, offset, h⟩)

/-- **A coordinate fails just where its cut falls inside a character.** -/
theorem coordinateAt_error_iff (hinput : captures.input = Ascii.utf8 sentence)
    {error : CutError} :
    captures.coordinateAt index = .error error ↔
      ∃ s, captures.PointBehind index s error.offset ∧
        ¬ ∃ a b, Utf8.Splits s error.offset a b := by
  constructor
  · intro herror
    rcases coordinateAt_cases hinput index with
      hnone | ⟨_, _, _, _, -, -, hread⟩ | ⟨s, offset, hpoint, htorn, hfails⟩
    · rw [hnone] at herror
      cases herror
    · rw [hread] at herror
      cases herror
    · rw [hfails] at herror
      cases herror
      exact ⟨s, hpoint, htorn⟩
  · rintro ⟨s, hpoint, htorn⟩
    exact coordinateAt_torn hinput hpoint htorn

/-- **A coordinate is read just where both of its parts are doubles.** -/
theorem coordinateAt_value_iff (hinput : captures.input = Ascii.utf8 sentence) {value : Float} :
    captures.coordinateAt index = .ok (some value) ↔
      ∃ s offset a b degrees minutes, captures.PointBehind index s offset ∧
        Utf8.Splits s offset a b ∧ Decimal.read? (Ascii.utf8 a) = some degrees ∧
        Decimal.read? (Ascii.utf8 b) = some minutes ∧
        value = captures.signed index (degrees + minutes / 60) := by
  constructor
  · intro hvalue
    rcases coordinateAt_cases hinput index with
      hnone | ⟨s, offset, a, b, hpoint, hsplits, hread⟩ | ⟨_, _, -, -, hfails⟩
    · rw [hnone] at hvalue
      cases hvalue
    · rw [hread] at hvalue
      obtain ⟨degrees, minutes, hparts⟩ := combined?_eq_some.mp (Except.ok.inj hvalue)
      exact ⟨s, offset, a, b, degrees, minutes, hpoint, hsplits, hparts⟩
    · rw [hfails] at hvalue
      cases hvalue
  · rintro ⟨s, offset, a, b, degrees, minutes, hpoint, hsplits, hparts⟩
    rw [coordinateAt_split hinput hpoint hsplits,
      combined?_eq_some.mpr ⟨degrees, minutes, hparts⟩]

end Captures

/-! ## A whole sentence -/

section
variable {name : String} {slots : List Slot} {sentence : String} {captures : Captures}

/-- A match holds the sentence, and a place for every capture of the grammar. -/
theorem parse_shape (h : (Grammar.build name slots).parse sentence = some captures) :
    captures.input = Ascii.utf8 sentence ∧ captures.cursor = 0 ∧
      captures.groups.length = (Slot.blockTokens slots).length := by
  obtain ⟨r, hr, rfl⟩ := parse_foremost h
  exact ⟨rfl, rfl, (marked_readsBlock slots hr.1).length_eq.symm⟩

/-- **What a coordinate token has captured is read as a coordinate.** -/
theorem coordinateAt_token (h : (Grammar.build name slots).parse sentence = some captures)
    {index : Nat} (htoken : (Slot.blockTokens slots)[index]? = some .coordinate)
    (hpresent : captures.isPresent index = true) :
    ∃ value, captures.coordinateAt index = .ok (some value) := by
  obtain ⟨piece, hpiece, haccepts⟩ :=
    bytesAt_present h htoken Token.Suits.coordinate.plain hpresent
  exact Token.Suits.coordinate.gives hpiece haccepts

namespace Reader

theorem readAt_error_iff {reader : Reader} {index : Nat} {error : CutError} :
    reader.readAt captures index = .error error ↔
      reader = coordinate ∧ captures.coordinateAt index = .error error := by
  cases reader with
  | coordinate =>
    rw [readAt, eq_self, true_and]
    cases captures.coordinateAt index with
    | error other => rw [Except.map, Except.error.injEq, Except.error.injEq]
    | ok value => exact ⟨nofun, nofun⟩
  | _ => exact ⟨nofun, nofun⟩

end Reader

/-- **Reads keep their place.** Whatever is under the cursor, a read moves it by the width of the
read; a sequence of reads finds what stands at the places that it comes to; past the last capture
there is nothing. A coordinate is read just where its parts are doubles, as always in a capture of
a coordinate token, and it is the only read to fail, just where its cut falls inside a character. -/
theorem reads_keep_place (h : (Grammar.build name slots).parse sentence = some captures) :
    (∀ (reader : Reader) (place : Nat), reader.next (captures.skip place) =
      (reader.readAt captures place, captures.skip (place + reader.width))) ∧
    (∀ readers : List Reader, Reader.readAll readers captures =
      ((Reader.placed 0 readers).mapM fun x : Nat × Reader => x.2.readAt captures x.1).map
        fun values => (values, captures.skip (readers.map Reader.width).sum)) ∧
    (∀ (reader : Reader) (place : Nat), (Slot.blockTokens slots).length ≤ place →
      reader.readAt captures place = .ok none) ∧
    (∀ (place : Nat) (value : Float), captures.coordinateAt place = .ok (some value) ↔
      ∃ s offset a b degrees minutes, captures.PointBehind place s offset ∧
        Utf8.Splits s offset a b ∧ Decimal.read? (Ascii.utf8 a) = some degrees ∧
        Decimal.read? (Ascii.utf8 b) = some minutes ∧
        value = captures.signed place (degrees + minutes / 60)) ∧
    (∀ place : Nat, (Slot.blockTokens slots)[place]? = some .coordinate →
      captures.isPresent place = true →
      ∃ value, captures.coordinateAt place = .ok (some value)) ∧
    ∀ (reader : Reader) (place : Nat) (error : CutError),
      reader.readAt captures place = .error error ↔
        reader = .coordinate ∧ ∃ s, captures.PointBehind place s error.offset ∧
          ¬ ∃ a b, Utf8.Splits s error.offset a b := by
  obtain ⟨hinput, hcursor, hgroups⟩ := parse_shape h
  refine ⟨fun reader place => ?moves, fun readers => ?sequence, fun reader place hpast => ?past,
    fun place value => Captures.coordinateAt_value_iff hinput,
    fun place htoken hpresent => coordinateAt_token h htoken hpresent,
    fun reader place error => ?fails⟩
  case moves =>
    rw [Reader.next_eq, Reader.readAt_skip]
    simp only [Captures.skip, hcursor, Nat.zero_add]
  case sequence =>
    rw [Reader.readAll_eq, hcursor]
  case past => exact reader.readAt_past (hgroups.trans_le hpast)
  case fails => rw [Reader.readAt_error_iff, Captures.coordinateAt_error_iff hinput]

end

/-- A grammar of a coordinate and its hemisphere. -/
def placeSlots : List Slot := [.captured .coordinate, .captured (.oneOf [0x4E, 0x53])]

/-- What it captures of a place in the south. -/
def southern : Captures := ⟨Ascii.utf8 "1234.5S", [some ⟨0, 6⟩, some ⟨6, 7⟩], [], 0⟩

theorem reads_keep_place_southern :
    (Grammar.build "place" placeSlots).parse "1234.5S" = some southern ∧
      (∃ value, Reader.coordinate.next southern =
        (.ok (some (.float value)), southern.skip 2)) ∧
      ∀ reader : Reader, reader.next (southern.skip 2) =
        (.ok none, southern.skip (2 + reader.width)) := by
  have hparse : (Grammar.build "place" placeSlots).parse "1234.5S" = some southern := by decide
  obtain ⟨hmoves, -, hpast, -, htoken, -⟩ := reads_keep_place hparse
  obtain ⟨value, hvalue⟩ := htoken 0 rfl rfl
  refine ⟨hparse, ⟨value, (hmoves .coordinate 0).trans ?_⟩, fun reader => ?_⟩
  · rw [Reader.readAt, hvalue]
    rfl
  · rw [hmoves, hpast reader 2 (Nat.le_refl 2)]

/-- A coordinate can be read from a capture of any text. Here the point is behind a character of
three bytes, and the cut would come after the first of these. -/
theorem nextCoordinate_torn :
    ((Grammar.build "text" [.captured (.noneOf [])]).parse "日.5").map (·.nextCoordinate.1) =
      some (.error ⟨1⟩) :=
  rfl

end TrackerWire
