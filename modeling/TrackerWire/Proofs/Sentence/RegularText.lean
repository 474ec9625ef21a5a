import TrackerWire.Proofs.Sentence.Texts

/-!
# Composed regular sentences

`RegularText` is a regular sentence in parts, each a text of its own form. `RegularText.sentence`
writes it, `RegularText.textOf` is the text it has for each field, and `RegularText.Says` is what
it says: the report after it against the report before it.
-/
namespace TrackerWire

namespace Sentence

/-- A sentence up to its date. -/
structure FixText where
  hour : Fin 100
  minute : Fin 100
  second : Fin 100
  /-- A point follows the seconds. -/
  point : Bool
  fraction : (Token.digits 0 none).Text
  valid : Bool
  place : PlaceText
  speed : Option Token.number.Text
  course : Option Token.number.Text
  day : Fin 100
  month : Fin 100
  year : Fin 100
  time : Time
  /-- Date and time of day exist. -/
  time_eq : Calendar.time? ⟨2000 + (year.val : Int), month, day⟩ ⟨hour, minute, second⟩ = some time

namespace FixText

def validityLetter (fix : FixText) : UInt8 := letter (!fix.valid) 0x41 0x56

def bytes (fix : FixText) : Bytes :=
  tripleText fix.hour fix.minute fix.second ++
    ((if fix.point then [Ascii.point] else []) ++
      (fix.fraction.val ++ [Ascii.comma, fix.validityLetter, Ascii.comma])) ++
    fix.place.bytes ++
    Ascii.comma :: (optionalText fix.speed ++ Ascii.comma ::
      (optionalText fix.course ++ [Ascii.comma])) ++
    tripleText fix.day fix.month fix.year

end FixText

/-- The odometer, in one of its two forms. -/
inductive OdometerText where
  /-- Behind the cell and the signal strength, perhaps with satellites. -/
  | short (cell : (Token.hex 16 (some 20)).Text) (rssi : (hex 2).Text) (reading : (hex 8).Text)
    (satellites : Option (hex 2).Text)
  /-- Alone, perhaps with an identifier. -/
  | long (reading : (hex 9).Text) (uniqueId : Option (Token.hex 5 none).Text)

namespace OdometerText

def bytes : OdometerText → Bytes
  | short cell rssi reading satellites =>
    Ascii.bar :: (cell.val ++ Ascii.bar :: (rssi.val ++ Ascii.bar ::
      (reading.val ++ barredText satellites)))
  | long reading uniqueId => Ascii.bar :: (reading.val ++ barredText uniqueId)

/-- The number of the form among the alternatives. -/
def choice : OdometerText → Nat
  | short .. => 0
  | long .. => 1

/-- The text that an odometer has for a field. -/
def textOf : OdometerText → RegularField → Option Bytes
  | short _ rssi _ _, .rssi => some rssi.val
  | short _ _ reading _, .shortOdometer => some reading.val
  | short _ _ _ satellites, .satellites => satellites.map Subtype.val
  | long reading _, .longOdometer => some reading.val
  | long _ uniqueId, .uniqueId => uniqueId.map Subtype.val
  | _, _ => none

end OdometerText

/-- Two to eight analog channels, and perhaps an odometer. -/
structure ChannelsText where
  first : (hex 4).Text
  second : (hex 4).Text
  more : List (hex 4).Text
  atMost : more.length ≤ 6
  odometer : Option OdometerText

namespace ChannelsText

/-- The channels beyond the second, each behind a comma. -/
def moreBytes (words : List (hex 4).Text) : Bytes :=
  words.flatMap fun word => Ascii.comma :: word.val

def bytes (channels : ChannelsText) : Bytes :=
  Ascii.bar :: (channels.first.val ++ Ascii.comma :: (channels.second.val ++
    (moreBytes channels.more ++ channels.odometer.elim [] OdometerText.bytes)))

def words (channels : ChannelsText) : List Bytes :=
  (channels.first :: channels.second :: channels.more).map Subtype.val

end ChannelsText

def hexDigits : List Char := "0123456789abcdefABCDEF".toList

/-- Dilution, altitude and status, perhaps analog channels, and whatever stands behind them up to
the end of the line. -/
structure ExtrasText where
  hdop : Option Token.decimal.Text
  altitude : Option Token.signedNumber.Text
  status : Option (hex 4).Text
  channels : Option ChannelsText
  trailing : String
  inLine : ∀ c ∈ trailing.toList, c ≠ '\r' ∧ c ≠ '\n'
  /-- The trailing text cannot be taken for more of what stands before it. -/
  apart : ∀ c ∈ trailing.toList.head?, c ∉ hexDigits ∧ c ≠ ',' ∧ c ≠ '|'

def ExtrasText.bytes (extras : ExtrasText) : Bytes :=
  Ascii.bar :: (optionalText extras.hdop ++ Ascii.bar :: (optionalText extras.altitude ++
    Ascii.bar :: (optionalText extras.status ++ extras.channels.elim [] ChannelsText.bytes)))

/-- A regular sentence. -/
structure RegularText where
  fix : FixText
  noise : String
  noBar : '|' ∉ noise.toList
  extras : Option ExtrasText

namespace RegularText

def sentence (s : RegularText) : String :=
  Ascii.text s.fix.bytes ++ (s.noise ++
    s.extras.elim "" fun extras => Ascii.text extras.bytes ++ extras.trailing)

def channels? (s : RegularText) : Option ChannelsText := s.extras.bind (·.channels)

def odometer? (s : RegularText) : Option OdometerText := s.channels?.bind (·.odometer)

/-- The text that the sentence has for a field. -/
def textOf (s : RegularText) : RegularField → Option Bytes
  | .hour => some (pairText s.fix.hour)
  | .minute => some (pairText s.fix.minute)
  | .second => some (pairText s.fix.second)
  | .validity => some [s.fix.validityLetter]
  | .latitude => some s.fix.place.latitude.val
  | .northSouth => some [s.fix.place.latitudeLetter]
  | .longitude => some s.fix.place.longitude.val
  | .eastWest => some [s.fix.place.longitudeLetter]
  | .speed => s.fix.speed.map Subtype.val
  | .course => s.fix.course.map Subtype.val
  | .day => some (pairText s.fix.day)
  | .month => some (pairText s.fix.month)
  | .year => some (pairText s.fix.year)
  | .hdop => s.extras.bind fun extras => extras.hdop.map Subtype.val
  | .altitude => s.extras.bind fun extras => extras.altitude.map Subtype.val
  | .status => s.extras.bind fun extras => extras.status.map Subtype.val
  | .analog channel => s.channels?.bind fun channels => channels.words[channel.val]?
  | field => s.odometer?.bind fun odometer => odometer.textOf field

end RegularText

/-- A field of a report that a text may set: it is what the text denotes, or what it was. -/
def Sets {α : Type} (text : Option Bytes) (Denotes : Bytes → α → Prop) (before after : Option α) :
    Prop :=
  match text with
  | some text => ∃ value, Denotes text value ∧ after = some value
  | none => after = before

/-- The double that is read off a text. -/
def DenotesDouble (text : Bytes) (value : Float) : Prop := Decimal.read? text = some value

/-- The number of hexadecimal digits. -/
def DenotesHex (text : Bytes) (value : Nat) : Prop := value = Whole.hexNumber text

/-- The number of hexadecimal digits, as a double. -/
def DenotesReading (text : Bytes) (value : Float) : Prop :=
  value = Float.ofNat (Whole.hexNumber text)

/-- The text itself. -/
def DenotesText (text : Bytes) (value : String) : Prop := value = Ascii.text text

/-- What a regular sentence makes of a report. Every field is set by its own text, and what has no
text stays as it was. -/
structure RegularText.Says (s : RegularText) (before after : Report) : Prop where
  time : after.time = some s.fix.time
  valid : after.valid = s.fix.valid
  place : s.fix.place.Says after.latitude after.longitude
  speed : Sets (s.textOf .speed) DenotesDouble before.speed after.speed
  course : Sets (s.textOf .course) DenotesDouble before.course after.course
  hdop : Sets (s.textOf .hdop) DenotesDouble before.hdop after.hdop
  altitude : Sets (s.textOf .altitude) DenotesDouble before.altitude after.altitude
  status : Sets (s.textOf .status) DenotesText before.status after.status
  analog : ∀ channel, Sets (s.textOf (.analog channel)) DenotesHex before.analog[channel]
    after.analog[channel]
  rssi : Sets (s.textOf .rssi) DenotesHex before.rssi after.rssi
  odometer : Sets ((s.textOf .shortOdometer).or (s.textOf .longOdometer)) DenotesReading
    before.odometer after.odometer
  satellites : Sets (s.textOf .satellites) DenotesHex before.satellites after.satellites
  uniqueId : Sets (s.textOf .uniqueId) DenotesText before.uniqueId after.uniqueId
  others : after.protocol = before.protocol ∧ after.device = before.device ∧
    after.outdated = before.outdated ∧ after.alarm = before.alarm ∧
    after.inputs = before.inputs ∧ after.attributes = before.attributes

end Sentence

end TrackerWire
