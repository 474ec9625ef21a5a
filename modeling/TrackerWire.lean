import TrackerWire.Listen
import TrackerWire.Main
import TrackerWire.Replay
import TrackerWire.Session
import TrackerWire.Proofs.Grammar.Language
import TrackerWire.Proofs.Grammar.Reading
import TrackerWire.Proofs.Grammar.FirstMatch
import TrackerWire.Proofs.Frame.Wire
import TrackerWire.Proofs.Framer.Examine
import TrackerWire.Proofs.Framer.Run
import TrackerWire.Proofs.Framer.Accounting
import TrackerWire.Proofs.Framer.Resync
import TrackerWire.Proofs.Framer.Recovery
import TrackerWire.Proofs.Decoder.Handle
import TrackerWire.Proofs.Decoder.Batch
import TrackerWire.Proofs.Session.Live
import TrackerWire.Proofs.Text.Utf8
import TrackerWire.Proofs.Grammar.Preferred
import TrackerWire.Proofs.Grammar.Values
import TrackerWire.Proofs.Sentence.Texts
import TrackerWire.Proofs.Sentence.RegularText
import TrackerWire.Proofs.Sentence.RegularMatch
import TrackerWire.Proofs.Sentence.Regular
import TrackerWire.Proofs.Checksum.Register
import TrackerWire.Proofs.Framer.Damage
import TrackerWire.Proofs.Framer.Waiting
import TrackerWire.Proofs.Decoder.Reports
import TrackerWire.Proofs.Registry.LastFix
import TrackerWire.Proofs.Registry.Isolation
import TrackerWire.Proofs.Registry.Numbering
import TrackerWire.Proofs.Registry.Interleaving
import TrackerWire.Proofs.Registry.Identifiers
import TrackerWire.Proofs.Registry.Enrolment
import TrackerWire.Proofs.Decoder.Failure
import TrackerWire.Proofs.Decoder.Cards
import TrackerWire.Proofs.Decoder.Positions
import TrackerWire.Proofs.Grammar.Spelling
import TrackerWire.Proofs.Sentence.Header
import TrackerWire.Proofs.Sentence.Acceptance
import TrackerWire.Proofs.Grammar.Foremost
import TrackerWire.Proofs.Grammar.Captured
import TrackerWire.Proofs.Sentence.Fill
import TrackerWire.Proofs.Sentence.Readable
import TrackerWire.Proofs.Sentence.Extras
import TrackerWire.Proofs.Sentence.Swipe
import TrackerWire.Proofs.Calendar.Civil
import TrackerWire.Proofs.Sentence.Stamp
import TrackerWire.Proofs.Sentence.Decoding
import TrackerWire.Proofs.Sentence.Times
import TrackerWire.Proofs.Sentence.Engine
import TrackerWire.Proofs.Checksum.CheckDigit
import TrackerWire.Proofs.Registry.Packing
import TrackerWire.Proofs.Grammar.Place
import TrackerWire.Proofs.Text.Boundary
import TrackerWire.Proofs.Grammar.Cursor
import TrackerWire.Proofs.Grammar.Numbers
import TrackerWire.Proofs.Grammar.Footprint
import TrackerWire.Proofs.Grammar.Room
import TrackerWire.Proofs.Text.Hex
import TrackerWire.Proofs.Text.Legible
import TrackerWire.Proofs.Text.Visible
import TrackerWire.Proofs.Decoder.Texts
import TrackerWire.Proofs.Replay.Lines
import TrackerWire.Proofs.Replay.Noise
import TrackerWire.Proofs.Replay.Sealed
import TrackerWire.Proofs.Replay.Legible
import TrackerWire.Proofs.Url.Normal
import TrackerWire.Proofs.Url.Parts
import TrackerWire.Proofs.Url.Listen
