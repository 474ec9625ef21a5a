import TrackerWire.Replay

/-!
# The command line

Reads captured frames from standard input and replays them; `--commands` lists the known commands
instead.
-/

namespace TrackerWire

/-- All bytes of a stream, behind those read so far. -/
partial def readAll (stream : IO.FS.Stream) (gathered : ByteArray) : IO ByteArray := do
  let chunk ← stream.read 65536
  if chunk.isEmpty then pure gathered else readAll stream (gathered ++ chunk)

/-- Is coloured output asked for? `CLICOLOR_FORCE`, set to anything but zero, asks for it and
`NO_COLOR` against it; else it is on at a terminal, unless `CLICOLOR` is zero. -/
def wantsColour : IO Bool := do
  let isSet (name : String) : IO Bool := return ((← IO.getEnv name).getD "0") ≠ "0"
  if ← isSet "CLICOLOR_FORCE" then pure true
  else if (← IO.getEnv "NO_COLOR").isSome then pure false
  else if (← IO.getEnv "CLICOLOR") = some "0" then pure false
  else (← IO.getStdout).isTty

def runTool (arguments : List String) : IO UInt32 := do
  let colour ← wantsColour
  let result ←
    if arguments.contains "--commands" then pure (Replay.listCommands colour)
    else do
      let input ← readAll (← IO.getStdin) ByteArray.empty
      pure (Replay.replay colour input.data.toList)
  IO.print result.output
  pure (UInt32.ofNat result.exit)

end TrackerWire

def main (arguments : List String) : IO UInt32 := TrackerWire.runTool arguments
