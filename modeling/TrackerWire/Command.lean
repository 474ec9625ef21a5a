/-!
# Commands

The 16-bit message types a frame can carry, and their codes (specification, §6).
-/

namespace TrackerWire

/-- A known message type. -/
inductive Command where
  /-- Keep-alive, answered under the same code. -/
  | heartbeat
  /-- The device asks which server to report to. -/
  | serverQuery
  /-- The device logs in. -/
  | login
  /-- The answer to a login; only a server sends it. -/
  | loginResponse
  /-- A position report. -/
  | position
  /-- A position report kept while offline, behind a time stamp of six bytes. -/
  | positionLogged
  /-- A position report behind an alarm code. -/
  | alarm
  /-- Cards swiped, and where. -/
  | rfid
  /-- A batch of position reports that could not be delivered earlier. -/
  | retransmission
  /-- Live engine readings. -/
  | obdRealtime
  /-- Lifetime engine totals. -/
  | obdAggregate
  deriving DecidableEq, Repr

namespace Command

/-- Every command, in the order it is listed in. -/
def all : List Command :=
  [heartbeat, serverQuery, login, loginResponse, position, positionLogged, alarm, rfid,
   retransmission, obdRealtime, obdAggregate]

/-- The code a command travels under; mirrors the list of §6. -/
def code : Command → UInt16
  | heartbeat => 0x0001
  | serverQuery => 0x0002
  | login => 0x5000
  | loginResponse => 0x4000
  | position => 0x9955
  | positionLogged => 0x9016
  | alarm => 0x9999
  | rfid => 0x9966
  | retransmission => 0x6688
  | obdRealtime => 0x9901
  | obdAggregate => 0x9902

def name : Command → String
  | heartbeat => "Heartbeat"
  | serverQuery => "ServerQuery"
  | login => "Login"
  | loginResponse => "LoginResponse"
  | position => "Position"
  | positionLogged => "PositionLogged"
  | alarm => "Alarm"
  | rfid => "Rfid"
  | retransmission => "Retransmission"
  | obdRealtime => "ObdRealtime"
  | obdAggregate => "ObdAggregate"

def ofCode? (c : UInt16) : Option Command := all.find? fun command => command.code = c

/-- Codes are distinct, so each command is found by its own. -/
theorem ofCode?_code (c : Command) : ofCode? c.code = some c := by cases c <;> rfl

end Command

end TrackerWire
