/-!
# Alarms

The code in front of an alarm's sentence either classifies the alarm, or tells of a digital input
that changed, or says neither (specification, §4.5).
-/

namespace TrackerWire

inductive Alarm where
  | sos
  | lowBattery
  | overspeed
  | movement
  | geofenceEnter
  | accident
  | powerOff
  | gpsAntennaCut
  | braking
  | acceleration
  deriving DecidableEq, Repr

namespace Alarm

/-- The classification of an alarm code; mirrors the lookup table of §4.5. -/
def ofCode? (code : UInt8) : Option Alarm :=
  match code.toNat with
  | 0x01 => some sos
  | 0x10 => some lowBattery
  | 0x11 => some overspeed
  | 0x12 => some movement
  | 0x13 => some geofenceEnter
  | 0x14 => some accident
  | 0x50 => some powerOff
  | 0x53 => some gpsAntennaCut
  | 0x72 => some braking
  | 0x73 => some acceleration
  | _ => none

def name : Alarm → String
  | sos => "sos"
  | lowBattery => "lowBattery"
  | overspeed => "overspeed"
  | movement => "movement"
  | geofenceEnter => "geofenceEnter"
  | accident => "accident"
  | powerOff => "powerOff"
  | gpsAntennaCut => "gpsAntennaCut"
  | braking => "braking"
  | acceleration => "acceleration"

end Alarm

/-- The digital input an alarm code tells of, and its new state: codes 2 to 5 switch the inputs of
those numbers on, and forty-eight more switches them off. Mirrors §4.5. -/
def inputChange? (code : UInt8) : Option (Nat × Bool) :=
  if 0x02 ≤ code && code ≤ 0x05 then some (code.toNat, true)
  else if 0x32 ≤ code && code ≤ 0x35 then some (code.toNat - 0x30, false)
  else none

end TrackerWire
