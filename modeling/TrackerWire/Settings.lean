import TrackerWire.Report

/-!
# Settings

The server addresses that devices are told to report to, by protocol (specification, §10.4).
-/

namespace TrackerWire

/-- Server addresses by protocol. -/
structure Settings where
  servers : Table String String := .empty

namespace Settings

def setServer (settings : Settings) (protocol address : String) : Settings :=
  ⟨settings.servers.put protocol address⟩

/-- Settings with an address for the devices' own protocol, if one is given. -/
def ofServer (address : Option String) : Settings :=
  match address with
  | some address => Settings.setServer {} protocolName address
  | none => {}

/-- The address of a protocol; mirrors the configuration contract of §6. -/
def serverAddress? (settings : Settings) (protocol : String) : Option String :=
  settings.servers.get? protocol

end Settings

end TrackerWire
