import TrackerWire.Url

/-!
# Where to listen

A server listens on a locator of scheme `tcp` that names a host and a port; anything else is
refused before a socket is opened. Another scheme is refused whatever stands behind it
(specification, §10.4).
-/

namespace TrackerWire

/-- Why a locator is refused. -/
inductive ListenError where
  | malformed (text : String)
  | missingHost (url : Url)
  | missingPort (url : Url)
  | unsupportedScheme (scheme : String)
  deriving DecidableEq, Repr

def ListenError.message : ListenError → String
  | malformed text => "not a url: " ++ text
  | missingHost url => "tcp requires a host to be specified in the url: " ++ url.text
  | missingPort url => "tcp requires a port number to be specified in the url: " ++ url.text
  | unsupportedScheme scheme => "url scheme " ++ scheme ++ " not supported"

/-- The host and port of a locator to listen on. A missing host is told before a missing port. -/
def hostAndPort (url : Url) : Except ListenError (String × Nat) :=
  match url.host?, url.port? with
  | none, _ => .error (.missingHost url)
  | some _, none => .error (.missingPort url)
  | some host, some port => .ok (host, port)

/-- The host and port that a locator's text says to listen on. -/
def listenOn (text : String) : Except ListenError (String × Nat) :=
  match Url.split? text with
  | none => .error (.malformed text)
  | some (scheme, rest) =>
    if scheme = "tcp" then
      match Url.ofRest? scheme rest with
      | none => .error (.malformed text)
      | some url => hostAndPort url
    else .error (.unsupportedScheme scheme)

end TrackerWire
