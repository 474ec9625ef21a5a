import TrackerWire.Address

/-!
# Locators

Uniform resource locators in their normal form: the scheme in lower case, dot segments of a path
resolved, and characters that may not stand for themselves percent-encoded. Schemes have no rules
of their own here, such as a default port or a kind of host.

* `Url.split?` takes the scheme off, `Url.ofRest?` reads what is behind it.
* `Url.text` writes the normal form.
-/

namespace TrackerWire

structure Url where
  scheme : String
  /-- What stands behind two slashes, if they are there: the user's part and a host, each perhaps
  empty, and perhaps a port. -/
  authority : Option (String × String × Option Nat)
  path : String
  query : Option String
  fragment : Option String
  deriving DecidableEq, Repr

namespace Url

def host? (url : Url) : Option String :=
  match url.authority with
  | some (_, host, _) => if host = "" then none else some host
  | none => none

def port? (url : Url) : Option Nat :=
  match url.authority with
  | some (_, _, port) => port
  | none => none

def marked (mark : String) : Option String → String
  | some part => mark ++ part
  | none => ""

/-- The text of a locator. A path that could be taken for an authority is set off by a dot
segment. -/
def text (url : Url) : String :=
  let authority :=
    match url.authority with
    | some (user, host, port) =>
      "//" ++ (if user = "" then "" else user ++ "@") ++ host ++ marked ":" (port.map toString)
    | none => if url.path.toList.take 2 = ['/', '/'] then "/." else ""
  url.scheme ++ ":" ++ authority ++ url.path ++ marked "?" url.query ++ marked "#" url.fragment

/-! ## Percent-encoding -/

/-- A byte as a percent sign and two upper case digits. -/
def percent (b : UInt8) : List Char := '%' :: (Hex.byteDigits b).map Char.toUpper

/-- A control character, or one outside ASCII. -/
def isControl (c : Char) : Bool := c.toNat < 0x20 || c.toNat > 0x7E

/-- Text with control characters and those of a list percent-encoded. -/
def encode (special : List Char) (text : List Char) : String :=
  String.ofList (text.flatMap fun c =>
    if isControl c || special.contains c then (String.utf8EncodeChar c).flatMap percent else [c])

def fragmentSpecials : List Char := [' ', '"', '<', '>', '\x60']

def querySpecials : List Char := [' ', '"', '#', '<', '>']

def pathSpecials : List Char := querySpecials ++ ['?', '\x60', '\x7b', '\x7d']

def userSpecials : List Char :=
  pathSpecials ++ ['/', ':', ';', '=', '@', '[', '\\', ']', '^', '|']

/-- What may not stand in a host, encoded or not. -/
def hostForbidden : List Char := ['\x00', ' ', ':', '<', '>', '@', '[', '\\', ']', '^', '|']

/-! ## Paths -/

/-- Does the segment stand for the current place? -/
def isDot (segment : List Char) : Bool :=
  let lower := segment.map Char.toLower
  lower = ['.'] || lower = ['%', '2', 'e']

/-- Does the segment stand for the place above? -/
def isDotDot (segment : List Char) : Bool :=
  let lower := segment.map Char.toLower
  lower = ['.', '.'] || lower = ['.', '%', '2', 'e'] || lower = ['%', '2', 'e', '.'] ||
    lower = ['%', '2', 'e', '%', '2', 'e']

/-- Does the segment name a drive? A letter and a colon or bar, with nothing or a backslash
behind. -/
def isDrive (segment : List Char) : Bool :=
  match segment with
  | letter :: mark :: rest =>
    letter.isAlpha && (mark = ':' || mark = '|') && (rest = [] || rest.head? = some '\\')
  | _ => false

/-- The segments in front of a place without the last one; a drive is not left. -/
def above (seen : List (List Char)) : List (List Char) :=
  match seen with
  | [] => []
  | segment :: others => if isDrive segment then seen else others

/-- The segments of a path without dot segments; those seen so far come last one first. A dot
segment at the end leaves an empty one. -/
def resolve (seen : List (List Char)) : List (List Char) → List (List Char)
  | [] => seen.reverse
  | segment :: rest =>
    if isDotDot segment then resolve (if rest = [] then [] :: above seen else above seen) rest
    else if isDot segment then resolve (if rest = [] then [] :: seen else seen) rest
    else resolve (segment :: seen) rest

/-- A path that starts with a slash, given without it. -/
def absolutePath (text : List Char) : String :=
  String.join ((resolve [] (text.splitOnP (· = '/'))).map fun segment =>
    "/" ++ encode pathSpecials segment)

/-! ## Reading -/

/-- Characters up to the first of a class, and from it on. -/
def spanUntil (isEnd : Char → Bool) (text : List Char) : List Char × List Char :=
  (text.takeWhile fun c => !isEnd c, text.dropWhile fun c => !isEnd c)

/-- A host: an IPv6 address in brackets, or text without forbidden characters. -/
def readHost : List Char → Option String
  | '[' :: rest =>
    match IpAddress.readV6 rest with
    | some (groups, [']']) => some ("[" ++ IpAddress.compressed groups.toList ++ "]")
    | _ => none
  | text => if text.any hostForbidden.contains then none else some (encode [] text)

/-- The digits of a port, none of them saying no port, and the start of a path behind them. -/
def readDigits (text : List Char) : Option (Option Nat × List Char) :=
  let (digits, rest) := spanUntil (fun c => !c.isDigit) text
  if rest.head?.any (· ≠ '\\') then none
  else if digits = [] then some (none, rest)
  else (IpAddress.readDecimal digits.length 65535 digits).map fun (port, _) => (some port, rest)

/-- A port behind a colon, or nothing. A backslash behind the colon and the digits starts the
path. -/
def readPort : List Char → Option (Option Nat × List Char)
  | [] => some (none, [])
  | _ :: text => readDigits text

/-- A host, and what starts with the first colon outside brackets. -/
def splitPort (text : List Char) : List Char × List Char :=
  match text with
  | '[' :: _ =>
    let (address, rest) := spanUntil (· = ']') text
    let (tail, port) := spanUntil (· = ':') rest
    (address ++ tail, port)
  | _ => spanUntil (· = ':') text

/-- The part in front of the last at sign, and the rest. -/
def splitUser (text : List Char) : List Char × List Char :=
  let (host, user) := spanUntil (· = '@') text.reverse
  if user = [] then ([], text) else ((user.drop 1).reverse, host.reverse)

/-- A user's name, and a password behind a colon unless it is empty. -/
def userText (text : List Char) : String :=
  let (name, password) := spanUntil (· = ':') text
  let password := password.drop 1
  encode userSpecials name ++
    if password = [] then "" else ":" ++ encode userSpecials password

/-- What stands between the two slashes and the next one: the authority, and what of the path is
in front of that slash. An empty host has neither user nor port. -/
def readAuthority (text : List Char) :
    Option ((String × String × Option Nat) × List Char) := do
  let (user, rest) := splitUser text
  let (host, port) := splitPort rest
  let user := userText user
  if host = [] ∧ (user ≠ "" ∨ port ≠ []) then none
  else
    let host ← readHost host
    let (port, path) ← readPort port
    some ((user, host, port), path)

/-- A scheme: a letter, then letters, digits, plus, minus or point, up to a colon. -/
def readScheme (text : List Char) : Option (String × List Char) :=
  let (scheme, rest) := spanUntil (· = ':') text
  let isRest (c : Char) : Bool := c.isAlphanum || c = '+' || c = '-' || c = '.'
  match scheme, rest with
  | first :: others, _ :: rest =>
    if first.isAlpha && others.all isRest then
      some (String.ofList (scheme.map Char.toLower), rest)
    else none
  | _, _ => none

/-- The characters of a locator's text that count: no controls and blanks around it, and no tabs
or line ends in it. -/
def significant (text : String) : List Char :=
  let isEdge (c : Char) : Bool := c.toNat ≤ 0x20
  let inner := ((text.toList.dropWhile isEdge).reverse.dropWhile isEdge).reverse
  inner.filter fun c => c ≠ '\t' && c ≠ '\n' && c ≠ '\r'

/-- A part behind its mark, percent-encoded. -/
def readMarked (special : List Char) (text : List Char) : Option String :=
  match text with
  | [] => none
  | _ :: rest => some (encode special rest)

/-- The scheme of a locator's text, and what is behind the colon. -/
def split? (text : String) : Option (String × List Char) := readScheme (significant text)

/-- The path behind an authority: its start, which lacks the slash in front, and the rest, which
has it. -/
def readPath (start rest : List Char) : String :=
  match start, rest with
  | [], [] => ""
  | [], _ :: rest => absolutePath rest
  | start, rest => absolutePath (start ++ rest)

/-- The locator of a scheme without rules of its own and of what is behind the colon. -/
def ofRest? (scheme : String) (rest : List Char) : Option Url := do
  let (rest, fragment) := spanUntil (· = '#') rest
  let (rest, query) := spanUntil (· = '?') rest
  let query := readMarked querySpecials query
  let fragment := readMarked fragmentSpecials fragment
  match rest with
  | '/' :: '/' :: rest =>
    let (authority, path) := spanUntil (· = '/') rest
    let (authority, start) ← readAuthority authority
    some { scheme, authority := some authority, path := readPath start path, query, fragment }
  | '/' :: rest => some { scheme, authority := none, path := absolutePath rest, query, fragment }
  | _ => some { scheme, authority := none, path := encode [] rest, query, fragment }

end Url

end TrackerWire
