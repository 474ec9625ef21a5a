import TrackerWire.Text.Hex

/-!
# Socket addresses

IPv4 and IPv6 addresses with a port. IPv6 text is the recommended form: lower case, the first
longest run of two or more zero groups left out, an address that maps an IPv4 address with that
one in dotted form.
-/

namespace TrackerWire

inductive IpAddress where
  | v4 (a b c d : UInt8)
  | v6 (groups : Vector UInt16 8)
  deriving DecidableEq, Repr

structure SocketAddress where
  ip : IpAddress
  port : UInt16
  /-- The zone of an IPv6 address; zero says none. -/
  zone : Nat := 0
  deriving DecidableEq, Repr

namespace IpAddress

/-- Four octets in decimal. -/
def dotted (a b c d : UInt8) : String :=
  ".".intercalate ([a, b, c, d].map fun n => toString n.toNat)

/-- A group in hexadecimal without leading zeros. -/
def groupText (g : UInt16) : String := String.ofList (Nat.toDigits 16 g.toNat)

def groupsText (groups : List UInt16) : String := ":".intercalate (groups.map groupText)

/-- Start and length of the first longest run of zero groups: `here` is where the list starts,
`run` the length of the run that ends before it, and `best` the best run so far. -/
def longestZeros (here run : Nat) (best : Nat × Nat) : List UInt16 → Nat × Nat
  | [] => best
  | g :: rest =>
    if g = 0 then
      let best := if run + 1 > best.2 then (here - run, run + 1) else best
      longestZeros (here + 1) (run + 1) best rest
    else longestZeros (here + 1) 0 best rest

/-- Groups with the first longest run of at least two zeros written as two colons. -/
def compressed (groups : List UInt16) : String :=
  let run := longestZeros 0 0 (0, 0) groups
  if run.2 > 1 then
    groupsText (groups.take run.1) ++ "::" ++ groupsText (groups.drop (run.1 + run.2))
  else groupsText groups

def high (g : UInt16) : UInt8 := UInt8.ofNat (g.toNat / 256)

def low (g : UInt16) : UInt8 := UInt8.ofNat (g.toNat % 256)

def text : IpAddress → String
  | v4 a b c d => dotted a b c d
  | v6 groups =>
    match groups.toList with
    | [0, 0, 0, 0, 0, 0xFFFF, ab, cd] => "::ffff:" ++ dotted (high ab) (low ab) (high cd) (low cd)
    | list => compressed list

/-! ## Reading -/

/-- The digits at the start of text, at most `most` of them. -/
def takeDigits (isDigit : Char → Bool) (most : Nat) : List Char → List Char × List Char
  | c :: rest =>
    match most with
    | 0 => ([], c :: rest)
    | most + 1 =>
      if isDigit c then
        let taken := takeDigits isDigit most rest
        (c :: taken.1, taken.2)
      else ([], c :: rest)
  | [] => ([], [])

def digitsValue (base : Nat) (digits : List Char) : Nat :=
  digits.foldl (fun n c => n * base + ((Ascii.hexValue? c.toUInt8).getD 0)) 0

def isDecimal (c : Char) : Bool := c.isDigit

def isHexadecimal (c : Char) : Bool :=
  c.isDigit || ('a' ≤ c && c ≤ 'f') || ('A' ≤ c && c ≤ 'F')

/-- A decimal number up to `limit` at the start of text. -/
def readDecimal (most limit : Nat) (text : List Char) : Option (Nat × List Char) :=
  match takeDigits isDecimal most text with
  | ([], _) => none
  | (digits, rest) =>
    let n := digitsValue 10 digits
    if n ≤ limit then some (n, rest) else none

/-- One octet: at most three digits, none but a lone zero starting with zero. -/
def readOctet (text : List Char) : Option (UInt8 × List Char) :=
  match readDecimal 3 255 text with
  | some (n, rest) =>
    if text.head? = some '0' && (text.length - rest.length) > 1 then none
    else some (UInt8.ofNat n, rest)
  | none => none

def readPointOctet : List Char → Option (UInt8 × List Char)
  | '.' :: rest => readOctet rest
  | _ => none

def readOctets (text : List Char) : Option ((UInt8 × UInt8 × UInt8 × UInt8) × List Char) := do
  let (a, text) ← readOctet text
  let (b, text) ← readPointOctet text
  let (c, text) ← readPointOctet text
  let (d, text) ← readPointOctet text
  some ((a, b, c, d), text)

/-- The colon before every group but the first. -/
def afterSeparator (first : Bool) (text : List Char) : Option (List Char) :=
  if first then some text
  else
    match text with
    | ':' :: rest => some rest
    | _ => none

/-- One group of up to four digits. -/
def readGroup (text : List Char) : Option (UInt16 × List Char) :=
  match takeDigits isHexadecimal 4 text with
  | ([], _) => none
  | (digits, rest) => some (UInt16.ofNat (digitsValue 16 digits), rest)

/-- Up to `limit` groups with colons between them, of which the last two may be four octets; the
flag says that they were. -/
def readGroups (first : Bool) : Nat → List Char → List UInt16 × Bool × List Char
  | 0, text => ([], false, text)
  | limit + 1, text =>
    let octets :=
      if limit = 0 then none else (afterSeparator first text).bind readOctets
    match octets with
    | some ((a, b, c, d), rest) => ([Bytes.word a b, Bytes.word c d], true, rest)
    | none =>
      match (afterSeparator first text).bind readGroup with
      | some (g, rest) =>
        let more := readGroups false limit rest
        (g :: more.1, more.2)
      | none => ([], false, text)

/-- Eight groups, the first of a list and zeros where the list is short. -/
def eight (groups : List UInt16) : Vector UInt16 8 := Vector.ofFn fun i => groups.getD i.val 0

/-- The groups of an IPv6 address. -/
def readV6 (text : List Char) : Option (Vector UInt16 8 × List Char) :=
  let (front, octets, rest) := readGroups true 8 text
  if front.length = 8 then some (eight front, rest)
  else if octets then none
  else
    match rest with
    | ':' :: ':' :: rest =>
      let (back, _, rest) := readGroups true (7 - front.length) rest
      some (eight (front ++ List.replicate (8 - front.length - back.length) 0 ++ back), rest)
    | _ => none

end IpAddress

namespace SocketAddress

def text (address : SocketAddress) : String :=
  let port := ":" ++ toString address.port.toNat
  match address.ip with
  | .v4 .. => address.ip.text ++ port
  | .v6 _ =>
    let zone := if address.zone = 0 then "" else "%" ++ toString address.zone
    "[" ++ address.ip.text ++ zone ++ "]" ++ port

/-- Host and port with a colon between them and no brackets, as devices are told it. -/
def hostPort (address : SocketAddress) : String :=
  address.ip.text ++ ":" ++ toString address.port.toNat

/-- A port behind a colon, at the end of text. -/
def readPort : List Char → Option UInt16
  | ':' :: rest =>
    match IpAddress.readDecimal rest.length 65535 rest with
    | some (n, []) => some (UInt16.ofNat n)
    | _ => none
  | _ => none

/-- The socket address that text denotes. -/
def parse? (text : String) : Option SocketAddress :=
  match text.toList with
  | '[' :: chars => do
    let (groups, rest) ← IpAddress.readV6 chars
    let (zone, rest) ←
      match rest with
      | '%' :: rest => IpAddress.readDecimal rest.length 4294967295 rest
      | _ => some (0, rest)
    match rest with
    | ']' :: rest =>
      let port ← readPort rest
      some { ip := .v6 groups, port, zone }
    | _ => none
  | chars => do
    let ((a, b, c, d), rest) ← IpAddress.readOctets chars
    let port ← readPort rest
    some { ip := .v4 a b c d, port }

end SocketAddress

end TrackerWire
