/-!
# Columns of text

Text set into a column of a given width. Widths count characters, and text wider than its column
is kept whole.
-/

namespace TrackerWire.Text

def copies (n : Nat) (c : Char) : String := String.ofList (List.replicate n c)

/-- Set at the left of the column. -/
def padRight (width : Nat) (s : String) : String := s ++ copies (width - s.length) ' '

/-- Set at the right of the column. -/
def padLeft (width : Nat) (s : String) : String := copies (width - s.length) ' ' ++ s

/-- Set in the middle of the column; an odd blank goes to the right. -/
def padBoth (width : Nat) (s : String) : String :=
  let blanks := width - s.length
  copies (blanks / 2) ' ' ++ s ++ copies (blanks - blanks / 2) ' '

def firstChars (n : Nat) (s : String) : String := String.ofList (s.toList.take n)

/-- A number in decimal, zeros in front, at least `width` digits. -/
def zeroPad (width n : Nat) : String :=
  let digits := toString n
  copies (width - digits.length) '0' ++ digits

end TrackerWire.Text
