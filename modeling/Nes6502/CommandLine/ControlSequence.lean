/-!
# Control sequences

A text for a terminal may hold characters that are not shown but tell the terminal something: single
control characters, and sequences that an escape character opens. Which characters belong to a
sequence depends on how it began: `Mode` is what a reader has to remember of it.

`visible` is what is left of a text where no terminal reads it.
-/

set_option autoImplicit false

namespace Nes6502.CommandLine

/-- Where in a sequence a character stands. -/
inductive Mode where
  /-- In no sequence. -/
  | text
  | escape
  | escapeIntermediate
  | controlEntry
  | controlParameter
  | controlIntermediate
  | controlIgnored
  | deviceEntry
  | deviceParameter
  | deviceIntermediate
  /-- In the string of a device control. -/
  | deviceString
  /-- In a command to the operating system. -/
  | systemString
  /-- In a string without a meaning to the terminal. -/
  | otherString
  deriving DecidableEq, Repr

namespace Mode

def isAscii (c : Char) : Bool := c.toNat < 0x80

/-- Blanks, marks and some punctuation: the characters that may stand before a final one. -/
def isIntermediate (c : Char) : Bool := ' ' ≤ c && c ≤ '/'

/-- Digits and their separators. -/
def isParameter (c : Char) : Bool := '0' ≤ c && c ≤ ';'

/-- Characters with which a parameter may begin but not go on. -/
def isPrivate (c : Char) : Bool := '<' ≤ c && c ≤ '?'

/-- Characters that end a sequence which has parameters. -/
def isFinal (c : Char) : Bool := '@' ≤ c && c ≤ '~'

/-- Whether the string terminator of a single byte occurs in the encoding of a character. -/
def endsString (c : Char) : Bool := (String.singleton c).toUTF8.toList.contains 0x9C

/-- The mode after a character that follows an escape character. -/
def afterEscape (c : Char) : Mode :=
  if isIntermediate c then .escapeIntermediate
  else match c with
    | '[' => .controlEntry
    | ']' => .systemString
    | 'P' => .deviceEntry
    | 'X' | '^' | '_' => .otherString
    | c => if '0' ≤ c && c ≤ '~' then .text else .escape

/-- The mode after a character. An escape character opens a sequence wherever it stands; the
characters for "cancel" and "substitute" end every sequence. -/
def advance (mode : Mode) (c : Char) : Mode :=
  if c = '\x1b' then .escape
  else if c = '\x18' || c = '\x1a' then .text
  else match mode with
    | .text => .text
    | .escape => afterEscape c
    | .escapeIntermediate => if '0' ≤ c && c ≤ '~' then .text else mode
    | .controlEntry =>
      if isIntermediate c then .controlIntermediate
      else if isParameter c || isPrivate c then .controlParameter
      else if isFinal c then .text
      else mode
    | .controlParameter =>
      if isIntermediate c then .controlIntermediate
      else if isPrivate c then .controlIgnored
      else if isFinal c then .text
      else mode
    | .controlIntermediate =>
      if isParameter c || isPrivate c then .controlIgnored
      else if isFinal c then .text
      else mode
    | .controlIgnored => if isFinal c then .text else mode
    | .deviceEntry =>
      if isIntermediate c then .deviceIntermediate
      else if isParameter c || isPrivate c then .deviceParameter
      else if isFinal c then .deviceString
      else mode
    | .deviceParameter =>
      if isIntermediate c then .deviceIntermediate
      else if isPrivate c || isFinal c then .deviceString
      else mode
    | .deviceIntermediate =>
      if isParameter c || isPrivate c || isFinal c then .deviceString else mode
    | .systemString => if c = '\x07' then .text else mode
    | .deviceString | .otherString => if endsString c then .text else mode

/-- Whether a line end or another mark of layout keeps its meaning in a mode. -/
def keepsLayout : Mode → Bool
  | .text | .escape | .escapeIntermediate | .controlEntry | .controlParameter
  | .controlIntermediate | .controlIgnored => true
  | .deviceEntry | .deviceParameter | .deviceIntermediate | .deviceString | .systemString
  | .otherString => false

def isLayout (c : Char) : Bool := c = '\t' || c = '\n' || c = '\x0c' || c = '\r'

/-- Whether a character is shown. -/
def shows (mode : Mode) (c : Char) : Bool :=
  if isLayout c then mode.keepsLayout
  else mode = .text && ((' ' ≤ c && c ≤ '~') || !isAscii c)

end Mode

/-- A reader of a text. -/
structure Reader where
  mode : Mode
  /-- Whether the last character was shown. From a layout mark inside a sequence to the next
  character that no text may hold, all that follows is text; the sequence goes on after it. -/
  inText : Bool
  deriving DecidableEq, Repr

/-- Reads a character and tells whether it is shown. -/
def Reader.read (reader : Reader) (c : Char) : Reader × Bool :=
  if reader.inText && Mode.text.shows c then
    (⟨if Mode.isAscii c then reader.mode else .text, true⟩, true)
  else
    let shown := reader.mode.shows c
    (⟨reader.mode.advance c, shown⟩, shown)

/-- The characters that are shown. -/
def Reader.visible (reader : Reader) : List Char → List Char
  | [] => []
  | c :: rest =>
    let (next, shown) := reader.read c
    if shown then c :: next.visible rest else next.visible rest

/-- What is shown of a text. -/
def visible (text : String) : String :=
  String.ofList (Reader.visible ⟨.text, false⟩ text.toList)

end Nes6502.CommandLine
