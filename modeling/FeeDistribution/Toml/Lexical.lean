import FeeDistribution.Text.Hex

/-!
# Blanks, comments, strings and keys of TOML

Each function takes the characters that are left and returns what it read and what is left after it.
A line ends with a line feed, which a carriage return may precede.
-/

namespace FeeDistribution.Toml

/-! ## Between the parts of a document -/

/-- A space or tab. -/
def isBlank (c : Char) : Bool :=
  c == ' ' || c == '\t'

/-- The characters from the first that is neither space nor tab. -/
def skipBlanks (text : List Char) : List Char :=
  text.dropWhile isBlank

/-- A character that may stand for itself in a text: no control character but the tab. -/
def isPlain (c : Char) : Bool :=
  c == '\t' || (32 ≤ c.toNat && c.toNat != 127)

/-- The characters after the end of a line. -/
def newline? : List Char → Option (List Char)
  | '\n' :: rest => some rest
  | '\r' :: '\n' :: rest => some rest
  | _ => none

/-- The characters from the end of a comment, if there is one. -/
def skipComment : List Char → List Char
  | '#' :: rest => rest.dropWhile isPlain
  | text => text

/-- The characters of the next line, if nothing but blanks and a comment is left of this one. -/
def endLine? (text : List Char) : Option (List Char) :=
  match skipComment (skipBlanks text) with
  | [] => some []
  | rest => newline? rest

/-- The characters from the first that is no blank, no line end and in no comment.  The flag says
whether a comment has begun. -/
def skipFiller : Bool → List Char → List Char
  | _, [] => []
  | _, '\n' :: rest => skipFiller false rest
  | _, '\r' :: '\n' :: rest => skipFiller false rest
  | true, c :: rest => if isPlain c then skipFiller true rest else c :: rest
  | false, '#' :: rest => skipFiller true rest
  | false, c :: rest => if isBlank c then skipFiller false rest else c :: rest

/-! ## Strings -/

/-- The character that an escape of one letter stands for. -/
def unescape? : Char → Option Char
  | '"' => some '"'
  | '\\' => some '\\'
  | 'b' => some '\x08'
  | 'f' => some '\x0c'
  | 'n' => some '\n'
  | 'r' => some '\r'
  | 't' => some '\t'
  | _ => none

/-- The character whose code these hexadecimal digits spell. -/
def charOfHex? (digits : List Char) : Option Char := do
  let values ← digits.mapM fun c => Text.Hex.value? c.toNat
  let code := Text.Hex.toNat values
  if code < 0xD800 ∨ (0xE000 ≤ code ∧ code < 0x110000) then pure (Char.ofNat code) else none

/-- Puts a character before what was read. -/
def before (c : Char) : Option (List Char × List Char) → Option (List Char × List Char)
  | some (read, rest) => some (c :: read, rest)
  | none => none

/-- Reads a string after its opening quote. -/
def readBasic : List Char → Option (List Char × List Char)
  | [] => none
  | '"' :: rest => some ([], rest)
  | '\\' :: 'u' :: a :: b :: c :: d :: rest => do
    let code ← charOfHex? [a, b, c, d]
    before code (readBasic rest)
  | '\\' :: 'U' :: a :: b :: c :: d :: e :: f :: g :: h :: rest => do
    let code ← charOfHex? [a, b, c, d, e, f, g, h]
    before code (readBasic rest)
  | '\\' :: letter :: rest => do
    let c ← unescape? letter
    before c (readBasic rest)
  | c :: rest => if isPlain c && c != '\\' then before c (readBasic rest) else none

/-- Reads a literal string after its opening apostrophe. -/
def readLiteral : List Char → Option (List Char × List Char)
  | [] => none
  | '\'' :: rest => some ([], rest)
  | c :: rest => if isPlain c then before c (readLiteral rest) else none

/-- Whether nothing but blanks is left of the line. -/
def blankToEnd (text : List Char) : Bool :=
  (newline? (skipBlanks text)).isSome

/-- Reads a string of several lines after its opening quotes.  A backslash at the end of a line
hides the line end and all blanks and line ends after it; the flag says whether they are being
hidden.  One or two quotes belong to the string, also just before the three that close it. -/
def readBasicLines : Bool → List Char → Option (List Char × List Char)
  | _, [] => none
  | _, '"' :: '"' :: '"' :: '"' :: '"' :: rest => some (['"', '"'], rest)
  | _, '"' :: '"' :: '"' :: '"' :: rest => some (['"'], rest)
  | _, '"' :: '"' :: '"' :: rest => some ([], rest)
  | _, '"' :: rest => before '"' (readBasicLines false rest)
  | hidden, '\n' :: rest =>
    if hidden then readBasicLines true rest else before '\n' (readBasicLines false rest)
  | hidden, '\r' :: '\n' :: rest =>
    if hidden then readBasicLines true rest else before '\n' (readBasicLines false rest)
  | _, '\\' :: 'u' :: a :: b :: c :: d :: rest => do
    let code ← charOfHex? [a, b, c, d]
    before code (readBasicLines false rest)
  | _, '\\' :: 'U' :: a :: b :: c :: d :: e :: f :: g :: h :: rest => do
    let code ← charOfHex? [a, b, c, d, e, f, g, h]
    before code (readBasicLines false rest)
  | _, '\\' :: letter :: rest =>
    if blankToEnd (letter :: rest) then
      if letter = '\r' then readBasicLines true (rest.drop 1) else readBasicLines true rest
    else do
      let c ← unescape? letter
      before c (readBasicLines false rest)
  | hidden, c :: rest =>
    if hidden && isBlank c then readBasicLines true rest
    else if isPlain c && c != '\\' then before c (readBasicLines false rest)
    else none
  termination_by _ text => text.length
  decreasing_by all_goals (simp <;> omega)

/-- Reads a literal string of several lines after its opening apostrophes.  One or two apostrophes
belong to the string, also just before the three that close it. -/
def readLiteralLines : List Char → Option (List Char × List Char)
  | [] => none
  | '\'' :: '\'' :: '\'' :: '\'' :: '\'' :: rest => some (['\'', '\''], rest)
  | '\'' :: '\'' :: '\'' :: '\'' :: rest => some (['\''], rest)
  | '\'' :: '\'' :: '\'' :: rest => some ([], rest)
  | '\n' :: rest => before '\n' (readLiteralLines rest)
  | '\r' :: '\n' :: rest => before '\n' (readLiteralLines rest)
  | c :: rest => if isPlain c then before c (readLiteralLines rest) else none

/-- The characters after a line end that directly follows the opening of a string. -/
def afterOpening (text : List Char) : List Char :=
  (newline? text).getD text

/-- Reads a string of any kind. -/
def readText : List Char → Option (List Char × List Char)
  | '"' :: '"' :: '"' :: rest => readBasicLines false (afterOpening rest)
  | '"' :: rest => readBasic rest
  | '\'' :: '\'' :: '\'' :: rest => readLiteralLines (afterOpening rest)
  | '\'' :: rest => readLiteral rest
  | _ => none

/-! ## Keys -/

/-- A character of a key without quotes. -/
def isBare (c : Char) : Bool :=
  c.isAlphanum || c == '_' || c == '-'

/-- Reads one name of a key. -/
def readName : List Char → Option (String × List Char)
  | '"' :: rest => do
    let (name, rest) ← readBasic rest
    pure (String.ofList name, rest)
  | '\'' :: rest => do
    let (name, rest) ← readLiteral rest
    pure (String.ofList name, rest)
  | text =>
    match text.takeWhile isBare with
    | [] => none
    | name => some (String.ofList name, text.dropWhile isBare)

/-- Reads a key of at most so many names: names between dots, with blanks around each.  The last
name is apart from the path before it. -/
def readKey : Nat → List Char → Option ((List String × String) × List Char)
  | 0, _ => none
  | bound + 1, text => do
    let (name, rest) ← readName (skipBlanks text)
    match skipBlanks rest with
    | '.' :: rest =>
      let ((path, last), rest) ← readKey bound rest
      pure ((name :: path, last), rest)
    | rest => pure (([], name), rest)

end FeeDistribution.Toml
