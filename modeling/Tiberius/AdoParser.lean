import Mathlib.Data.List.DropRight
import Tiberius.Reading.Scanning

/-!
The parser of connection strings. It runs over the characters of an ASCII text with
one index, which the loops for keys, values and separators move. What it makes of a
text depends on nothing but the characters in front of the index, so it is described
by functions on the rest of the text.
-/

namespace Tiberius.AdoParser

open Reading Reading.Scanner

/-- The pairs of a connection string, by their keys. -/
structure AdoNetString where
  pairs : String → Option String

/-- `char::is_ascii_whitespace`. -/
def isAsciiWhitespace (c : Char) : Bool :=
  c = ' ' || c = '\t' || c = '\n' || c = '\x0c' || c = '\r'

/-- `str::trim_matches` with that whitespace. -/
def trim (text : List Char) : List Char :=
  (text.dropWhile isAsciiWhitespace).rdropWhile isAsciiWhitespace

/-- `str::trim_end_matches` with that whitespace. -/
def trimEnd (text : List Char) : List Char := text.rdropWhile isAsciiWhitespace

def isQuote (c : Char) : Bool := c = '\'' || c = '"'

/-- A computation on the text, whose errors are reasons. -/
abbrev Parser (α : Type) : Type := Scanner Char String α

/-- A round of a loop that reads up to a single closing character, where a double one
stands for itself. -/
def singleRound (close : Char) (stops : Parser Bool) (error : String) (v : List Char) :
    Parser (List Char ⊕ List Char) := do
  if ← stops then reject error
  else
    let c ← symbol 0
    if c = close then
      if ← holds (· = close) 1 then
        forward 2
        pure (.inr (v ++ [close]))
      else
        forward 1
        pure (.inl v)
    else
      forward 1
      pure (.inr (v ++ [c]))

/-- `i >= n || b[i] == b';'`. -/
def keyStops : Parser Bool := do
  if ← inside 0 then holds (· = ';') 0
  else pure true

/-- `i >= n`. -/
def atEnd : Parser Bool := do
  let within ← inside 0
  pure !within

/-- The key: everything up to the first single `=`. -/
def scanKey : Parser (List Char) :=
  loop (singleRound '=' keyStops "key-value pairs must be joined by a `=`") []

/-- A quoted value behind its opening quote. -/
def scanQuoted (quote : Char) : Parser (List Char) :=
  loop (singleRound quote atEnd
    (if quote = '\'' then "the connection string has an unclosed single quote"
      else "the connection string has an unclosed double quote")) []

def bracedRound (v : List Char) : Parser (List Char ⊕ List Char) := do
  if ← atEnd then reject "the connection string has an unclosed brace `\x7b`"
  else
    let c ← symbol 0
    if c = '}' then
      forward 1
      pure (.inl v)
    else
      forward 1
      pure (.inr (v ++ [c]))

def scanBraced : Parser (List Char) := loop bracedRound []

def trailingRound (error : String) (_ : Unit) : Parser (Unit ⊕ Unit) := do
  if ← holds (· ≠ ';') 0 then
    if ← holds isAsciiWhitespace 0 then
      forward 1
      pure (.inr ())
    else reject error
  else pure (.inl ())

def skipTrailing (error : String) : Parser Unit := loop (trailingRound error) ()

def trailingBraced : String :=
  "unexpected characters after a `\x7b…\x7d` value; quote with '' or \"\" if the value contains " ++
    "`\x7d`"

def scanValue : Parser (List Char) := do
  skipWhile isAsciiWhitespace
  if ← holds isQuote 0 then
    let quote ← symbol 0
    forward 1
    let v ← scanQuoted quote
    skipTrailing "unexpected characters after a quoted value"
    pure v
  else if ← holds (· = '{') 0 then
    forward 1
    let v ← scanBraced
    skipTrailing trailingBraced
    pure v
  else
    let v ← sliceOver (skipWhile (· ≠ ';'))
    pure (trimEnd v)

/-- A key and its value, and the separator behind them. -/
def scanPair : Parser (String × String) := do
  let key ← scanKey
  let key := (trim key).map Char.toLower
  if key.isEmpty then reject "a key in the connection string is empty"
  else
    let value ← scanValue
    if ← holds (· = ';') 0 then
      forward 1
      pure (String.ofList key, String.ofList value)
    else pure (String.ofList key, String.ofList value)

def isSeparator (c : Char) : Bool := c = ';' || isAsciiWhitespace c

/-- A round of the loop over the pairs, of which the last one with a key wins. -/
def pairsRound (pairs : String → Option String) :
    Parser ((String → Option String) ⊕ (String → Option String)) := do
  if ← inside 0 then
    skipWhile isSeparator
    if ← inside 0 then
      let (key, value) ← scanPair
      pure (.inr (Function.update pairs key (some value)))
    else pure (.inl pairs)
  else pure (.inl pairs)

def scanPairs : Parser (String → Option String) := loop pairsRound fun _ => none

/-- `str::is_ascii`. -/
def isAscii (text : List Char) : Bool := text.all (·.toNat < 128)

/-- `parse`, with the positions of its index. In an ASCII text the bytes are the
characters. -/
def parseScan (input : String) : Scan String (String → Option String) :=
  if isAscii input.toList then scanPairs.run input.toList 0
  else
    { visited := []
      outcome := .error (.error "the connection string contains non-ASCII characters") }

def parse (input : String) : Except (Stop String) AdoNetString :=
  (parseScan input).outcome.map fun result => { pairs := result.1 }

end Tiberius.AdoParser
