import Fluo.Lib.PlainObject
import Fluo.Lib.Code
import Fluo.Lib.Numerals

/-!
# Dotenv files

`parseDotenvContent`: the lines of a file are assignments, comments or blank. A value
in quotes goes on over the following lines until its quote is closed.
-/

namespace Fluo.Config.Env

open Js
open PlainObject (Record)

def lineFeed : UInt16 := unit '\n'

def carriageReturn : UInt16 := unit '\r'

def backslash : UInt16 := unit '\\'

/-- `content.split(/\r?\n/)` -/
def splitLines : JsString → List JsString
  | [] => [[]]
  | [u] => if u = lineFeed then [[], []] else [[u]]
  | u :: v :: rest =>
    if u = carriageReturn ∧ v = lineFeed then [] :: splitLines rest
    else if u = lineFeed then [] :: splitLines (v :: rest)
    else (splitLines (v :: rest)).modifyHead (u :: ·)

/-- `value.replace(/\\n/g, '\n')` and the like: a backslash and a letter become one unit. -/
def unescapeUnit (letter replacement : UInt16) : JsString → JsString
  | [] => []
  | [u] => [u]
  | u :: v :: rest =>
    if u = backslash ∧ v = letter then replacement :: unescapeUnit letter replacement rest
    else u :: unescapeUnit letter replacement (v :: rest)

def isQuote (u : UInt16) : Bool := u ∈ [unit '"', unit '\'', unit '\x60']

def unquoteEnvValue (value : JsString) : JsString :=
  match value with
  | [] => value
  | [_] => value
  | quote :: rest =>
    if isQuote quote = false ∨ value.getLast? ≠ some quote then value
    else
      let unquoted := rest.dropLast
      if quote = unit '"' then
        unescapeUnit (unit 'r') carriageReturn (unescapeUnit (unit 'n') lineFeed unquoted)
      else unquoted

def stripInlineEnvComment (value : JsString) : JsString := value.takeWhile (· ≠ unit '#')

/-- The first quote after `previous` that no backslash stands before. -/
def closingFrom (quote : UInt16) (previous : UInt16) : JsString → Option Nat
  | [] => none
  | u :: rest => if u = quote ∧ previous ≠ backslash then some 0 else (closingFrom quote u rest).map (· + 1)

def findClosingEnvQuote (value : JsString) (quote : UInt16) : Option Nat :=
  match value with
  | [] => none
  | first :: rest => (closingFrom quote first rest).map (· + 1)

/-- The value up to its closing quote, and the lines after it. -/
def collectQuotedEnvValue (quote : UInt16) (value : JsString) (lines : List JsString) : JsString × List JsString :=
  match findClosingEnvQuote value quote with
  | some closingQuoteIndex => (value.take (closingQuoteIndex + 1), lines)
  | none =>
    match lines with
    | [] => (value, [])
    | line :: lines => collectQuotedEnvValue quote (value ++ lineFeed :: line) lines
termination_by lines

theorem collected_le (quote : UInt16) (value : JsString) (lines : List JsString) :
    (collectQuotedEnvValue quote value lines).2.length ≤ lines.length := by
  induction lines generalizing value with
  | nil =>
    rw [collectQuotedEnvValue]
    split <;> exact Nat.le_refl _
  | cons line lines ih =>
    rw [collectQuotedEnvValue]
    split
    · exact Nat.le_refl _
    · exact Nat.le_succ_of_le (ih _)

/-- `[\w.-]` -/
def isKeyUnit (u : UInt16) : Bool :=
  isDigit u || (unit 'A' ≤ u && u ≤ unit 'Z') || (unit 'a' ≤ u && u ≤ unit 'z') || u ∈ [unit '_', unit '.', unit '-']

def isSeparator (u : UInt16) : Bool := u ∈ [unit ':', unit '=']

def exportPrefix : JsString := text "export "

def trimStart (s : JsString) : JsString := s.dropWhile isWhiteSpace

/-- The key of a line and the raw value after its separator. -/
def readEntry (line : JsString) : Option (JsString × JsString) :=
  let entry := if exportPrefix.isPrefixOf line then trimStart (line.drop 7) else line
  match entry.findIdx? isSeparator with
  | none => none
  | some 0 => none
  | some separatorIndex =>
    let key := trim (entry.take separatorIndex)
    if key ≠ [] ∧ key.all isKeyUnit = true then some (key, trim (entry.drop (separatorIndex + 1))) else none

def parseLines (parsed : Record JsString) : List JsString → Record JsString
  | [] => parsed
  | rawLine :: lines =>
    let line := trim rawLine
    if line = [] ∨ line.head? = some (unit '#') then parseLines parsed lines
    else
      match readEntry line with
      | none => parseLines parsed lines
      | some (key, rawValue) =>
        match rawValue.head?.filter isQuote with
        | some quote =>
          let collected := collectQuotedEnvValue quote rawValue lines
          parseLines (parsed.assign key (.single (.data (unquoteEnvValue collected.1)))) collected.2
        | none =>
          parseLines (parsed.assign key (.single (.data (unquoteEnvValue (trim (stripInlineEnvComment rawValue)))))) lines
termination_by lines => lines.length
decreasing_by
  · simp
  · simp
  · exact Nat.lt_succ_of_le (collected_le _ _ _)
  · simp

def parseDotenvContent (content : JsString) : Record JsString := parseLines .empty (splitLines content)

end Fluo.Config.Env
