import Fluo.Lib.OrderedMap
import Fluo.Lib.JsonNumber
import Fluo.Lib.UriComponent

/-!
# JSON texts

`JSON.stringify` of the values that JSON has, and `JSON.parse`. A text that was made
of a value is read as that value. Numbers are written and read by a format.
-/

namespace Fluo.Js

/-- A way to write numbers, and to read what was written. -/
structure NumberFormat (N : Type) where
  text : N → JsString
  read : JsString → Option N
  read_text : ∀ n, read (text n) = some n
  units : ∀ n, (text n).all isNumberUnit = true
  head : ∀ n, ∃ u rest, text n = u :: rest ∧ (u = unit '-' ∨ isDigit u = true)

def decimalFormat : NumberFormat Decimal := ⟨Decimal.text, readNumber, readNumber_text, text_units, text_head⟩

inductive Json (N : Type) where
  | null
  | bool (b : Bool)
  | number (n : N)
  | string (s : JsString)
  | array (items : List (Json N))
  | object (entries : List (JsString × Json N))

/-! ## Writing -/

def lowerHex (n : Nat) : UInt16 := unit (Char.ofNat (if n < 10 then 48 + n else 87 + n))

def unicodeEscape (u : UInt16) : JsString :=
  [unit '\\', unit 'u', lowerHex (u.toNat / 4096), lowerHex (u.toNat / 256 % 16), lowerHex (u.toNat / 16 % 16),
    lowerHex (u.toNat % 16)]

/-- The short escapes: the unit, and the letter after the backslash. -/
def shortEscapes : List (UInt16 × UInt16) :=
  [(8, unit 'b'), (9, unit 't'), (10, unit 'n'), (12, unit 'f'), (13, unit 'r'), (unit '"', unit '"'), (unit '\\', unit '\\')]

def quoteUnit (u : UInt16) : JsString :=
  match shortEscapes.find? (·.1 = u) with
  | some (_, letter) => [unit '\\', letter]
  | none => if u.toNat < 0x20 || isHighSurrogate u || isLowSurrogate u then unicodeEscape u else [u]

/-- Paired surrogates stay, unpaired ones are escaped. -/
def quoteUnits : JsString → JsString
  | [] => []
  | [u] => quoteUnit u
  | u :: v :: rest =>
    if isHighSurrogate u && isLowSurrogate v then u :: v :: quoteUnits rest else quoteUnit u ++ quoteUnits (v :: rest)

def quote (s : JsString) : JsString := unit '"' :: (quoteUnits s ++ [unit '"'])

section

variable {N : Type} (format : NumberFormat N)

mutual

/-- `JSON.stringify` -/
def stringify : Json N → JsString
  | .null => text "null"
  | .bool b => if b then text "true" else text "false"
  | .number n => format.text n
  | .string s => quote s
  | .array items => unit '[' :: (stringifyItems items ++ [unit ']'])
  | .object entries => unit '\x7b' :: (stringifyEntries entries ++ [unit '\x7d'])

def stringifyItems : List (Json N) → JsString
  | [] => []
  | [v] => stringify v
  | v :: w :: items => stringify v ++ unit ',' :: stringifyItems (w :: items)

def stringifyEntries : List (JsString × Json N) → JsString
  | [] => []
  | [(k, v)] => quote k ++ unit ':' :: stringify v
  | (k, v) :: e :: entries => quote k ++ unit ':' :: (stringify v ++ unit ',' :: stringifyEntries (e :: entries))

end

/-! ## Reading -/

def isJsonSpace (u : UInt16) : Bool := u ∈ [32, 9, 10, 13]

def skipSpace (s : JsString) : JsString := s.dropWhile isJsonSpace

def hexUnit (a b c d : UInt16) : Option UInt16 :=
  (hexValue a.toNat).bind fun a => (hexValue b.toNat).bind fun b => (hexValue c.toNat).bind fun c =>
    (hexValue d.toNat).map fun d => (((a * 16 + b) * 16 + c) * 16 + d).toUInt16

def unescape (letter : UInt16) : Option UInt16 :=
  if letter = unit '/' then some letter else (shortEscapes.find? (·.2 = letter)).map Prod.fst

/-- A string after its opening quote, and what follows it. -/
def readString : JsString → Option (JsString × JsString)
  | [] => none
  | u :: rest =>
    if u = unit '"' then some ([], rest)
    else if u = unit '\\' then
      match rest with
      | [] => none
      | letter :: rest =>
        if letter = unit 'u' then
          match rest with
          | a :: b :: c :: d :: rest =>
            (hexUnit a b c d).bind fun v => (readString rest).map fun p => (v :: p.1, p.2)
          | _ => none
        else (unescape letter).bind fun v => (readString rest).map fun p => (v :: p.1, p.2)
    else if u.toNat < 0x20 then none
    else (readString rest).map fun p => (u :: p.1, p.2)

/-- Of equal keys the last value counts, at the place of the first. -/
def lastValues (entries : List (JsString × Json N)) : List (JsString × Json N) :=
  entries.foldl (fun l e => OrderedMap.write e.1 e.2 l) []

def readLiteral (s : JsString) : Option (Json N × JsString) :=
  if (text "null").isPrefixOf s then some (.null, s.drop 4)
  else if (text "true").isPrefixOf s then some (.bool true, s.drop 4)
  else if (text "false").isPrefixOf s then some (.bool false, s.drop 5)
  else none

def readNumberToken (s : JsString) : Option (Json N × JsString) :=
  (format.read (s.takeWhile isNumberUnit)).map fun n => (.number n, s.dropWhile isNumberUnit)

mutual

def readValue : Nat → JsString → Option (Json N × JsString)
  | 0, _ => none
  | fuel + 1, s =>
    match skipSpace s with
    | [] => none
    | u :: rest =>
      if u = unit '"' then (readString rest).map fun p => (.string p.1, p.2)
      else if u = unit '[' then
        if (skipSpace rest).head? = some (unit ']') then some (.array [], (skipSpace rest).drop 1)
        else (readItems fuel rest).map fun p => (.array p.1, p.2)
      else if u = unit '\x7b' then
        if (skipSpace rest).head? = some (unit '\x7d') then some (.object [], (skipSpace rest).drop 1)
        else (readEntries fuel rest).map fun p => (.object (lastValues p.1), p.2)
      else if u = unit '-' || isDigit u then readNumberToken format (u :: rest)
      else readLiteral (u :: rest)

def readItems : Nat → JsString → Option (List (Json N) × JsString)
  | 0, _ => none
  | fuel + 1, s =>
    (readValue fuel s).bind fun p =>
      match skipSpace p.2 with
      | [] => none
      | u :: rest =>
        if u = unit ',' then (readItems fuel rest).map fun q => (p.1 :: q.1, q.2)
        else if u = unit ']' then some ([p.1], rest)
        else none

def readEntries : Nat → JsString → Option (List (JsString × Json N) × JsString)
  | 0, _ => none
  | fuel + 1, s =>
    match skipSpace s with
    | [] => none
    | u :: rest =>
      if u = unit '"' then
        (readString rest).bind fun k =>
          match skipSpace k.2 with
          | [] => none
          | u :: rest =>
            if u = unit ':' then
              (readValue fuel rest).bind fun p =>
                match skipSpace p.2 with
                | [] => none
                | u :: rest =>
                  if u = unit ',' then (readEntries fuel rest).map fun q => ((k.1, p.1) :: q.1, q.2)
                  else if u = unit '\x7d' then some ([(k.1, p.1)], rest)
                  else none
            else none
      else none

end

/-- `JSON.parse` -/
def parseJson (s : JsString) : Option (Json N) :=
  (readValue format (s.length + 1) s).bind fun p => if skipSpace p.2 = [] then some p.1 else none

mutual

def Json.Distinct : Json N → Prop
  | .array items => DistinctItems items
  | .object entries => (entries.map Prod.fst).Nodup ∧ DistinctEntries entries
  | _ => True

def Json.DistinctItems : List (Json N) → Prop
  | [] => True
  | v :: items => v.Distinct ∧ Json.DistinctItems items

def Json.DistinctEntries : List (JsString × Json N) → Prop
  | [] => True
  | (_, v) :: entries => v.Distinct ∧ Json.DistinctEntries entries

end

end

end Fluo.Js
