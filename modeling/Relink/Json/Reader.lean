import Relink.Json.Value

/-!
Reading JSON text. A failure is a cause together with what was left of the text, so its position is
a difference of lengths. Besides strict JSON the words for infinite and undefined numbers are read.
-/

namespace Relink.Json

inductive Cause
  | value
  | propertyName
  | colon
  | comma
  | unterminatedString
  | controlCharacter
  | escape
  | unicodeEscape
  | extraData
  | byteOrderMark
  deriving DecidableEq

def Cause.message : Cause → Text
  | .value => "Expecting value"
  | .propertyName => "Expecting property name enclosed in double quotes"
  | .colon => "Expecting ':' delimiter"
  | .comma => "Expecting ',' delimiter"
  | .unterminatedString => "Unterminated string starting at"
  | .controlCharacter => "Invalid control character at"
  | .escape => "Invalid \\escape"
  | .unicodeEscape => "Invalid \\uXXXX escape"
  | .extraData => "Extra data"
  | .byteOrderMark => "Unexpected UTF-8 BOM (decode using utf-8-sig)"

structure Stop where
  cause : Cause
  rest : Text
  deriving DecidableEq

def isSpace (c : CodePoint) : Bool := c == ' ' || c == '\t' || c == '\n' || c == '\r'

def skipSpace (text : Text) : Text := text.dropWhile isSpace

def digitsOf (digits : Text) : Nat := digits.foldl (fun n c => n * 10 + (c.toNat - '0'.toNat)) 0

def fraction : Text → Text × Text
  | '.' :: rest =>
    match rest.span CodePoint.isDigit with
    | ([], _) => ([], '.' :: rest)
    | (digits, rest) => (digits, rest)
  | rest => ([], rest)

def exponent (text : Text) : Option Int × Text :=
  let signed (negative : Bool) (rest : Text) : Option Int × Text :=
    match rest.span CodePoint.isDigit with
    | ([], _) => (none, text)
    | (digits, rest) => (some (if negative then -digitsOf digits else digitsOf digits), rest)
  match text with
  | [] => (none, text)
  | mark :: rest =>
    if mark == 'e' || mark == 'E' then
      match rest with
      | '-' :: rest => signed true rest
      | '+' :: rest => signed false rest
      | rest => signed false rest
    else (none, text)

def wholePart : Text → Option (Text × Text)
  | '0' :: rest => some (['0'], rest)
  | c :: rest => if c.isDigit then some ((c :: rest).span CodePoint.isDigit) else none
  | [] => none

def readUnsigned? (negative : Bool) (text : Text) : Option (Number × Text) :=
  (wholePart text).map fun (whole, rest) =>
    let (decimals, rest) := fraction rest
    let (power, rest) := exponent rest
    let digits := digitsOf (whole ++ decimals)
    match decimals, power with
    | [], none => (.whole (if negative then -digits else digits), rest)
    | _, _ => (.real negative digits (power.getD 0 - decimals.length), rest)

def readNumber? : Text → Option (Number × Text)
  | '-' :: rest => readUnsigned? true rest
  | text => readUnsigned? false text

def hexValue? : CodePoint → Option Nat
  | .char c =>
    if c.isDigit then some (c.toNat - '0'.toNat)
    else if 'a' ≤ c && c ≤ 'f' then some (c.toNat - 'a'.toNat + 10)
    else if 'A' ≤ c && c ≤ 'F' then some (c.toNat - 'A'.toNat + 10)
    else none
  | .half _ => none

def unitCode? : Text → Option (Nat × Text)
  | a :: b :: c :: d :: next :: rest => do
    let a ← hexValue? a
    let b ← hexValue? b
    let c ← hexValue? c
    let d ← hexValue? d
    return (((a * 16 + b) * 16 + c) * 16 + d, next :: rest)
  | _ => none

def isHighHalf (code : Nat) : Bool := 0xd800 ≤ code && code < 0xdc00

def isLowHalf (code : Nat) : Bool := 0xdc00 ≤ code && code < 0xe000

/-- Reads behind `\u`, with the text from the `u` on for a failure. A high half is joined with a low
half that follows it; any other half stays by itself. -/
def unicodeEscape (atMark digits : Text) : Except Stop (CodePoint × Text) :=
  match unitCode? digits with
  | none => .error ⟨.unicodeEscape, atMark⟩
  | some (code, rest) =>
    if isHighHalf code then
      match rest with
      | '\\' :: 'u' :: more =>
        match unitCode? more with
        | some (low, rest') =>
          if isLowHalf low then
            .ok (.ofNat (0x10000 + (code - 0xd800) * 0x400 + (low - 0xdc00)), rest')
          else .ok (.ofNat code, rest)
        | none =>
          if more.length ≤ 4 then .ok (.ofNat code, rest) else .error ⟨.unicodeEscape, 'u' :: more⟩
      | _ => .ok (.ofNat code, rest)
    else .ok (.ofNat code, rest)

def simpleEscape? : CodePoint → Option CodePoint
  | '"' => some (.char '"')
  | '\\' => some (.char '\\')
  | '/' => some (.char '/')
  | 'b' => some (.char '\x08')
  | 'f' => some (.char '\x0c')
  | 'n' => some (.char '\n')
  | 'r' => some (.char '\r')
  | 't' => some (.char '\t')
  | _ => none

def stringTail (opening : Text) : Nat → Text → Except Stop (Text × Text)
  | 0, _ => .error ⟨.unterminatedString, opening⟩
  | _ + 1, [] => .error ⟨.unterminatedString, opening⟩
  | fuel + 1, c :: rest => do
    if c == '"' then return ([], rest)
    if c.toNat < 0x20 then throw ⟨.controlCharacter, c :: rest⟩
    if c == '\\' then
      match rest with
      | [] => throw ⟨.unterminatedString, opening⟩
      | mark :: after =>
        let (char, rest') ←
          if mark == 'u' then unicodeEscape rest after
          else
            match simpleEscape? mark with
            | some char => pure (char, after)
            | none => throw ⟨.escape, c :: rest⟩
        let (tail, rest') ← stringTail opening fuel rest'
        return (char :: tail, rest')
    else
      let (tail, rest) ← stringTail opening fuel rest
      return (c :: tail, rest)

def readString (rest : Text) : Except Stop (Text × Text) :=
  stringTail ('"' :: rest) (rest.length + 1) rest

def words : List (Text × Json) :=
  [("null", .null), ("true", .bool true), ("false", .bool false), ("NaN", .number .nan),
    ("Infinity", .number (.infinity false)), ("-Infinity", .number (.infinity true))]

def readWord? (text : Text) : Option (Json × Text) :=
  words.findSome? fun (word, value) =>
    if word.isPrefixOf text then some (value, text.drop word.length) else none

mutual

def readValue : Nat → Text → Except Stop (Json × Text)
  | 0, text => .error ⟨.value, text⟩
  | fuel + 1, text =>
    match text with
    | '"' :: rest => do
      let (content, rest) ← readString rest
      return (.string content, rest)
    | '\x7b' :: rest =>
      match skipSpace rest with
      | '\x7d' :: rest => .ok (.object [], rest)
      | rest => do
        let (entries, rest) ← readMembers fuel rest
        return (.object (Fields.ofList entries), rest)
    | '[' :: rest =>
      match skipSpace rest with
      | ']' :: rest => .ok (.array [], rest)
      | rest => do
        let (items, rest) ← readElements fuel rest
        return (.array items, rest)
    | text =>
      match readWord? text, readNumber? text with
      | some result, _ => .ok result
      | none, some (n, rest) => .ok (.number n, rest)
      | none, none => .error ⟨.value, text⟩

def readMembers : Nat → Text → Except Stop (List (Text × Json) × Text)
  | 0, text => .error ⟨.value, text⟩
  | fuel + 1, text => do
    let '"' :: rest := text | throw ⟨.propertyName, text⟩
    let (key, rest) ← readString rest
    let ':' :: rest := skipSpace rest | throw ⟨.colon, skipSpace rest⟩
    let (item, rest) ← readValue fuel (skipSpace rest)
    match skipSpace rest with
    | '\x7d' :: rest => return ([(key, item)], rest)
    | ',' :: rest =>
      let (entries, rest) ← readMembers fuel (skipSpace rest)
      return ((key, item) :: entries, rest)
    | rest => throw ⟨.comma, rest⟩

def readElements : Nat → Text → Except Stop (List Json × Text)
  | 0, text => .error ⟨.value, text⟩
  | fuel + 1, text => do
    let (item, rest) ← readValue fuel text
    match skipSpace rest with
    | ']' :: rest => return ([item], rest)
    | ',' :: rest =>
      let (items, rest) ← readElements fuel (skipSpace rest)
      return (item :: items, rest)
    | rest => throw ⟨.comma, rest⟩

end

/-- A character is met at most twice, as a value and as the first element of an array. -/
def depthFor (text : Text) : Nat := 2 * text.length + 2

def document (text : Text) : Except Stop Json :=
  match text with
  | '\ufeff' :: _ => .error ⟨.byteOrderMark, text⟩
  | text => do
    let (result, rest) ← readValue (depthFor text) (skipSpace text)
    match skipSpace rest with
    | [] => return result
    | rest => throw ⟨.extraData, rest⟩

structure Failure where
  cause : Cause
  line : Nat
  column : Nat
  position : Nat
  deriving DecidableEq

def Stop.locate (stop : Stop) (text : Text) : Failure :=
  let before := text.take (text.length - stop.rest.length)
  { cause := stop.cause
    line := before.count (.char '\n') + 1
    column := (before.reverse.takeWhile (· != .char '\n')).length + 1
    position := before.length }

def Failure.message (failure : Failure) : Text :=
  failure.cause.message ++ ": line " ++ Text.ofNat failure.line ++ " column " ++
    Text.ofNat failure.column ++ " (char " ++ Text.ofNat failure.position ++ ")"

def parse (text : Text) : Except Failure Json := (document text).mapError (·.locate text)

end Relink.Json
