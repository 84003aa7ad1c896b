import WorkspaceImports.Json.Basic

namespace WorkspaceImports.Json.Reader

inductive Fault
  | byteOrderMark
  | value
  | name
  | colon
  | comma
  | extra
  | control
  | unterminated
  | escape
  | unicodeEscape
deriving DecidableEq, Repr

def Fault.message : Fault → Text
  | byteOrderMark => "Unexpected UTF-8 BOM (decode using utf-8-sig)".toList
  | value => "Expecting value".toList
  | name => "Expecting property name enclosed in double quotes".toList
  | colon => "Expecting ':' delimiter".toList
  | comma => "Expecting ',' delimiter".toList
  | extra => "Extra data".toList
  | control => "Invalid control character at".toList
  | unterminated => "Unterminated string starting at".toList
  | escape => "Invalid \\escape".toList
  | unicodeEscape => "Invalid \\uXXXX escape".toList

inductive Container
  | array
  | object
deriving DecidableEq, Repr

-- Why reading stops: a fault with so many characters left from it on, a whole number with too
-- many digits, or containers in containers beyond what is followed.
inductive Stop
  | malformed (fault : Fault) (left : Nat)
  | hugeInteger (digits : Nat)
  | tooDeep (container : Container)
deriving DecidableEq, Repr

-- The greatest number of digits of a whole number.
def digitLimit : Nat := 4300

-- The number of containers around a value from which on no further one is entered. The format has
-- no such number: it is what the interpreter's bound on nested calls leaves to a reader that starts
-- at one certain depth, and from a deeper start it is less.
def depthLimit : Nat := 990

-- What is read at the start of a text, and how many characters it takes up.
abbrev Read (α : Type) := Except Stop (α × Nat)

def isBlank (c : Char) : Bool := c == ' ' || c == '\t' || c == '\n' || c == '\r'

def blankCount (text : Text) : Nat := (text.takeWhile isBlank).length

def malformedAt {α : Type} (fault : Fault) (rest : Text) : Except Stop α :=
  .error (.malformed fault rest.length)

def isHighHalf (code : Nat) : Bool := 0xD800 ≤ code && code < 0xDC00

def isLowHalf (code : Nat) : Bool := 0xDC00 ≤ code && code < 0xE000

def joinHalves (high low : Nat) : Char :=
  .ofNat (0x10000 + (high - 0xD800) * 0x400 + (low - 0xDC00))

-- The code of four hexadecimal digits. A character has to follow them.
def code? : Text → Option Nat
  | a :: b :: c :: d :: _ :: _ =>
      match Text.hexValue? a, Text.hexValue? b, Text.hexValue? c, Text.hexValue? d with
      | some a, some b, some c, some d => some (((a * 16 + b) * 16 + c) * 16 + d)
      | _, _, _, _ => none
  | _ => none

def escaped? : Char → Option Char
  | '"' => some '"'
  | '\\' => some '\\'
  | '/' => some '/'
  | 'b' => some '\x08'
  | 'f' => some '\x0C'
  | 'n' => some '\n'
  | 'r' => some '\r'
  | 't' => some '\t'
  | _ => none

-- The unit that an escape stands for, read after its backslash. A high half takes the escape
-- of a low half after it.
def escape (opening : Nat) : Text → Read Letter
  | [] => .error (.malformed .unterminated opening)
  | 'u' :: rest =>
      match code? rest with
      | none => malformedAt .unicodeEscape ('u' :: rest)
      | some high =>
          if isHighHalf high then
            match rest.drop 4 with
            | '\\' :: 'u' :: next =>
                match code? next with
                | none => malformedAt .unicodeEscape ('u' :: next)
                | some low =>
                    if isLowHalf low then .ok (.char (joinHalves high low), 11)
                    else .ok (.half high, 5)
            | _ => .ok (.half high, 5)
          else .ok (.ofCode high, 5)
  | c :: rest =>
      match escaped? c with
      | some c => .ok (.char c, 1)
      | none => .error (.malformed .escape (rest.length + 2))

-- The units of a string, read after its opening quote and with the closing one. `opening` is
-- the number of characters left from the opening quote on.
def letters (opening : Nat) : Text → Read (List Letter)
  | [] => .error (.malformed .unterminated opening)
  | '"' :: _ => .ok ([], 1)
  | '\\' :: rest =>
      match escape opening rest with
      | .error stop => .error stop
      | .ok (letter, count) =>
          match letters opening (rest.drop count) with
          | .error stop => .error stop
          | .ok (more, length) => .ok (letter :: more, 1 + count + length)
  | c :: rest =>
      if c.toNat < 0x20 then malformedAt .control (c :: rest)
      else
        match letters opening rest with
        | .error stop => .error stop
        | .ok (more, length) => .ok (.char c :: more, 1 + length)
termination_by text => text.length
decreasing_by
  · simp only [List.length_cons, List.length_drop]; omega
  · simp

def string (text : Text) : Read (List Letter) :=
  match letters text.length (text.drop 1) with
  | .error stop => .error stop
  | .ok (units, count) => .ok (units, 1 + count)

def ofLetters (units : List Letter) : Json :=
  if units.any Letter.isHalf then .brokenText units else .text (units.map Letter.lenient)

def digitCount (text : Text) : Nat := (text.takeWhile Char.isDigit).length

def digitsValue (digits : Text) : Nat :=
  digits.foldl (fun value c => 10 * value + (c.toNat - '0'.toNat)) 0

-- The digits before the point: a zero alone, or digits that begin with another one.
def wholeCount : Text → Nat
  | '0' :: _ => 1
  | digits => digitCount digits

def fractionCount : Text → Nat
  | '.' :: rest => if digitCount rest = 0 then 0 else 1 + digitCount rest
  | _ => 0

def signCount : Text → Nat
  | '+' :: _ => 1
  | '-' :: _ => 1
  | _ => 0

def exponentCount : Text → Nat
  | c :: rest =>
      if c = 'e' ∨ c = 'E' then
        let digits := digitCount (rest.drop (signCount rest))
        if digits = 0 then 0 else 1 + signCount rest + digits
      else 0
  | [] => 0

def exponentValue (mark : Text) : Int :=
  match mark.drop 1 with
  | '-' :: digits => -(digitsValue digits)
  | '+' :: digits => digitsValue digits
  | digits => digitsValue digits

-- A number: digits, with a minus sign before them, and a fraction and an exponent after them,
-- where there are such.
def number (text : Text) : Read Json.Number :=
  let minus := if text.head? = some '-' then 1 else 0
  let body := text.drop minus
  let whole := wholeCount body
  let fraction := fractionCount (body.drop whole)
  let exponent := exponentCount (body.drop (whole + fraction))
  if whole = 0 then malformedAt .value text
  else if fraction = 0 ∧ exponent = 0 ∧ digitLimit < whole then .error (.hugeInteger whole)
  else
    let digits := digitsValue (body.take whole ++ (body.drop (whole + 1)).take (fraction - 1))
    let shift := exponentValue ((body.drop (whole + fraction)).take exponent)
    .ok (.decimal (minus = 1) digits (shift - (fraction - 1 : Nat)),
      minus + whole + fraction + exponent)

def word? (text : Text) : Option (Json × Nat) :=
  if "null".toList.isPrefixOf text then some (.null, 4)
  else if "true".toList.isPrefixOf text then some (.bool true, 4)
  else if "false".toList.isPrefixOf text then some (.bool false, 5)
  else if "NaN".toList.isPrefixOf text then some (.number .notANumber, 3)
  else if "Infinity".toList.isPrefixOf text then some (.number (.infinite false), 8)
  else if "-Infinity".toList.isPrefixOf text then some (.number (.infinite true), 9)
  else none

-- The items of an array, read from the first one on and with the closing bracket. `value`
-- reads one of them.
def items (value : Text → Read Json) (text : Text) : Read (List Json) :=
  match value text with
  | .error stop => .error stop
  | .ok (item, count) =>
      let read := count + blankCount (text.drop count)
      match h : text.drop read with
      | ']' :: _ => .ok ([item], read + 1)
      | ',' :: rest =>
          match items value (rest.drop (blankCount rest)) with
          | .error stop => .error stop
          | .ok (more, length) => .ok (item :: more, read + 1 + blankCount rest + length)
      | rest => malformedAt .comma rest
termination_by text.length
decreasing_by
  have hlen := congrArg List.length h
  simp only [List.length_drop, List.length_cons] at hlen ⊢
  omega

def member (value : Text → Read Json) (text : Text) : Read (Text × Json) :=
  if text.head? ≠ some '"' then malformedAt .name text
  else
    match string text with
    | .error stop => .error stop
    | .ok (name, count) =>
        let read := count + blankCount (text.drop count)
        match text.drop read with
        | ':' :: rest =>
            match value (rest.drop (blankCount rest)) with
            | .error stop => .error stop
            | .ok (item, length) =>
                .ok ((name.map Letter.lenient, item), read + 1 + blankCount rest + length)
        | rest => malformedAt .colon rest

def members (value : Text → Read Json) (text : Text) : Read (List (Text × Json)) :=
  match member value text with
  | .error stop => .error stop
  | .ok (item, count) =>
      let read := count + blankCount (text.drop count)
      match h : text.drop read with
      | '}' :: _ => .ok ([item], read + 1)
      | ',' :: rest =>
          match members value (rest.drop (blankCount rest)) with
          | .error stop => .error stop
          | .ok (more, length) => .ok (item :: more, read + 1 + blankCount rest + length)
      | rest => malformedAt .comma rest
termination_by text.length
decreasing_by
  have hlen := congrArg List.length h
  simp only [List.length_drop, List.length_cons] at hlen ⊢
  omega

def scalar (text : Text) : Read Json :=
  match text with
  | '"' :: _ => (string text).map fun (units, count) => (ofLetters units, count)
  | _ =>
      match word? text with
      | some found => .ok found
      | none => (number text).map fun (value, count) => (.number value, count)

def value : Nat → Text → Read Json
  | 0, source =>
      match source with
      | '[' :: _ => .error (.tooDeep .array)
      | '{' :: _ => .error (.tooDeep .object)
      | _ => scalar source
  | depth + 1, source =>
      match source with
      | '[' :: rest =>
          let blanks := blankCount rest
          match rest.drop blanks with
          | ']' :: _ => .ok (.array [], blanks + 2)
          | rest => (items (value depth) rest).map fun (found, count) =>
              (.array found, 1 + blanks + count)
      | '{' :: rest =>
          let blanks := blankCount rest
          match rest.drop blanks with
          | '}' :: _ => .ok (.object [], blanks + 2)
          | rest => (members (value depth) rest).map fun (found, count) =>
              (.object found, 1 + blanks + count)
      | _ => scalar source

def read (text : Text) : Except Stop Json :=
  if text.head? = some '\uFEFF' then malformedAt .byteOrderMark text
  else
    let blanks := blankCount text
    match value depthLimit (text.drop blanks) with
    | .error stop => .error stop
    | .ok (found, count) =>
        let rest := text.drop (blanks + count)
        match rest.drop (blankCount rest) with
        | [] => .ok found
        | rest => malformedAt .extra rest

-- Where a fault is: the number of characters before it, and the line and column they give.
structure Position where
  index : Nat
  line : Nat
  column : Nat
deriving DecidableEq, Repr

def positionOf (text : Text) (left : Nat) : Position :=
  let before := text.take (text.length - left)
  ⟨before.length, before.count '\n' + 1, (before.reverse.takeWhile (· ≠ '\n')).length + 1⟩

def Position.message (position : Position) : Text :=
  "line ".toList ++ Text.ofNat position.line ++ " column ".toList ++ Text.ofNat position.column
    ++ " (char ".toList ++ Text.ofNat position.index ++ ")".toList

end WorkspaceImports.Json.Reader
