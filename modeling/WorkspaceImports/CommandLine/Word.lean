import WorkspaceImports.Configuration
import WorkspaceImports.Text.Basic
import WorkspaceImports.Text.Quoted

namespace WorkspaceImports.CommandLine

inductive Switch
  | help
  | workspace
  | strategy
  | folders
  | verbose
deriving DecidableEq, Repr

-- Every spelling of a switch, in the order in which they are listed.
def spellings : List (Text × Switch) :=
  [("-h".toList, .help), ("--help".toList, .help), ("--workspace".toList, .workspace),
    ("--strategy".toList, .strategy), ("--folders".toList, .folders),
    ("--verbose".toList, .verbose)]

namespace Switch

def name (switch : Switch) : Text :=
  Text.join '/' ((spellings.filter (·.2 = switch)).map Prod.fst)

def takesValue : Switch → Bool
  | help => false
  | workspace => true
  | strategy => true
  | folders => true
  | verbose => false

end Switch

inductive Misuse
  | ambiguous (written : Text) (matching : List Text)
  | valueMissing (switch : Switch)
  | valueUnwanted (switch : Switch) (value : Text)
  | noStrategy (value : Text)
  | missing (names : List Text)
  | unrecognized (arguments : List Text)
deriving DecidableEq, Repr

namespace Misuse

def about (switch : Switch) (complaint : Text) : Text :=
  "argument ".toList ++ switch.name ++ ": ".toList ++ complaint

def listed (texts : List Text) : Text := List.intercalate ", ".toList texts

def message : Misuse → Text
  | ambiguous written matching =>
      "ambiguous option: ".toList ++ written ++ " could match ".toList ++ listed matching
  | valueMissing switch => about switch "expected one argument".toList
  | valueUnwanted switch value =>
      about switch ("ignored explicit argument ".toList ++ Text.Quoted.ofText value)
  | noStrategy value =>
      about .strategy
        ("invalid choice: ".toList ++ Text.Quoted.ofText value ++ " (choose from ".toList
          ++ listed (Strategy.all.map fun strategy => Text.Quoted.ofText strategy.name)
          ++ ")".toList)
  | missing names => "the following arguments are required: ".toList ++ listed names
  | unrecognized arguments => "unrecognized arguments: ".toList ++ Text.join ' ' arguments

end Misuse

-- A value written in one argument with its switch. Behind a short one, be it after an equals
-- sign or right after the letter, it may be more letters.
inductive Attached
  | toName (value : Text)
  | toLetter (value : Text)
deriving DecidableEq, Repr

namespace Attached

def value : Attached → Text
  | toName text => text
  | toLetter text => text

def within (written value : Text) : Attached :=
  if ['-', '-'].isPrefixOf written then toName value else toLetter value

end Attached

-- What one argument is: text that names no switch, the two dashes after which all is such
-- text, a switch, or text that looks like a switch and is none.
inductive Word
  | plain (written : Text)
  | dashes
  | named (switch : Switch) (attached : Option Attached)
  | unknown (written : Text)
deriving DecidableEq, Repr

namespace Word

-- The text before the first equals sign, and what is attached after it if there is one.
def cutEquals (written : Text) : Text × Option Attached :=
  (written.takeWhile (· ≠ '='),
    match written.dropWhile (· ≠ '=') with
    | _ :: value => some (.within written value)
    | [] => none)

-- The switches that an argument may mean. A long one may be cut short, a short one may have a
-- value behind its letter.
def candidates (written : Text) : List (Text × Switch × Option Attached) :=
  spellings.filterMap fun (spelling, switch) =>
    if ['-', '-'].isPrefixOf written then
      if (cutEquals written).1.isPrefixOf spelling then
        some (spelling, switch, (cutEquals written).2)
      else none
    else if spelling = written.take 2 then
      some (spelling, switch, some (.within written (written.drop 2)))
    else if written.isPrefixOf spelling then some (spelling, switch, none)
    else none

-- Digits, with a minus sign before them and possibly a point before the last of them. A line
-- feed may stand at the end.
def isNegativeNumber (written : Text) : Bool :=
  let body := if written.getLast? = some '\n' then written.dropLast else written
  match body with
  | '-' :: digits =>
      match digits.dropWhile Text.isDecimalDigit with
      | [] => !digits.isEmpty
      | '.' :: places => !places.isEmpty && places.all Text.isDecimalDigit
      | _ => false
  | _ => false

def ofText (written : Text) : Except Misuse Word :=
  match written with
  | '-' :: _ :: _ =>
      match spellings.lookup written, spellings.lookup (cutEquals written).1 with
      | some switch, _ => .ok (.named switch none)
      | none, some switch => .ok (.named switch (cutEquals written).2)
      | none, none =>
          match candidates written with
          | [] =>
              .ok (if isNegativeNumber written || written.contains ' ' then .plain written
                else .unknown written)
          | [(_, switch, attached)] => .ok (.named switch attached)
          | matching => .error (.ambiguous written (matching.map Prod.fst))
  | _ => .ok (.plain written)

-- The words of the arguments in turn. The first one that is ambiguous spoils them all.
def ofTexts : List Text → Except Misuse (List Word)
  | [] => .ok []
  | written :: rest =>
      if written = ['-', '-'] then .ok (.dashes :: rest.map .plain)
      else
        match ofText written with
        | .error misuse => .error misuse
        | .ok word => (ofTexts rest).map (word :: ·)

def isBare : Word → Bool
  | plain _ => true
  | dashes => true
  | named _ _ => false
  | unknown _ => false

def isPlain : Word → Bool
  | plain _ => true
  | _ => false

def written : Word → Text
  | plain text => text
  | dashes => ['-', '-']
  | named _ _ => []
  | unknown text => text

end Word

end WorkspaceImports.CommandLine
