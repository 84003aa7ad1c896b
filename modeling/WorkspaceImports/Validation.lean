import WorkspaceImports.Text.Basic

namespace WorkspaceImports

-- What is wrong with a value: no object at all, a member that is missing, a word that is none
-- of those allowed, no text, a text that is broken, or no list.
inductive Complaint
  | noObject (kind : Text)
  | missing
  | notAmong (words : List Text)
  | notAText
  | brokenText
  | notAList
deriving DecidableEq, Repr

namespace Complaint

def code : Complaint → Text
  | noObject _ => "model_type".toList
  | missing => "missing".toList
  | notAmong _ => "enum".toList
  | notAText => "string_type".toList
  | brokenText => "string_unicode".toList
  | notAList => "tuple_type".toList

-- Words in single quotes, with commas between them and "or" before the last.
def alternatives : List Text → Text
  | [] => []
  | [word] => '\'' :: word ++ ['\'']
  | [word, last] => '\'' :: word ++ "' or '".toList ++ last ++ ['\'']
  | word :: rest => '\'' :: word ++ "', ".toList ++ alternatives rest

def message : Complaint → Text
  | noObject kind => "Input should be a valid dictionary or instance of ".toList ++ kind
  | missing => "Field required".toList
  | notAmong words => "Input should be ".toList ++ alternatives words
  | notAText => "Input should be a valid string".toList
  | brokenText =>
      "Input should be a valid string, unable to parse raw data as a unicode string".toList
  | notAList => "Input should be a valid tuple".toList

end Complaint

-- A complaint about the value at the end of a way through an object: the name of a member,
-- and the position of an item.
structure Issue where
  complaint : Complaint
  place : List Text
deriving DecidableEq, Repr

structure Invalid where
  kind : Text
  issues : List Issue
deriving DecidableEq, Repr

def Invalid.message (invalid : Invalid) : Text :=
  Text.ofNat invalid.issues.length ++ " validation error".toList
    ++ (if invalid.issues.length = 1 then [] else ['s']) ++ " for ".toList ++ invalid.kind

end WorkspaceImports
