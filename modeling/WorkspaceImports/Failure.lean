import WorkspaceImports.Disk.Error
import WorkspaceImports.Json.Reader
import WorkspaceImports.Text.Utf8
import WorkspaceImports.Validation

namespace WorkspaceImports

inductive Preferences.Problem
  | unreadable (refusal : Disk.Refusal)
  | malformed (fault : Json.Reader.Fault) (position : Json.Reader.Position)
  | noObject
  | invalid (invalid : Invalid)
deriving DecidableEq, Repr

-- Why a question has no answer. Preferences that cannot be used are a failure of their own;
-- the others are not expected of a preferences file. A workspace root may be left empty.
inductive Failure
  | disk (failure : Disk.Failure)
  | noRoot
  | noUtf8 (invalid : Utf8.Invalid) (byte : UInt8)
  | hugeInteger (digits : Nat)
  | tooDeep (container : Json.Reader.Container)
  | preferences (path : Path) (problem : Preferences.Problem)
deriving DecidableEq, Repr

def Utf8.Defect.reason : Utf8.Defect → Text
  | start => "invalid start byte".toList
  | continuation => "invalid continuation byte".toList
  | cut => "unexpected end of data".toList

-- A stretch of one byte is named with the byte, a longer one with its two ends.
def Utf8.Invalid.message (invalid : Utf8.Invalid) (byte : UInt8) : Text :=
  "'utf-8' codec can't decode ".toList
    ++ (if invalid.length = 1 then
          "byte 0x".toList ++ Text.hexDigits 2 byte.toNat ++ " in position ".toList
            ++ Text.ofNat invalid.position
        else
          "bytes in position ".toList ++ Text.ofNat invalid.position ++ "-".toList
            ++ Text.ofNat (invalid.position + invalid.length - 1))
    ++ ": ".toList ++ invalid.defect.reason

def Json.Reader.Container.name : Json.Reader.Container → Text
  | array => "array".toList
  | object => "object".toList

def Invalid.report (invalid : Invalid) : Text :=
  invalid.message ++ invalid.issues.flatMap fun issue =>
    '\n' :: Text.join '.' issue.place ++ "\n  ".toList ++ issue.complaint.message
      ++ " [type=".toList ++ issue.complaint.code ++ "]".toList

def Preferences.Problem.message (path : Path) : Preferences.Problem → Text
  | unreadable refusal =>
      "Cannot read preferences from ".toList ++ path.text ++ ": ".toList ++ refusal.message path
  | malformed fault position =>
      "Cannot read preferences from ".toList ++ path.text ++ ": ".toList ++ fault.message
        ++ ": ".toList ++ position.message
  | noObject => "Preferences in ".toList ++ path.text ++ " must be a JSON object".toList
  | invalid found => "Invalid preferences in ".toList ++ path.text ++ ": ".toList ++ found.report

def Failure.message : Failure → Text
  | disk failure => failure.message
  | noRoot => "expected str, bytes or os.PathLike object, not list".toList
  | noUtf8 invalid byte => invalid.message byte
  | hugeInteger digits =>
      "Exceeds the limit (".toList ++ Text.ofNat Json.Reader.digitLimit
        ++ " digits) for integer string conversion: value has ".toList ++ Text.ofNat digits
        ++ " digits; use sys.set_int_max_str_digits() to increase the limit".toList
  | tooDeep container =>
      "maximum recursion depth exceeded while decoding a JSON ".toList ++ container.name
        ++ " from a unicode string".toList
  | preferences path problem => problem.message path

end WorkspaceImports
