import WorkspaceImports.Text.Basic

namespace WorkspaceImports

-- A unit of a written string: a character, or a half of a surrogate pair that stands alone.
-- Letters without halves are a text.
inductive Letter
  | char (c : Char)
  | half (code : Nat)
deriving DecidableEq, Repr

namespace Letter

def ofCode (code : Nat) : Letter :=
  if 0xD800 ≤ code ∧ code < 0xE000 then half code else char (.ofNat code)

def isHalf : Letter → Bool
  | char _ => false
  | half _ => true

def isBlank : Letter → Bool
  | char c => Text.isBlank c
  | half _ => false

def lenient : Letter → Char
  | char c => c
  | half _ => '\uFFFD'

end Letter

-- A string as it comes from outside, where it need not be a text.
abbrev Wording := List Letter

namespace Wording

def text (text : Text) : Wording := text.map .char

-- The text that people see, with the replacement character for each half.
def shown (wording : Wording) : Text := wording.map Letter.lenient

instance : Coe Text Wording := ⟨text⟩

instance : Coe (List Text) (List Wording) := ⟨List.map text⟩

end Wording

end WorkspaceImports
