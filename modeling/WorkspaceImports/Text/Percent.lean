import WorkspaceImports.Text.Utf8
import WorkspaceImports.Text.Wording

namespace WorkspaceImports.Percent

-- What a percent-encoded text is made of: bytes, which are its ASCII characters and its
-- escapes, and the characters beyond ASCII.
inductive Symbol
  | byte (b : UInt8)
  | char (c : Char)
deriving DecidableEq, Repr

def plain (c : Char) : Symbol :=
  if c.toNat < 0x80 then .byte (.ofNat c.toNat) else .char c

-- An escape is a percent sign with two hexadecimal digits. A percent sign without them
-- stands for itself.
def symbols : Text → List Symbol
  | [] => []
  | [c] => [plain c]
  | [c, d] => [plain c, plain d]
  | c :: d :: e :: rest =>
      match c, Text.hexValue? d, Text.hexValue? e with
      | '%', some high, some low => .byte (.ofNat (16 * high + low)) :: symbols rest
      | _, _, _ => plain c :: symbols (d :: e :: rest)

-- The text of symbols. A character beyond ASCII ends the character that the bytes
-- before it may have begun.
def assemble (state : Utf8.State) : List Symbol → Text
  | [] => (Utf8.close state).map Utf8.Item.lenient
  | .byte b :: rest =>
      (Utf8.step state b).1.map Utf8.Item.lenient ++ assemble (Utf8.step state b).2 rest
  | .char c :: rest => (Utf8.close state).map Utf8.Item.lenient ++ c :: assemble none rest

-- The text with its escapes read as UTF-8. Bytes that are no text give replacement
-- characters.
def decode (text : Text) : Text := assemble none (symbols text)

-- The same after characters that are read already. A half is no part of an escape and no byte, so
-- it stays, and what is before it is decoded on its own.
def decodeAfter (before : Text) : Wording → Wording
  | [] => .text (decode before)
  | .char c :: rest => decodeAfter (before ++ [c]) rest
  | .half code :: rest => .text (decode before) ++ .half code :: decodeAfter [] rest

def decodeWording (wording : Wording) : Wording := decodeAfter [] wording

-- The characters that stand for themselves in the path of a URI.
def isPathChar (c : Char) : Bool :=
  ('a' ≤ c && c ≤ 'z') || ('A' ≤ c && c ≤ 'Z') || ('0' ≤ c && c ≤ '9')
    || c == '_' || c == '.' || c == '-' || c == '~' || c == '/'

def escapeByte (b : UInt8) : Text :=
  ['%', (Nat.digitChar (b.toNat / 16)).toUpper, (Nat.digitChar (b.toNat % 16)).toUpper]

def encodeChar (c : Char) : Text :=
  if isPathChar c then [c] else (Utf8.encodeChar c).flatMap escapeByte

-- A path as it stands in a URI: every byte of a character that is not a path character
-- is escaped.
def encode (path : Text) : Text := path.flatMap encodeChar

end WorkspaceImports.Percent
