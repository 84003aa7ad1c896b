namespace WorkspaceImports

abbrev Text := List Char

namespace Text

def ofNat (n : Nat) : Text := Nat.toDigits 10 n

def hexValue? (c : Char) : Option Nat :=
  if '0' ≤ c ∧ c ≤ '9' then some (c.toNat - '0'.toNat)
  else if 'a' ≤ c ∧ c ≤ 'f' then some (c.toNat - 'a'.toNat + 10)
  else if 'A' ≤ c ∧ c ≤ 'F' then some (c.toNat - 'A'.toNat + 10)
  else none

-- The last `width` hexadecimal digits of a number, in lower case and with leading zeros.
def hexDigits (width n : Nat) : Text :=
  match width with
  | 0 => []
  | width + 1 => hexDigits width (n / 16) ++ [Nat.digitChar (n % 16)]

-- The pieces written one after another with a separator between neighbours.
def join (separator : Char) (parts : List Text) : Text :=
  List.intercalate [separator] parts

-- The pieces between separators that are not empty: leading, doubled and trailing separators
-- count for nothing.
def segments {α : Type} [BEq α] (separator : α) (text : List α) : List (List α) :=
  (text.splitOn separator).filter (!·.isEmpty)

-- Every line end becomes one line feed: a carriage return with the line feed after it,
-- or a carriage return alone.
def unifyNewlines : Text → Text
  | [] => []
  | '\r' :: '\n' :: rest => '\n' :: unifyNewlines rest
  | '\r' :: rest => '\n' :: unifyNewlines rest
  | c :: rest => c :: unifyNewlines rest

-- The characters that Unicode counts as white space, together with the four
-- separators that close the ASCII control characters (1C to 1F).
def isBlank (c : Char) : Bool :=
  let n := c.toNat
  (0x09 ≤ n && n ≤ 0x0D) || (0x1C ≤ n && n ≤ 0x20) || n == 0x85 || n == 0xA0 || n == 0x1680
    || (0x2000 ≤ n && n ≤ 0x200A) || n == 0x2028 || n == 0x2029 || n == 0x202F
    || n == 0x205F || n == 0x3000

def trimBy {α : Type} (isBlank : α → Bool) (items : List α) : List α :=
  ((items.dropWhile isBlank).reverse.dropWhile isBlank).reverse

def trim (text : Text) : Text := trimBy isBlank text

-- The zeros of the decimal digits, by version 14 of the Unicode character database. The nine
-- characters after a zero are the other digits of its script.
def zeros : List Nat :=
  [0x30, 0x660, 0x6F0, 0x7C0, 0x966, 0x9E6, 0xA66, 0xAE6, 0xB66, 0xBE6, 0xC66, 0xCE6, 0xD66,
    0xDE6, 0xE50, 0xED0, 0xF20, 0x1040, 0x1090, 0x17E0, 0x1810, 0x1946, 0x19D0, 0x1A80, 0x1A90,
    0x1B50, 0x1BB0, 0x1C40, 0x1C50, 0xA620, 0xA8D0, 0xA900, 0xA9D0, 0xA9F0, 0xAA50, 0xABF0,
    0xFF10, 0x104A0, 0x10D30, 0x11066, 0x110F0, 0x11136, 0x111D0, 0x112F0, 0x11450, 0x114D0,
    0x11650, 0x116C0, 0x11730, 0x118E0, 0x11950, 0x11C50, 0x11D50, 0x11DA0, 0x16A60, 0x16AC0,
    0x16B50, 0x1D7CE, 0x1D7D8, 0x1D7E2, 0x1D7EC, 0x1D7F6, 0x1E140, 0x1E2F0, 0x1E950, 0x1FBF0]

def isDecimalDigit (c : Char) : Bool :=
  zeros.any fun n => n ≤ c.toNat && c.toNat < n + 10

-- The upper case of every character whose upper case is ASCII. The other characters
-- have no ASCII upper case and stay, so an upper-cased text equals an ASCII word
-- exactly if its full Unicode upper case does.
def upperChar (c : Char) : Text :=
  match c with
  | 'ß' => ['S', 'S']
  | 'ı' => ['I']
  | 'ſ' => ['S']
  | 'ﬀ' => ['F', 'F']
  | 'ﬁ' => ['F', 'I']
  | 'ﬂ' => ['F', 'L']
  | 'ﬃ' => ['F', 'F', 'I']
  | 'ﬄ' => ['F', 'F', 'L']
  | 'ﬅ' => ['S', 'T']
  | 'ﬆ' => ['S', 'T']
  | c => [c.toUpper]

def upper (text : Text) : Text := text.flatMap upperChar

end Text

end WorkspaceImports
