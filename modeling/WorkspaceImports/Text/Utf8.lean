import WorkspaceImports.Text.Basic

namespace WorkspaceImports.Utf8

def encodeChar (c : Char) : List UInt8 :=
  let n := c.toNat
  if n < 0x80 then [.ofNat n]
  else if n < 0x800 then [.ofNat (0xC0 + n / 0x40), .ofNat (0x80 + n % 0x40)]
  else if n < 0x10000 then
    [.ofNat (0xE0 + n / 0x1000), .ofNat (0x80 + n / 0x40 % 0x40), .ofNat (0x80 + n % 0x40)]
  else
    [.ofNat (0xF0 + n / 0x40000), .ofNat (0x80 + n / 0x1000 % 0x40),
      .ofNat (0x80 + n / 0x40 % 0x40), .ofNat (0x80 + n % 0x40)]

def encode (text : Text) : List UInt8 := text.flatMap encodeChar

def size (text : Text) : Nat := (encode text).length

-- Why a stretch of bytes is no character: its first byte begins none, the byte after
-- it does not continue it, or the input ends within it.
inductive Defect
  | start
  | continuation
  | cut
deriving DecidableEq, Repr

-- What is read from the bytes in turn: a character, or a stretch of bytes that could
-- have begun one and did not become one.
inductive Item
  | char (c : Char)
  | broken (defect : Defect) (length : Nat)
deriving DecidableEq, Repr

-- A character begun. Of its bytes `taken` are read and `missing` are to come; the
-- next of them lies between `low` and `high`.
structure Begun where
  value : Nat
  taken : Nat
  missing : Nat
  low : Nat
  high : Nat
deriving DecidableEq, Repr

abbrev State := Option Begun

-- A byte read between characters. The bounds on the second byte shut out
-- over-long forms, surrogates and values above 10FFFF.
def first (byte : UInt8) : List Item × State :=
  let n := byte.toNat
  if n < 0x80 then ([.char (.ofNat n)], none)
  else if n < 0xC2 then ([.broken .start 1], none)
  else if n < 0xE0 then ([], some ⟨n - 0xC0, 1, 1, 0x80, 0xBF⟩)
  else if n < 0xF0 then
    ([], some ⟨n - 0xE0, 1, 2, if n = 0xE0 then 0xA0 else 0x80, if n = 0xED then 0x9F else 0xBF⟩)
  else if n < 0xF5 then
    ([], some ⟨n - 0xF0, 1, 3, if n = 0xF0 then 0x90 else 0x80, if n = 0xF4 then 0x8F else 0xBF⟩)
  else ([.broken .start 1], none)

-- One byte. A byte that does not continue the character begun is read anew.
def step : State → UInt8 → List Item × State
  | none, byte => first byte
  | some begun, byte =>
      let n := byte.toNat
      if begun.low ≤ n ∧ n ≤ begun.high then
        let value := begun.value * 0x40 + (n - 0x80)
        match begun.missing with
        | 0 | 1 => ([.char (.ofNat value)], none)
        | missing + 2 => ([], some ⟨value, begun.taken + 1, missing + 1, 0x80, 0xBF⟩)
      else (.broken .continuation begun.taken :: (first byte).1, (first byte).2)

def close : State → List Item
  | none => []
  | some begun => [.broken .cut begun.taken]

def scan (state : State) : List UInt8 → List Item
  | [] => close state
  | byte :: rest => (step state byte).1 ++ scan (step state byte).2 rest

structure Invalid where
  defect : Defect
  position : Nat
  length : Nat
deriving DecidableEq, Repr

-- The text of items that begin at a byte position, if all of them are characters.
def ofItems (position : Nat) : List Item → Except Invalid Text
  | [] => .ok []
  | .char c :: rest => (ofItems (position + (encodeChar c).length) rest).map (c :: ·)
  | .broken defect length :: _ => .error ⟨defect, position, length⟩

def decode (bytes : List UInt8) : Except Invalid Text := ofItems 0 (scan none bytes)

-- The replacement character stands for each broken stretch.
def Item.lenient : Item → Char
  | .char c => c
  | .broken _ _ => '\uFFFD'

end WorkspaceImports.Utf8
