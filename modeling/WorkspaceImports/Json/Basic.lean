import WorkspaceImports.Text.Wording

namespace WorkspaceImports

-- A number as it is written in decimal, or one of the values that no decimal has.
inductive Json.Number
  | decimal (negative : Bool) (digits : Nat) (exponent : Int)
  | infinite (negative : Bool)
  | notANumber
deriving DecidableEq, Repr

-- A string in which a half of a surrogate pair stands alone is no text and is kept apart. The
-- members of an object stand in their order, repeated names included.
inductive Json
  | null
  | bool (value : Bool)
  | number (value : Json.Number)
  | text (value : Text)
  | brokenText (letters : List Letter)
  | array (items : List Json)
  | object (members : List (Text × Json))
deriving Inhabited

namespace Json

-- Whether the nearest double is zero. The least one above it is 2^-1074, and half of that
-- goes down. A decimal with as many places as the first test asks for lies far below.
def Number.isZero : Number → Bool
  | .decimal _ digits exponent =>
      let places := (-exponent).toNat
      digits == 0 || (Nat.toDigits 10 digits).length + 400 < places
        || digits * Nat.pow 2 1075 ≤ Nat.pow 10 places
  | _ => false

-- What counts as a yes: everything but null, false, zero and what is empty.
def holds : Json → Bool
  | .null => false
  | .bool value => value
  | .number value => !value.isZero
  | .text value => !value.isEmpty
  | .brokenText _ => true
  | .array items => !items.isEmpty
  | .object members => !members.isEmpty

-- The value of a name in an object. The last one of the name counts.
def member? (name : Text) (members : List (Text × Json)) : Option Json :=
  members.reverse.lookup name

end Json

end WorkspaceImports
