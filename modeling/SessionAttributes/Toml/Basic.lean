import SessionAttributes.Decimal.Binary64

namespace SessionAttributes

inductive Toml.Origin where
  /-- Named by a header of its own, or written in braces. -/
  | defined
  /-- Only named on the way to another table, by a header. -/
  | passed
  /-- Only named on the way to a value, by a dotted key. -/
  | dotted
deriving DecidableEq, Repr

inductive Toml where
  | integer (n : Int)
  | real (x : Binary64)
  | boolean (b : Bool)
  | string (s : String)
  /-- A date, a time or both, as written. -/
  | moment (text : String)
  | array (items : List Toml)
  /-- A table in braces. Nothing is added to it later. -/
  | braces (entries : List (String × Toml))
  | table (origin : Toml.Origin) (entries : List (String × Toml))
  /-- An array of tables that grows by a table with each of its headers. -/
  | tables (items : List Toml)
deriving Repr

namespace Toml

instance : Inhabited Toml := ⟨.boolean false⟩

abbrev Entries := List (String × Toml)

/-- The least and the greatest integer. -/
def least : Int := -0x8000000000000000

def greatest : Int := 0x7FFFFFFFFFFFFFFF

/-- The number of arrays and braces that may stand inside one another, and the number of parts of a
key. -/
def nestingLimit : Nat := 79

abbrev Reader (α : Type) := List Char → Option (α × List Char)

end Toml
end SessionAttributes
