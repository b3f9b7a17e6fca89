import TorrentCore.Decimal.Shortest

/-!
# Setting values

Settings and identifiers are read from, and written to, documents of nested lists and records.
-/

namespace TorrentCore

inductive Value where
  | absent
  | truth (value : Bool)
  | integer (value : Int)
  | real (value : Float)
  | text (value : String)
  | list (items : List Value)
  | record (fields : List (String × Value))
deriving Inhabited

namespace Value

instance : Coe Bool Value := ⟨truth⟩
instance : Coe Nat Value := ⟨fun n => integer n⟩
instance : Coe String Value := ⟨text⟩

def ofOption {α : Type} (shown : α → Value) : Option α → Value
  | some a => shown a
  | none => absent

def ofList {α : Type} (shown : α → Value) (items : List α) : Value := list (items.map shown)

/-- Real numbers are mentioned positionally from a hundred thousandth on and below ten to the
sixteenth. -/
def positionalRange : Decimal.PositionalRange := ⟨-5, 15⟩

def kindText : Value → String
  | absent => "null"
  | truth value => "boolean `" ++ toString value ++ "`"
  | integer value => "integer `" ++ toString value ++ "`"
  | real value => "floating point `" ++ Decimal.shortestText positionalRange value ++ "`"
  | text value => "string \"" ++ value ++ "\""
  | list _ => "sequence"
  | record _ => "map"

/-- The field of this name; fields of a record have different names. -/
def field? (name : String) (fields : List (String × Value)) : Option Value :=
  fields.lookup name

end Value

end TorrentCore
