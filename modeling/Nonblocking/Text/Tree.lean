/-! # Debug text

Values are shown as trees of records, sequences and wrapped values, on one line or spread over lines
with one entry a line, four more columns a level and a comma after every entry. -/
namespace Nonblocking.Text

inductive Tree
  | leaf (text : String)
  | record (name : String) (fields : List (String × Tree))
  | sequence (items : List Tree)
  | wrapped (name : String) (inside : Tree)
  deriving Repr

namespace Tree

def ofNat (k : Nat) : Tree := leaf (toString k)

def ofOption : Option Tree → Tree
  | none => leaf "None"
  | some t => wrapped "Some" t

mutual

def inline : Tree → String
  | leaf text => text
  | record name fields => name ++ " \x7b " ++ ", ".intercalate (inlineFields fields) ++ " \x7d"
  | sequence items => "[" ++ ", ".intercalate (inlineItems items) ++ "]"
  | wrapped name inside => name ++ "(" ++ inline inside ++ ")"

def inlineFields : List (String × Tree) → List String
  | [] => []
  | (name, value) :: rest => (name ++ ": " ++ inline value) :: inlineFields rest

def inlineItems : List Tree → List String
  | [] => []
  | item :: rest => inline item :: inlineItems rest

end

def indent (depth : Nat) : String := "".pushn ' ' (4 * depth)

/-- One entry of a spread rendering: a line of its own at `depth`, closed by a comma. -/
def entry (depth : Nat) (text : String) : String := indent depth ++ text ++ ",\n"

mutual

def spread (depth : Nat) : Tree → String
  | leaf text => text
  | record name fields =>
    name ++ " \x7b\n" ++ spreadFields (depth + 1) fields ++ indent depth ++ "\x7d"
  | sequence items => "[\n" ++ spreadItems (depth + 1) items ++ indent depth ++ "]"
  | wrapped name inside =>
    name ++ "(\n" ++ entry (depth + 1) (spread (depth + 1) inside) ++ indent depth ++ ")"

def spreadFields (depth : Nat) : List (String × Tree) → String
  | [] => ""
  | (name, value) :: rest =>
    entry depth (name ++ ": " ++ spread depth value) ++ spreadFields depth rest

def spreadItems (depth : Nat) : List Tree → String
  | [] => ""
  | item :: rest => entry depth (spread depth item) ++ spreadItems depth rest

end

inductive Style
  | inline | spread
  deriving DecidableEq, Repr

def render : Style → Tree → String
  | .inline, t => t.inline
  | .spread, t => t.spread 0

end Tree

end Nonblocking.Text
