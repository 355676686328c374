import LinkedDeque.Text.Quoted

/-!
# LinkedDeque.Inspect

The inspected form of a value, for people to read: a tree of names, fields and items, written on one
line (`compact`) or over several lines with four spaces a level (`pretty`).
-/

namespace LinkedDeque

/-- A value as a tree of named parts. -/
inductive Inspect where
  | atom (text : String)
  | list (items : List Inspect)
  | wrapped (name : String) (part : Inspect)
  /-- A name with named fields; an open record has more fields than it shows. -/
  | record (name : String) (fields : List (String × Inspect)) (isOpen : Bool)

namespace Inspect

def num (n : Nat) : Inspect := .atom (toString n)

def flag (b : Bool) : Inspect := .atom (toString b)

def text (s : String) : Inspect := .atom (Text.quoted s)

mutual

def compact : Inspect → String
  | atom text => text
  | list items => "[" ++ ", ".intercalate (compactItems items) ++ "]"
  | wrapped name part => name ++ "(" ++ part.compact ++ ")"
  | record name fields isOpen =>
    let shown := compactFields fields ++ if isOpen then [".."] else []
    name ++ " \x7b " ++ ", ".intercalate shown ++ " \x7d"

def compactItems : List Inspect → List String
  | [] => []
  | item :: rest => item.compact :: compactItems rest

def compactFields : List (String × Inspect) → List String
  | [] => []
  | (name, part) :: rest => (name ++ ": " ++ part.compact) :: compactFields rest

end

def newline (indent : Nat) : String := "\n" ++ "".pushn ' ' indent

mutual

/-- A tree over several lines; the lines after the first are indented. -/
def prettyAt (indent : Nat) : Inspect → String
  | atom text => text
  | list [] => "[]"
  | list (item :: rest) =>
    "[" ++ "".intercalate (prettyItems (indent + 4) (item :: rest)) ++ newline indent ++ "]"
  | wrapped name part =>
    name ++ "(" ++ newline (indent + 4) ++ part.prettyAt (indent + 4) ++ ","
      ++ newline indent ++ ")"
  | record name fields isOpen =>
    name ++ " \x7b" ++ "".intercalate (prettyFields (indent + 4) fields)
      ++ (if isOpen then newline (indent + 4) ++ ".." else "") ++ newline indent ++ "\x7d"

/-- Each item on lines of its own, with a comma behind it. -/
def prettyItems (indent : Nat) : List Inspect → List String
  | [] => []
  | item :: rest => (newline indent ++ item.prettyAt indent ++ ",") :: prettyItems indent rest

def prettyFields (indent : Nat) : List (String × Inspect) → List String
  | [] => []
  | (name, part) :: rest =>
    (newline indent ++ name ++ ": " ++ part.prettyAt indent ++ ",") :: prettyFields indent rest

end

def pretty (i : Inspect) : String := i.prettyAt 0

end Inspect

end LinkedDeque
