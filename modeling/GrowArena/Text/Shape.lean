/-!
The printed form of structured values: atoms, labelled parts, and groups between brackets, either
on one line or with each part of a group on a line of its own.
-/

namespace GrowArena.Text

/-- What stands around a group; `padding` goes between a bracket and a part on the same line. -/
structure Brackets where
  opening : String
  closing : String
  padding : String
  deriving DecidableEq, Repr

inductive Shape where
  | atom (text : String)
  | labelled (label : String) (value : Shape)
  | group (brackets : Brackets) (parts : List Shape)

namespace Shape

def number (n : Nat) : Shape := atom (toString n)

def list (parts : List Shape) : Shape := group ⟨"[", "]", ""⟩ parts

def tuple (parts : List Shape) : Shape := group ⟨"(", ")", ""⟩ parts

def record (name : String) (fields : List Shape) : Shape :=
  group ⟨name ++ " \x7b", "\x7d", " "⟩ fields

mutual

def inline : Shape → String
  | atom text => text
  | labelled label value => label ++ ": " ++ inline value
  | group brackets [] => brackets.opening ++ brackets.closing
  | group brackets (first :: others) =>
      brackets.opening ++ brackets.padding ++ inline first ++ inlineRest others
        ++ brackets.padding ++ brackets.closing

def inlineRest : List Shape → String
  | [] => ""
  | part :: parts => ", " ++ inline part ++ inlineRest parts

end

/-- The start of a line at a nesting depth: four blanks a level. -/
def indent (depth : Nat) : String :=
  String.ofList (List.replicate (4 * depth) ' ')

mutual

/-- The value with each part of a group on a line of its own; `depth` is that of its first line. -/
def spread (depth : Nat) : Shape → String
  | atom text => text
  | labelled label value => label ++ ": " ++ spread depth value
  | group brackets [] => brackets.opening ++ brackets.closing
  | group brackets (first :: others) =>
      brackets.opening ++ "\n" ++ spreadPart (depth + 1) first ++ spreadParts (depth + 1) others
        ++ indent depth ++ brackets.closing

/-- One part of a group as a line, or as several if it is a group itself. -/
def spreadPart (depth : Nat) (part : Shape) : String :=
  indent depth ++ spread depth part ++ ",\n"

def spreadParts (depth : Nat) : List Shape → String
  | [] => ""
  | part :: parts => spreadPart depth part ++ spreadParts depth parts

end

def render (overLines : Bool) (shape : Shape) : String :=
  if overLines then spread 0 shape else inline shape

end Shape

end GrowArena.Text
