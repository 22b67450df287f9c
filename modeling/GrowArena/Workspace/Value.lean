import GrowArena.Arena.Resident

/-!
Elements of arrays. A workspace keeps elements of any type; of a type it knows the bytes that an
element takes and whether destruction is to be reported, and of an element how it prints, sorts and
packs. `Value` is a type that holds elements of several kinds at once.
-/

namespace GrowArena

/-- What a workspace knows of the elements that it keeps in one place. -/
structure Kind where
  footprint : Footprint
  isWatched : Bool := false
  deriving DecidableEq, Repr

namespace Kind

def byte : Kind := { footprint := ⟨1, 1⟩ }

def half : Kind := { footprint := ⟨2, 2⟩ }

def word : Kind := { footprint := ⟨4, 4⟩ }

def long : Kind := { footprint := ⟨8, 8⟩ }

def unit : Kind := { footprint := ⟨0, 1⟩ }

def triple : Kind := { footprint := ⟨3, 1⟩ }

def pair : Kind := { footprint := ⟨8, 4⟩ }

def aligned16 : Kind := { footprint := ⟨16, 16⟩ }

def aligned64 : Kind := { footprint := ⟨64, 64⟩ }

/-- Text that owns its characters: they are kept outside the arena. -/
def text : Kind := { footprint := ⟨24, 8⟩ }

def watched (k : Kind) : Kind := { k with isWatched := true }

end Kind

/-- What a workspace does with an element besides keeping it. -/
class Element (α : Type) extends BEq α where
  shape : α → Text.Shape
  /-- The number by which elements are sorted. -/
  rank : α → Int
  /-- The word that a packed array keeps for an element. -/
  toWord : α → UInt32
  ofWord : UInt32 → α

def Element.sort {α : Type} [Element α] (elements : List α) : List α :=
  elements.mergeSort fun a b => rank a ≤ rank b

inductive Value where
  | natural (n : Nat)
  | integer (i : Int)
  | unit
  | triple (a b c : UInt8)
  | pair (a : UInt8) (b : UInt32)
  | text (s : String)
  deriving DecidableEq, Repr

namespace Value

def shape : Value → Text.Shape
  | natural n => .number n
  | integer i => .atom (toString i)
  | unit => .atom "()"
  | triple a b c => .list [.number a.toNat, .number b.toNat, .number c.toNat]
  | pair a b => .tuple [.number a.toNat, .number b.toNat]
  | text s => .atom (Text.quoted s)

/-- All values that are no numbers come as 0. -/
def rank : Value → Int
  | natural n => n
  | integer i => i
  | _ => 0

instance : Element Value where
  shape := shape
  rank := rank
  toWord v := v.rank.toNat.toUInt32
  ofWord w := natural w.toNat

end Value

end GrowArena
