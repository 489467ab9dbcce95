/-!
What a generated unit imports.
-/

namespace WireSchema

/-- An item that generated code may need. -/
inductive Facility where
  /-- Reads of fixed width, most significant byte first. -/
  | bigEndian
  /-- Construction of decoding errors. -/
  | errorConstruction
  /-- Lengths and counts as varints. -/
  | lengthDelimited
  deriving DecidableEq, Repr

namespace Facility

def all : List Facility := [bigEndian, errorConstruction, lengthDelimited]

def item : Facility → String
  | bigEndian => "Buf"
  | errorConstruction => "DecodeError"
  | lengthDelimited => "read_uvarint"

end Facility

structure FacilitySet where
  bigEndian : Bool := false
  errorConstruction : Bool := false
  lengthDelimited : Bool := false
  deriving DecidableEq, Repr

namespace FacilitySet

def empty : FacilitySet := {}

def contains (s : FacilitySet) : Facility → Bool
  | .bigEndian => s.bigEndian
  | .errorConstruction => s.errorConstruction
  | .lengthDelimited => s.lengthDelimited

def insert (s : FacilitySet) : Facility → FacilitySet
  | .bigEndian => { s with bigEndian := true }
  | .errorConstruction => { s with errorConstruction := true }
  | .lengthDelimited => { s with lengthDelimited := true }

def union (s t : FacilitySet) : FacilitySet where
  bigEndian := s.bigEndian || t.bigEndian
  errorConstruction := s.errorConstruction || t.errorConstruction
  lengthDelimited := s.lengthDelimited || t.lengthDelimited

def ofList (fs : List Facility) : FacilitySet := fs.foldl insert empty

def toList (s : FacilitySet) : List Facility := Facility.all.filter s.contains

def size (s : FacilitySet) : Nat := s.toList.length

def isEmpty (s : FacilitySet) : Bool := s.toList.isEmpty

def items (s : FacilitySet) : List String := s.toList.map Facility.item

end FacilitySet

end WireSchema
