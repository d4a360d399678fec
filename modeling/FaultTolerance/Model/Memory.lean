import FaultTolerance.Model.Basic

/-! A project held in memory. A type's number is its place in the list of types. -/
namespace FaultTolerance
open Java

/-- A project's types in the order they were added, and its documents with the types declared
in each. -/
structure MemoryModel where
  project : String
  loaded : Bool := true
  types : List JavaType := []
  documents : List (String × List Nat) := []
  deriving Repr, Inhabited

namespace MemoryModel

def named (project : String) : MemoryModel := { project }

/-- A project that could not be loaded: it answers no question. -/
def unloaded (project : String) : MemoryModel := { project, loaded := false }

/-- Puts `ids` after those that the document `uri` has, and adds the document when it is new. -/
def extendDocument (uri : String) (ids : List Nat) :
    List (String × List Nat) → List (String × List Nat)
  | [] => [(uri, ids)]
  | (u, old) :: docs =>
    if u = uri then (u, old ++ ids) :: docs else (u, old) :: extendDocument uri ids docs

/-- Adds a type, and its document with it; the type's number comes back too. -/
def addType (m : MemoryModel) (t : JavaType) : Nat × MemoryModel :=
  (m.types.length,
    { m with
      types := m.types ++ [t]
      documents :=
        match t.uri? with
        | some uri => extendDocument uri [m.types.length] m.documents
        | none => m.documents })

/-- Adds a document without types, unless it is there already. -/
def addDocument (m : MemoryModel) (uri : String) : MemoryModel :=
  { m with documents := extendDocument uri [] m.documents }

/-- The number of the first type of a name. -/
def findType? (m : MemoryModel) (name : String) : Option Nat := m.types.findIdx? (·.name == name)

def size (m : MemoryModel) : Nat := m.types.length

/-- Answers only when the project is loaded. -/
def whenLoaded {α : Type} (m : MemoryModel) (answer : Except ModelError α) : Except ModelError α :=
  if m.loaded then answer else .error (.projectNotLoaded m.project)

/-- The numbers of the types that a scope covers, counted from `n`. -/
def covered (scope : Scope) : Nat → List JavaType → List Nat
  | _, [] => []
  | n, t :: ts =>
    if scope.covers t.origin then n :: covered scope (n + 1) ts else covered scope (n + 1) ts

def type (m : MemoryModel) (id : Nat) : Except ModelError JavaType :=
  m.whenLoaded <| match m.types[id]? with
    | some t => .ok t
    | none => .error (.unknownType id)

/-- The project as a model: every element carries the annotations stored in it. -/
def toModel (m : MemoryModel) : Model where
  resolveProject scope := m.whenLoaded (.ok (covered scope 0 m.types))
  type id := m.type id
  typesInDocument uri := m.whenLoaded <| match m.documents.lookup uri with
    | some ids => .ok ids
    | none => .error (.unknownDocument uri)
  methodsOf id := (m.type id).map JavaType.methods
  annotationsOn e := e.annotations
  rangeOf member := member.range

end MemoryModel
end FaultTolerance
