import SyntaxGraph.Schema.Catalog

/-!
# Shared catalogs

A shared catalog is loaded when it is first asked for and can be loaded anew at any time. A catalog
that could not be loaded leaves everything as it was. The loader may answer differently each time,
so it is told how many times it was called before.
-/

namespace SyntaxGraph.Schema

/-- A catalog that is loaded when it is needed. -/
structure SharedCatalog where
  loader : Nat → Except Error Catalog
  calls : Nat := 0
  current : Option Catalog := none

namespace SharedCatalog

/-- A shared catalog that is there from the start; loading it anew indexes its document again. -/
def ofCatalog (c : Catalog) : SharedCatalog where
  loader := fun _ => .ok (Catalog.ofDocument c.document)
  current := some c

/-- A catalog is there. -/
def isReady (s : SharedCatalog) : Bool :=
  s.current.isSome

/-- Loads the catalog, which becomes the current one unless loading fails. -/
def rebuild (s : SharedCatalog) : Except Error Catalog × SharedCatalog :=
  match s.loader s.calls with
  | .ok c => (.ok c, { s with calls := s.calls + 1, current := some c })
  | .error e => (.error e, { s with calls := s.calls + 1 })

/-- The current catalog, which is loaded if there is none. -/
def get (s : SharedCatalog) : Except Error Catalog × SharedCatalog :=
  match s.current with
  | some c => (.ok c, s)
  | none => s.rebuild

end SharedCatalog

end SyntaxGraph.Schema
