import Std.Data.HashMap
import SyntaxGraph.Instance
import SyntaxGraph.Schema.Reader
import SyntaxGraph.Text.Lowercase
import SyntaxGraph.Text.Search

/-!
# Catalogs

A catalog indexes the templates of a schema document: by name, by the tree tags they stand for, and
by the token tags that their fields recognize. Of two templates that claim a name or a tag, the
later one has it.
-/

namespace SyntaxGraph.Schema

/-- The indices of a schema document. -/
structure Catalog where
  document : Document
  byName : Std.HashMap String Template
  byTag : Std.HashMap String Template
  /-- For each template with tagged token fields, the field of each token tag. -/
  tokenFields : Std.HashMap String (Std.HashMap String String)
  /-- The names of the templates in increasing order. -/
  names : List String

namespace Catalog

/-- A table with the entries of a list, of which the last for each key counts. -/
def table (entries : List (String × α)) : Std.HashMap String α :=
  entries.foldl (fun t e => t.insert e.1 e.2) ∅

/-- The names in increasing order. -/
def sortNames (names : List String) : List String :=
  names.mergeSort fun a b => decide (a ≤ b)

/-- Indexes a document. -/
def ofDocument (document : Document) : Catalog :=
  let byName := table (document.nodes.map fun t => (t.name, t))
  { document, byName
    byTag := table (document.nodes.flatMap fun t => t.kinds.map (·, t))
    tokenFields := table ((document.nodes.filter (!·.tokenTags.isEmpty)).map fun t =>
      (t.name, table t.tokenTags))
    names := sortNames byName.keys }

/-- Reads and indexes the text of a schema document. -/
def parse (source : String) : Except Error Catalog :=
  (Document.parse source).map ofDocument

/-- The template of a name. -/
def template? (c : Catalog) (name : String) : Option Template :=
  c.byName[name]?

/-- The template that stands for a tree tag. -/
def templateForTag? (c : Catalog) (tag : String) : Option Template :=
  c.byTag[tag]?

/-- The fields of a template by the token tags they recognize. -/
def tokenFields? (c : Catalog) (template : String) : Option (Std.HashMap String String) :=
  c.tokenFields[template]?

/-- The field of a template that recognizes a token tag. -/
def tokenFieldFor? (c : Catalog) (template tag : String) : Option String :=
  (c.tokenFields? template).bind (·[tag]?)

/-- The names that contain a text, upper and lower case being the same. -/
def filterNames (c : Catalog) (part : String) : List String :=
  let needle := (Text.lowercase part).toList
  c.names.filter fun name => Text.occurs needle (Text.lowercase name).toList

/-- A new instance of the template of a name. -/
def stamp? (c : Catalog) (name : String) (counter : Counter) : Option (Instance × Counter) :=
  (c.template? name).map (Instance.stamp · counter)

/-- The number of templates. -/
def size (c : Catalog) : Nat :=
  c.byName.size

end Catalog

end SyntaxGraph.Schema
