import Prerequisite.Names.Config
import Prerequisite.Toml.Document

/-!
# Configured names in a document

A document gives a configuration of names if each of its nodes has a place there.
-/

namespace Prerequisite.NamesConfig

/-- The configuration with one more node of a document. A node that has no place in a
configuration is refused. -/
def add? (c : NamesConfig) (path : Toml.Path) (node : Toml.Node) : Option NamesConfig :=
  match path, node with
  | [table], .table _ =>
    if table ∈ ["stats", "flags", "professions", "breeds", "genders"] then some c else none
  | ["stats", key], .text name => some { c with stats := c.stats.insert key name }
  | ["professions", key], .text name =>
    some { c with professions := c.professions.insert key name }
  | ["breeds", key], .text name => some { c with breeds := c.breeds.insert key name }
  | ["genders", key], .text name => some { c with genders := c.genders.insert key name }
  | ["flags", stat], .table _ =>
    some { c with flags := c.flags.insert stat (c.flags.getD stat ∅) }
  | ["flags", stat, key], .text name =>
    some { c with flags := c.flags.insert stat ((c.flags.getD stat ∅).insert key name) }
  | _, _ => none

/-- The configuration that a document gives. -/
def ofText? (text : List Char) : Option NamesConfig := do
  let document ← Toml.Document.ofText? text
  document.toList.foldlM (fun c (path, node) => c.add? path node) {}

end Prerequisite.NamesConfig
