import Prerequisite.Json.Decoding
import Prerequisite.Names.Document

/-!
# Decoders

The documents that spell criteria and snapshots in JSON and names in TOML are decoded by
libraries.  What the program does with an input is defined for any such decoders.
-/

namespace Prerequisite

/-- The decoders of documents. One that refuses a document gives the reason. -/
class Decoders where
  /-- Criteria from JSON. -/
  criteria : List UInt8 → Except String (List Criterion)
  /-- A snapshot from JSON. -/
  snapshot : List UInt8 → Except String Snapshot
  /-- A configuration of names from TOML. -/
  config : List Char → Except String NamesConfig

/-- The decoders with which the program runs. They do not say what is wrong with a document. -/
instance Decoders.standard : Decoders :=
  let decided {α β : Type} (read? : α → Option β) (document : α) : Except String β :=
    (read? document).elim (.error "malformed document") .ok
  { criteria := decided Criterion.listOfJson?
    snapshot := decided Snapshot.ofJson?
    config := decided NamesConfig.ofText? }

end Prerequisite
