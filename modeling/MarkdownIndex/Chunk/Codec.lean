import MarkdownIndex.Chunk
import MarkdownIndex.Json.Decode

/-!
# Chunks as JSON

* `ChunkKind.decoder`, `ChunkMetadata.record` — reading; a field that is missing has its default,
  so that rows written before the field existed still load.
* `ChunkMetadata.toJson`, `Chunk.toJson` — writing.
-/

namespace MarkdownIndex

open Json

/-! ## Writing -/

/-- The kind of a chunk as JSON: its name. -/
def ChunkKind.toJson (k : ChunkKind) : Json :=
  .string k.name

/-- The metadata of a chunk as JSON. -/
def ChunkMetadata.toJson (m : ChunkMetadata) : Json := .object [
  ("header", .string m.header),
  ("header_level", .nat m.headerLevel),
  ("chunk_type", m.kind.toJson),
  ("size", .nat m.size),
  ("total_chunks", .nat m.totalChunks)]

/-- A chunk as JSON. -/
def Chunk.toJson (c : Chunk) : Json := .object [
  ("chunk_index", .int c.index),
  ("content", .string c.content),
  ("metadata", c.metadata.toJson)]

/-! ## Reading -/

/-- The kind of a chunk, by its name. -/
def ChunkKind.decoder : Decoder ChunkKind :=
  choice ChunkKind.ofName?

/-- The fields of a chunk's metadata, as far as they have been read. -/
structure ChunkMetadata.Draft where
  /-- text of the governing header -/
  header : Option String := none
  /-- level of the governing header -/
  headerLevel : Option Nat := none
  /-- whole section or part -/
  kind : Option ChunkKind := none
  /-- characters of the content -/
  size : Option Nat := none
  /-- chunks of the document -/
  totalChunks : Option Nat := none

/-- The decoder of a chunk's metadata. -/
def ChunkMetadata.record : Record Draft ChunkMetadata where
  empty := {}
  names := ["header", "header_level", "chunk_type", "size", "total_chunks"]
  field
    | "header" => some fun n d => fill text d.header (fun x => { d with header := x }) n
    | "header_level" =>
      some fun n d => fill (natural 8) d.headerLevel (fun x => { d with headerLevel := x }) n
    | "chunk_type" =>
      some fun n d => fill ChunkKind.decoder d.kind (fun x => { d with kind := x }) n
    | "size" => some fun n d => fill (natural 64) d.size (fun x => { d with size := x }) n
    | "total_chunks" =>
      some fun n d => fill (natural 64) d.totalChunks (fun x => { d with totalChunks := x }) n
    | _ => none
  finish d := .ok
    { header := d.header.getD ""
      headerLevel := d.headerLevel.getD 0
      kind := d.kind.getD .completeSection
      size := d.size.getD 0
      totalChunks := d.totalChunks.getD 0 }

end MarkdownIndex
