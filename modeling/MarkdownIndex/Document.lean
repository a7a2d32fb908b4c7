import MarkdownIndex.Chunk.Codec

/-!
# Documents: what is stored about a file

* `DocumentMetadata` — bookkeeping beside a document; without a hash the document is processed
  again whatever its file holds.
* `NewDocument` — a document about to be written. Its path, as text, is its key.
* `DocumentMetadata.toJson`, `DocumentMetadata.record` — the metadata as JSON.
-/

namespace MarkdownIndex

open Json

/-! ## Records -/

/-- Bookkeeping beside a document. -/
structure DocumentMetadata where
  /-- digest of the bytes of the file; none forces the next pass to process it -/
  fileHash : Option String := none
  /-- bytes of the file -/
  fileSize : Nat := 0
  /-- time of the last change of the file, in seconds since 1970 -/
  lastModified : Float := 0
  /-- time of the processing, in seconds since 1970 -/
  processedAt : Float := 0
deriving Inhabited

/-- A document about to be written. -/
structure NewDocument where
  /-- the key of the document -/
  path : String
  /-- what the document is called -/
  title : String
  /-- the text of the file -/
  content : String
  /-- bookkeeping -/
  metadata : DocumentMetadata
deriving Inhabited

/-! ## JSON -/

/-- The metadata of a document as JSON. -/
def DocumentMetadata.toJson (m : DocumentMetadata) : Json := .object [
  ("file_hash", ofOption .string m.fileHash),
  ("file_size", .nat m.fileSize),
  ("last_modified", .float m.lastModified),
  ("processed_at", .float m.processedAt)]

/-- The fields of a document's metadata, as far as they have been read. -/
structure DocumentMetadata.Draft where
  /-- digest of the bytes of the file -/
  fileHash : Option (Option String) := none
  /-- bytes of the file -/
  fileSize : Option Nat := none
  /-- time of the last change of the file -/
  lastModified : Option Float := none
  /-- time of the processing -/
  processedAt : Option Float := none

/-- The decoder of a document's metadata; a missing field has its default. -/
def DocumentMetadata.record : Record Draft DocumentMetadata where
  empty := {}
  names := ["file_hash", "file_size", "last_modified", "processed_at"]
  field
    | "file_hash" =>
      some fun n d => fill (optional text) d.fileHash (fun x => { d with fileHash := x }) n
    | "file_size" =>
      some fun n d => fill (natural 64) d.fileSize (fun x => { d with fileSize := x }) n
    | "last_modified" =>
      some fun n d => fill float64 d.lastModified (fun x => { d with lastModified := x }) n
    | "processed_at" =>
      some fun n d => fill float64 d.processedAt (fun x => { d with processedAt := x }) n
    | _ => none
  finish d := .ok
    { fileHash := d.fileHash.getD none
      fileSize := d.fileSize.getD 0
      lastModified := d.lastModified.getD 0
      processedAt := d.processedAt.getD 0 }

end MarkdownIndex
