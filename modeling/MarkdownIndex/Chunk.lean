import MarkdownIndex.Markdown.Section
import MarkdownIndex.Markdown.Part

/-!
# Chunks: the pieces of a document that are indexed

Each section of a document gives one chunk if it fits and several if it has to be cut. A chunk
knows the header that governs it, whether it is a whole section, its length in characters and how
many chunks the document has.

* `ChunkKind`, `ChunkMetadata`, `Chunk` — the record of a chunk.
* `pieces` — the trimmed contents of one section with their kind; blank pieces are dropped.
* `chunks` — the chunks of a text, numbered from zero.
-/

namespace MarkdownIndex

open Text Markdown

/-! ## Records -/

/-- Whether a chunk is a whole section or one part of a section that was cut. -/
inductive ChunkKind where
  /-- the only chunk of its section -/
  | completeSection
  /-- one of several chunks of its section -/
  | sectionPart
deriving DecidableEq, Repr, Inhabited

/-- The name under which a kind is stored. -/
def ChunkKind.name : ChunkKind → String
  | .completeSection => "complete_section"
  | .sectionPart => "section_part"

/-- The kind with a given name. -/
def ChunkKind.ofName? : String → Option ChunkKind
  | "complete_section" => some .completeSection
  | "section_part" => some .sectionPart
  | _ => none

/-- What is stored beside the content of a chunk. -/
structure ChunkMetadata where
  /-- text of the governing header, empty for a preamble -/
  header : String := ""
  /-- level of the governing header, zero for a preamble -/
  headerLevel : Nat := 0
  /-- whole section or part -/
  kind : ChunkKind := .completeSection
  /-- characters of the content -/
  size : Nat := 0
  /-- chunks of the document -/
  totalChunks : Nat := 0
deriving DecidableEq, Repr, Inhabited

/-- A piece of a document, ready to be indexed. -/
structure Chunk where
  /-- position in the document, from zero -/
  index : Int
  /-- the text of the piece -/
  content : String
  /-- header, kind, size and number of chunks -/
  metadata : ChunkMetadata
deriving DecidableEq, Repr, Inhabited

/-! ## Cutting a text into chunks -/

/-- How long a chunk may be and how much of a part is repeated in the next one. -/
structure ChunkLimits where
  /-- the greatest length of a section that stays whole -/
  maxChars : Nat := 512
  /-- the greatest number of lines repeated -/
  overlapLines : Nat := 3
deriving DecidableEq, Repr, Inhabited

/-- A trimmed content on its way to becoming a chunk. -/
structure Piece where
  /-- the governing header -/
  header : Header
  /-- whole section or part -/
  kind : ChunkKind
  /-- the trimmed text -/
  content : List Char
deriving DecidableEq, Repr

/-- The trimmed text of some lines. -/
def trimmedText (ls : List Line) : List Char :=
  trim (joinLines ls)

/-- The pieces of a section: none if it is blank, one if it fits, else one for each part. -/
def pieces (limits : ChunkLimits) (s : Section) : List Piece :=
  let body := trimmedText s.lines
  if body.isEmpty then []
  else if body.length ≤ limits.maxChars then [⟨s.header, .completeSection, body⟩]
  else
    let ps := parts limits.maxChars limits.overlapLines s.lines
    let kind := if 1 < ps.length then ChunkKind.sectionPart else .completeSection
    ((ps.map trimmedText).filter (!·.isEmpty)).map fun content => ⟨s.header, kind, content⟩

/-- The chunk that a piece becomes at a position of a document with `total` chunks. -/
def Piece.toChunk (total : Nat) (p : Piece) (index : Nat) : Chunk where
  index := index
  content := String.ofList p.content
  metadata :=
    { header := String.ofList p.header.text
      headerLevel := p.header.level
      kind := p.kind
      size := p.content.length
      totalChunks := total }

/-- The chunks of a text. -/
def chunks (limits : ChunkLimits) (text : String) : List Chunk :=
  let ps := (sections (lines text.toList)).flatMap (pieces limits)
  ps.zipIdx.map fun (p, i) => p.toChunk ps.length i

end MarkdownIndex
