import MarkdownIndex.Embedding.Failure
import MarkdownIndex.Host
import MarkdownIndex.Store

/-!
# Work: programs over files, a store and an embedder

Ingestion, search, watching and health reports are programs over one interface.

* `Work` — such a program; `Attempt ε` — one that may fail.
* `Work.read`, `Work.store`, `Work.embed` and so on — programs of one request.
* `embedQuery` — the vector of a single text.
-/

namespace MarkdownIndex

namespace Work

/-- A request of the index at work. -/
inductive Call where
  /-- a request to the machine -/
  | host (c : Host.Call)
  /-- a request to the store -/
  | store (c : Store.Call)
  /-- the vectors of some texts -/
  | embed (texts : List String)

/-- The answer to a request. -/
def Reply : Call → Type
  | .host c => Host.Reply c
  | .store c => Store.Reply c
  | .embed _ => Except EmbeddingError (List Embedding)

/-- Files, a store and an embedder as an interface. -/
def interface : Interface := ⟨Call, Reply⟩

end Work

/-- A program over files, a store and an embedder. -/
abbrev Work (α : Type) : Type := Program Work.interface α

/-- Work that may fail. -/
abbrev Attempt (ε α : Type) : Type := ExceptT ε (Program Work.interface) α

namespace Work

/-! ## Single requests -/

/-- The bytes of a file. -/
def read (path : Path) : Work (Except Files.FileError (List UInt8)) :=
  Program.ask (I := interface) (.host (.read path))

/-- The time of the last change of a file. -/
def modified (path : Path) : Work (Option Instant) :=
  Program.ask (I := interface) (.host (.modified path))

/-- The files that count. -/
def scan (s : Scanner) : Work (Except ScanError (List Path)) :=
  Program.ask (I := interface) (.host (.scan s))

/-- The files that count with the times of their last changes. -/
def snapshot (s : Scanner) : Work (Except ScanError Snapshot) :=
  Program.ask (I := interface) (.host (.snapshot s))

/-- The time. -/
def now : Work Instant :=
  Program.ask (I := interface) (.host .now)

/-- Let time pass. -/
def pause (milliseconds : Nat) : Work Unit :=
  Program.ask (I := interface) (.host (.pause milliseconds))

/-- Let time pass; the answer is whether the program has been told to stop. -/
def rest (milliseconds : Nat) : Work Bool :=
  Program.ask (I := interface) (.host (.rest milliseconds))

/-- Whether the program has been told to stop. -/
def stopping : Work Bool :=
  Program.ask (I := interface) (.host .stopping)

/-- An answer of the store. -/
def store (c : Store.Call) : Work (Store.Reply c) :=
  Program.ask (I := interface) (.store c)

/-- The vectors of some texts. -/
def embed (texts : List String) : Work (Except EmbeddingError (List Embedding)) :=
  Program.ask (I := interface) (.embed texts)

/-! ## Failing -/

/-- Work whose failure is a failure of what it is done for. -/
def orFail (p : Work (Except δ α)) (f : δ → ε) : Attempt ε α :=
  ExceptT.mk do
    let r ← p
    return r.mapError f

end Work

/-- The vector of a single text. -/
def embedQuery (text : String) : Work (Except EmbeddingError Embedding) := do
  match ← Work.embed [text] with
  | .error e => return .error e
  | .ok [] => return .error (.invalidResponse "No embeddings returned")
  | .ok (v :: _) => return .ok v

end MarkdownIndex
