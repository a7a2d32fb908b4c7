import MarkdownIndex.Json.Node
import MarkdownIndex.Text.Utf8

/-!
# Decoding: records out of trees

A decoder reads a tree in document order and reports the first thing that is wrong with it.

* `Fault` — a text that is not JSON, or JSON of the wrong shape.
* `text`, `natural`, `integer`, `float`, `flag`, `listOf`, `optional` — decoders of simple values.
  An integer is wanted where an integer is stored and must fit; a float may be spelled as one.
* `Record` — a decoder of a record from an object, or from an array of its fields in order. Names
  that the record does not have are skipped, a name that comes twice is a fault, and what happens
  to a missing field is decided at the end.
* `decode?` — a record out of a whole text.
* `decodeBytes?` — a record out of bytes, of which only those have to be a text that are read.
-/

namespace MarkdownIndex.Json

/-! ## Faults -/

/-- Why a tree does not decode. -/
inductive Fault where
  /-- the text is not JSON -/
  | malformed
  /-- the text is JSON, but not of the wanted shape -/
  | mismatch
deriving DecidableEq, Repr

/-- A decoder of one kind of value. -/
abbrev Decoder (α : Type) := Node → Except Fault α

/-- The fault of a tree that is not of the wanted kind. To say what it found instead, a decoder
reads a number or a string to its end, so one that has no value or no text counts as malformed. -/
def Node.unwanted : Node → Fault
  | .defect | .number none | .string none => .malformed
  | _ => .mismatch

/-! ## Simple values -/

/-- A string. -/
def text : Decoder String
  | .string (some s) => .ok s
  | n => .error n.unwanted

/-- A truth value. -/
def flag : Decoder Bool
  | .bool b => .ok b
  | n => .error n.unwanted

/-- An integer within bounds, ends included. -/
def integerWithin (least greatest : Int) : Decoder Int
  | .number (some (.int i)) => if least ≤ i ∧ i ≤ greatest then .ok i else .error .mismatch
  | n => .error n.unwanted

/-- A natural number of so many bits. -/
def natural (bits : Nat) : Decoder Nat := fun n =>
  (integerWithin 0 (Decimal.twoTo bits - 1) n).map Int.toNat

/-- An integer of 64 bits with a sign. -/
def integer : Decoder Int :=
  integerWithin (-(Decimal.twoTo 63 : Int)) (Decimal.twoTo 63 - 1)

/-- A number, as a 64-bit float. -/
def float64 : Decoder Float
  | .number (some x) => .ok x.toFloat
  | n => .error n.unwanted

/-- A number, as a 32-bit float. -/
def float32 : Decoder Float32
  | .number (some x) => .ok x.toFloat32
  | n => .error n.unwanted

/-- The items of an array, all of one kind. -/
def listOf (item : Decoder α) : Decoder (List α)
  | .array items => items.mapM item
  | n => .error n.unwanted

/-- A value or `null`. -/
def optional (value : Decoder α) : Decoder (Option α)
  | .null => .ok none
  | n => (value n).map some

/-- Any value that is well formed. -/
def skip : Decoder Unit := fun n =>
  if n.sound then .ok () else .error .malformed

/-- Any value, kept. -/
def value : Decoder Json := fun n =>
  match n.toJson? with
  | some v => .ok v
  | none => .error .malformed

/-- One of several names: as a string, or as an object with the name as its only member and `null`
as the value. -/
def choice (ofName? : String → Option α) : Decoder α
  | .string (some s) => match ofName? s with
    | some a => .ok a
    | none => .error .mismatch
  | .object ((some k, v) :: rest) => match ofName? k, v, rest with
    | none, _, _ => .error .mismatch
    | some a, .null, [] => .ok a
    | some _, .null, _ => .error .malformed
    | some _, v, _ => .error v.unwanted
  | _ => .error .malformed

/-! ## Records -/

/-- A decoder of a record of type `α`, which collects fields in a draft of type `σ`. -/
structure Record (σ α : Type) where
  /-- the draft without any field -/
  empty : σ
  /-- the names of the fields, in order -/
  names : List String
  /-- how a field of a given name is added to a draft; none if there is no such field -/
  field : String → Option (Node → σ → Except Fault σ)
  /-- the record of a draft -/
  finish : σ → Except Fault α

/-- Fill a slot of a draft, which must be empty. -/
def fill (item : Decoder α) (slot : Option α) (put : Option α → σ) (n : Node) : Except Fault σ :=
  match slot with
  | some _ => .error .mismatch
  | none => (item n).map fun a => put (some a)

/-- A field that must be there. -/
def require (slot : Option α) : Except Fault α :=
  match slot with
  | some a => .ok a
  | none => .error .mismatch

namespace Record

/-- A draft with the members of an object added. -/
def addMembers (r : Record σ α) (draft : σ) : List (Option String × Node) → Except Fault σ
  | [] => .ok draft
  | (none, _) :: _ => .error .malformed
  | (some k, v) :: ms =>
    match r.field k with
    | some add => match add v draft with
      | .ok draft => r.addMembers draft ms
      | .error e => .error e
    | none => if v.sound then r.addMembers draft ms else .error .malformed

/-- A draft with the items of an array added to the fields of the given names. A surplus item is a
fault unless surplus items are let pass. -/
def addItems (r : Record σ α) (surplus : Bool) (draft : σ) :
    List String → List Node → Except Fault σ
  | _, [] => .ok draft
  | [], _ :: _ => if surplus then .ok draft else .error .malformed
  | k :: ks, v :: vs =>
    match r.field k with
    | some add => match add v draft with
      | .ok draft => r.addItems surplus draft ks vs
      | .error e => .error e
    | none => r.addItems surplus draft ks vs

/-- The record that a tree holds, with the treatment of surplus items. -/
def decodeWith (r : Record σ α) (surplus : Bool) : Decoder α
  | .object members => (r.addMembers r.empty members).bind r.finish
  | .array items => (r.addItems surplus r.empty r.names items).bind r.finish
  | n => .error n.unwanted

/-- The record that a tree holds. -/
def decode (r : Record σ α) : Decoder α :=
  r.decodeWith false

end Record

/-! ## Whole texts -/

/-- Decode a text that holds one value and white space around it. -/
def decode? (d : Decoder α) (cs : List Char) : Except Fault α :=
  match Node.read cs with
  | (n, rest) => match d n, rest with
    | .error e, _ => .error e
    | .ok a, some r => if isSpaceText r then .ok a else .error .malformed
    | .ok _, none => .error .malformed

/-! ## Bytes -/

/-- What stands for bytes that are no text: an unpaired surrogate, which nothing around it can join.
A string with it has no text but can be skipped, and between tokens it is a defect. -/
def patch : List Char := "?\\ud800?".toList

/-- The text of bytes that may be JSON. -/
def charsOf (bytes : List UInt8) : List Char :=
  Text.decodeWith patch 0 bytes

/-- Decode bytes that hold one value and white space around it. Nobody looks at the bytes of a
string that is skipped. -/
def decodeBytes? (d : Decoder α) (bytes : List UInt8) : Except Fault α :=
  decode? d (charsOf bytes)

end MarkdownIndex.Json
