/-!
# UTF-8: characters as bytes

* `encode` — the bytes of a text.
* `Step`, `step` — what the start of a list of bytes holds: a character, or bytes that no
  character can begin with, of which as many are passed over as a longer character could have
  started with.
* `decode?` — the text of bytes that are UTF-8 throughout.
* `decodeWith`, `decodeLossy` — the text of any bytes; each stretch that is not UTF-8 gives what is
  to stand for it, `U+FFFD` as a rule.
-/

namespace MarkdownIndex.Text

/-! ## Encoding -/

/-- The bytes of a character. -/
def encodeChar (c : Char) : List UInt8 :=
  let n := c.toNat
  if n < 0x80 then [n.toUInt8]
  else if n < 0x800 then [(0xC0 + n / 64).toUInt8, (0x80 + n % 64).toUInt8]
  else if n < 0x10000 then
    [(0xE0 + n / 4096).toUInt8, (0x80 + n / 64 % 64).toUInt8, (0x80 + n % 64).toUInt8]
  else
    [(0xF0 + n / 262144).toUInt8, (0x80 + n / 4096 % 64).toUInt8, (0x80 + n / 64 % 64).toUInt8,
      (0x80 + n % 64).toUInt8]

/-- The bytes of a text. -/
def encode (cs : List Char) : List UInt8 :=
  cs.flatMap encodeChar

/-! ## Decoding -/

/-- What a list of bytes starts with. -/
inductive Step where
  /-- a character of so many further bytes -/
  | char (c : Char) (further : Nat)
  /-- bytes that are no character: one, and so many further ones -/
  | bad (further : Nat)
deriving DecidableEq, Repr

/-- A byte that continues a character, as the number of its six bits. -/
def continuation? (b : UInt8) : Option Nat :=
  if 0x80 ≤ b ∧ b < 0xC0 then some (b.toNat - 0x80) else none

/-- The bounds of the second byte after a first byte, ends included: they exclude spellings that
are too long, surrogates, and numbers beyond the code space. -/
def secondBounds (first : UInt8) : UInt8 × UInt8 :=
  if first = 0xE0 then (0xA0, 0xBF)
  else if first = 0xED then (0x80, 0x9F)
  else if first = 0xF0 then (0x90, 0xBF)
  else if first = 0xF4 then (0x80, 0x8F)
  else (0x80, 0xBF)

/-- The number of further bytes that a first byte announces; none if it begins no character. -/
def announced? (first : UInt8) : Option Nat :=
  if first < 0x80 then some 0
  else if 0xC2 ≤ first ∧ first < 0xE0 then some 1
  else if 0xE0 ≤ first ∧ first < 0xF0 then some 2
  else if 0xF0 ≤ first ∧ first < 0xF5 then some 3
  else none

/-- The bits of a first byte that belong to the code point. -/
def leadBits (first : UInt8) : Nat :=
  if first < 0x80 then first.toNat
  else if first < 0xE0 then first.toNat - 0xC0
  else if first < 0xF0 then first.toNat - 0xE0
  else first.toNat - 0xF0

/-- Read the continuation bytes that are still missing; `read` have been read. -/
def continueStep (read : Nat) (code : Nat) : (missing : Nat) → List UInt8 → Step
  | 0, _ => .char (Char.ofNat code) read
  | _ + 1, [] => .bad read
  | m + 1, b :: bs =>
    match continuation? b with
    | some n => continueStep (read + 1) (code * 64 + n) m bs
    | none => .bad read

/-- What a first byte and the bytes after it hold. -/
def step (first : UInt8) (rest : List UInt8) : Step :=
  match announced? first, rest with
  | none, _ => .bad 0
  | some 0, _ => .char (Char.ofNat first.toNat) 0
  | some _, [] => .bad 0
  | some (m + 1), b :: bs =>
    let (lo, hi) := secondBounds first
    if lo ≤ b ∧ b ≤ hi then continueStep 1 (leadBits first * 64 + (b.toNat - 0x80)) m bs
    else .bad 0

/-- The text of bytes that are UTF-8 throughout, skipping bytes that were read ahead. -/
def decodeFrom? : (skip : Nat) → List UInt8 → Option (List Char)
  | _, [] => some []
  | skip + 1, _ :: bs => decodeFrom? skip bs
  | 0, b :: bs =>
    match step b bs with
    | .char c k => (decodeFrom? k bs).map (c :: ·)
    | .bad _ => none

/-- The text of bytes that are UTF-8 throughout. -/
def decode? (bytes : List UInt8) : Option (List Char) :=
  decodeFrom? 0 bytes

/-- The text of any bytes, with a patch for what is not UTF-8, skipping bytes that were read
ahead. -/
def decodeWith (patch : List Char) : (skip : Nat) → List UInt8 → List Char
  | _, [] => []
  | skip + 1, _ :: bs => decodeWith patch skip bs
  | 0, b :: bs =>
    match step b bs with
    | .char c k => c :: decodeWith patch k bs
    | .bad k => patch ++ decodeWith patch k bs

/-- The text of any bytes, with `U+FFFD` for what is not UTF-8. -/
def decodeLossy (bytes : List UInt8) : List Char :=
  decodeWith ['\uFFFD'] 0 bytes

end MarkdownIndex.Text
