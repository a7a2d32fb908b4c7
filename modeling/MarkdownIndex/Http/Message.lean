import MarkdownIndex.Http.Target
import MarkdownIndex.Json.Basic
import MarkdownIndex.Text.Utf8

/-!
# Requests and responses

* `Request` — what a client sends.
* `Body`, `Response` — what a service answers.
* `Response.detail` — an error as every service tells it.
* `reasonPhrase` — the words beside a status.
-/

namespace MarkdownIndex.Http

/-! ## Requests -/

/-- What a client sends. -/
structure Request where
  /-- the method; its letters count as they are -/
  method : String
  /-- the address, or what the request line asks for -/
  target : String
  /-- names and values of the headers -/
  headers : List (String × String) := []
  /-- the body -/
  body : List UInt8 := []
deriving DecidableEq, Repr

/-- The value of a header; its name may be in upper or lower case. -/
def Request.header? (r : Request) (name : String) : Option String :=
  (r.headers.find? fun (n, _) => n.toLower == name.toLower).map (·.2)

/-! ## Responses -/

/-- The body of a response. -/
inductive Body where
  /-- nothing -/
  | empty
  /-- JSON -/
  | json (v : Json)
  /-- a text -/
  | text (s : String)
deriving Inhabited

/-- The bytes of a body. -/
def Body.bytes : Body → List UInt8
  | .empty => []
  | .json v => Text.encode v.compactChars
  | .text s => Text.encode s.toList

/-- What a service answers. -/
structure Response where
  /-- the status -/
  status : Nat
  /-- the media type of the body -/
  contentType : Option String := none
  /-- the methods that are allowed instead -/
  allow : Option String := none
  /-- the origins that may read the answer -/
  allowOrigin : Option String := none
  /-- the body -/
  body : Body := .empty
deriving Inhabited

namespace Response

/-- An answer in JSON. -/
def ofJson (status : Nat) (v : Json) : Response :=
  { status, contentType := some "application/json", body := .json v }

/-- An answer in words. -/
def ofText (status : Nat) (s : String) : Response :=
  { status, contentType := some "text/plain; charset=utf-8", body := .text s }

/-- An error: a status, and what is wrong. -/
def detail (status : Nat) (what : String) : Response :=
  ofJson status (.object [("detail", .string what)])

end Response

/-- What a client gets: a status and the bytes of the body. -/
structure Reply where
  /-- the status -/
  status : Nat
  /-- the body -/
  body : List UInt8
deriving DecidableEq, Repr

/-- What a client gets of a response. -/
def Response.toReply (r : Response) : Reply := ⟨r.status, r.body.bytes⟩

/-- A reply is a success. -/
def Reply.isSuccess (r : Reply) : Bool := 200 ≤ r.status && r.status < 300

/-- A reply is an error, of the client or of the service. -/
def Reply.isError (r : Reply) : Bool := 400 ≤ r.status && r.status < 600

/-! ## Statuses -/

/-- The words of the statuses that have some. -/
def reasonPhrases : List (Nat × String) := [
  (100, "Continue"), (101, "Switching Protocols"), (102, "Processing"), (103, "Early Hints"),
  (200, "OK"), (201, "Created"), (202, "Accepted"), (203, "Non Authoritative Information"),
  (204, "No Content"), (205, "Reset Content"), (206, "Partial Content"), (207, "Multi-Status"),
  (208, "Already Reported"), (226, "IM Used"), (300, "Multiple Choices"),
  (301, "Moved Permanently"), (302, "Found"), (303, "See Other"), (304, "Not Modified"),
  (305, "Use Proxy"), (307, "Temporary Redirect"), (308, "Permanent Redirect"),
  (400, "Bad Request"), (401, "Unauthorized"), (402, "Payment Required"), (403, "Forbidden"),
  (404, "Not Found"), (405, "Method Not Allowed"), (406, "Not Acceptable"),
  (407, "Proxy Authentication Required"), (408, "Request Timeout"), (409, "Conflict"),
  (410, "Gone"), (411, "Length Required"), (412, "Precondition Failed"),
  (413, "Payload Too Large"), (414, "URI Too Long"), (415, "Unsupported Media Type"),
  (416, "Range Not Satisfiable"), (417, "Expectation Failed"), (418, "I'm a teapot"),
  (421, "Misdirected Request"), (422, "Unprocessable Entity"), (423, "Locked"),
  (424, "Failed Dependency"), (425, "Too Early"), (426, "Upgrade Required"),
  (428, "Precondition Required"), (429, "Too Many Requests"),
  (431, "Request Header Fields Too Large"), (451, "Unavailable For Legal Reasons"),
  (500, "Internal Server Error"), (501, "Not Implemented"), (502, "Bad Gateway"),
  (503, "Service Unavailable"), (504, "Gateway Timeout"), (505, "HTTP Version Not Supported"),
  (506, "Variant Also Negotiates"), (507, "Insufficient Storage"), (508, "Loop Detected"),
  (510, "Not Extended"), (511, "Network Authentication Required")]

/-- The words beside a status. -/
def reasonPhrase (status : Nat) : String :=
  (reasonPhrases.lookup status).getD "<unknown status code>"

end MarkdownIndex.Http
