import MarkdownIndex.Config
import MarkdownIndex.Json.Decode
import MarkdownIndex.Net

/-!
# Remote notes: projects and notes of an account

* `Note`, `Project`, `Account` — what is fetched.
* `RemoteError` — why a request has no result; `RemoteError.passing` if a later one could have.
* `RemoteClient` — the address of the service and the token, if there is one.
* `login`, `tryNotes`, `tryProjects`, `projects`, `account` — the requests. Only a login changes the
  token, and only when it succeeds. `projects` never fails: without a list of projects there are
  none, and a project whose notes cannot be fetched has none.
-/

namespace MarkdownIndex

open Http Json Text

/-! ## Records -/

/-- A note. -/
structure Note where
  /-- its key -/
  id : String
  /-- what it is called -/
  title : String
  /-- its text, if it has one -/
  body : Option String
deriving DecidableEq, Repr, Inhabited

/-- A project with its notes. -/
structure Project where
  /-- its key -/
  id : String
  /-- what it is called -/
  title : String
  /-- its notes -/
  notes : List Note
deriving DecidableEq, Repr, Inhabited

/-- An account with its projects. -/
structure Account where
  /-- who it belongs to -/
  email : String
  /-- its projects -/
  projects : List Project
deriving DecidableEq, Repr, Inhabited

/-- Who logs in, and with what. -/
structure Credentials where
  /-- who -/
  email : String
  /-- with what -/
  password : String
deriving DecidableEq, Repr

/-- A project as the list of projects has it. -/
structure ProjectSummary where
  /-- its key -/
  id : String
  /-- what it is called -/
  title : String
deriving DecidableEq, Repr, Inhabited

/-- The answer to a login. -/
structure LoginAnswer where
  /-- the token; empty if there is none -/
  token : String
  /-- who is logged in -/
  email : String
deriving DecidableEq, Repr, Inhabited

/-! ## JSON -/

/-- A note as JSON. -/
def Note.toJson (n : Note) : Json := .object [
  ("id", .string n.id), ("title", .string n.title), ("body", ofOption .string n.body)]

/-- A project as JSON. -/
def Project.toJson (p : Project) : Json := .object [
  ("id", .string p.id), ("title", .string p.title), ("notes", .array (p.notes.map Note.toJson))]

/-- An account as JSON. -/
def Account.toJson (a : Account) : Json := .object [
  ("email", .string a.email), ("projects", .array (a.projects.map Project.toJson))]

/-- Credentials as JSON. -/
def Credentials.toJson (c : Credentials) : Json := .object [
  ("email", .string c.email), ("password", .string c.password)]

/-- A key: a string, or a number as it is written. -/
def keyText : Decoder String := fun n =>
  match value n with
  | .error e => .error e
  | .ok (.string s) => .ok s
  | .ok (.number x) => .ok x.text
  | .ok _ => .error .mismatch

/-- The fields of a note, as far as they have been read. -/
structure Note.Draft where
  /-- its key -/
  id : Option String := none
  /-- what it is called -/
  title : Option String := none
  /-- its text -/
  body : Option (Option String) := none

/-- The decoder of a note. -/
def Note.record : Record Draft Note where
  empty := {}
  names := ["id", "title", "body"]
  field
    | "id" => some fun n d => fill keyText d.id (fun x => { d with id := x }) n
    | "title" => some fun n d => fill text d.title (fun x => { d with title := x }) n
    | "body" => some fun n d => fill (optional text) d.body (fun x => { d with body := x }) n
    | _ => none
  finish d := do return ⟨← require d.id, d.title.getD "", d.body.getD none⟩

/-- The fields of a summary, as far as they have been read. -/
structure ProjectSummary.Draft where
  /-- its key -/
  id : Option String := none
  /-- what it is called -/
  title : Option String := none

/-- The decoder of a summary. -/
def ProjectSummary.record : Record Draft ProjectSummary where
  empty := {}
  names := ["id", "title"]
  field
    | "id" => some fun n d => fill keyText d.id (fun x => { d with id := x }) n
    | "title" => some fun n d => fill text d.title (fun x => { d with title := x }) n
    | _ => none
  finish d := do return ⟨← require d.id, d.title.getD ""⟩

/-- The decoder of a list under the name `items`; a missing list is empty. -/
def itemsRecord (item : Decoder α) : Record (Option (List α)) (List α) where
  empty := none
  names := ["items"]
  field
    | "items" => some fun n d => fill (listOf item) d id n
    | _ => none
  finish d := .ok (d.getD [])

/-- The decoder of who is logged in. -/
def userRecord : Record (Option String) String where
  empty := none
  names := ["email"]
  field
    | "email" => some fun n d => fill text d id n
    | _ => none
  finish d := .ok (d.getD "")

/-- The fields of the answer to a login, as far as they have been read. -/
structure LoginAnswer.Draft where
  /-- the token -/
  token : Option String := none
  /-- who is logged in -/
  email : Option String := none

/-- The decoder of the answer to a login. -/
def LoginAnswer.record : Record Draft LoginAnswer where
  empty := {}
  names := ["access_token", "user"]
  field
    | "access_token" => some fun n d => fill text d.token (fun x => { d with token := x }) n
    | "user" => some fun n d => fill userRecord.decode d.email (fun x => { d with email := x }) n
    | _ => none
  finish d := .ok ⟨d.token.getD "", d.email.getD ""⟩

/-! ## Errors -/

/-- Why a request has no result. -/
inductive RemoteError where
  /-- no reply came in time -/
  | timeout
  /-- the reply is an error -/
  | status (code : Nat)
  /-- the service could not be reached -/
  | transport (reason : String)
  /-- the reply does not make sense -/
  | decode (reason : String)
  /-- there is no token -/
  | notAuthenticated
deriving DecidableEq, Repr, Inhabited

namespace RemoteError

/-- A later request could have a result. -/
def passing : RemoteError → Bool
  | .timeout => true
  | .transport _ => true
  | .status code => code == 429 || (500 ≤ code && code < 600)
  | .decode _ => false
  | .notAuthenticated => false

/-- The wording of an error. -/
def message : RemoteError → String
  | .timeout => "request timed out"
  | .status code => "remote returned " ++ toString code ++ " " ++ reasonPhrase code
  | .transport reason => "request failed: " ++ reason
  | .decode reason => "invalid response: " ++ reason
  | .notAuthenticated => "not logged in"

/-- A request that was not answered. -/
def ofSend : SendError → RemoteError
  | .timedOut _ => .timeout
  | e => .transport e.message

/-- The reply is an error, or a body that does not decode. -/
def undecodable : RemoteError := .decode "error decoding response body"

end RemoteError

/-! ## Requests -/

/-- The address of the service and the token, if there is one. -/
structure RemoteClient where
  /-- the address, without slashes at its end -/
  baseUrl : String
  /-- milliseconds until a request is given up -/
  timeout : Nat
  /-- the token -/
  token : Option String := none
deriving DecidableEq, Repr

namespace RemoteClient

/-- The client of a configuration. -/
def ofConfig (c : Config.Remote) : RemoteClient where
  baseUrl := String.ofList (c.baseUrl.toList.reverse.dropWhile (· == '/')).reverse
  timeout := c.timeout

/-- The client with a token. -/
def withToken (c : RemoteClient) (token : String) : RemoteClient :=
  { c with token := some token }

/-- What a reply means. -/
def readReply (d : Decoder α) : Except SendError Reply → Except RemoteError α
  | .error e => .error (.ofSend e)
  | .ok r =>
    if r.isError then .error (.status r.status)
    else match decodeBytes? d r.body with
      | .ok a => .ok a
      | .error _ => .error .undecodable

/-- Ask for something that needs the token. -/
def get (c : RemoteClient) (d : Decoder α) (path : String) : Net (Except RemoteError α) :=
  match c.token with
  | none => return .error .notAuthenticated
  | some token => do
    let reply ← Net.send "GET" (c.baseUrl ++ path) [("authorization", "Bearer " ++ token)] []
      c.timeout
    return readReply d reply

/-- The notes of a project. -/
def tryNotes (c : RemoteClient) (project : String) : Net (Except RemoteError (List Note)) :=
  c.get (itemsRecord Note.record.decode).decode ("/v1/projects/" ++ project ++ "/notes/")

/-- The list of projects. -/
def summaries (c : RemoteClient) : Net (Except RemoteError (List ProjectSummary)) :=
  c.get (itemsRecord ProjectSummary.record.decode).decode "/v1/projects/"

/-- The notes of some projects, each on its own. -/
def notesOf (c : RemoteClient) :
    List ProjectSummary → Net (List (ProjectSummary × Except RemoteError (List Note)))
  | [] => return []
  | s :: ss => do
    let notes ← c.tryNotes s.id
    return (s, notes) :: (← c.notesOf ss)

/-- A project whose notes could be fetched. -/
def complete (p : ProjectSummary × Except RemoteError (List Note)) : Except RemoteError Project :=
  p.2.map (Project.mk p.1.id p.1.title)

/-- A project without notes if they could not be fetched. -/
def lenient (p : ProjectSummary × Except RemoteError (List Note)) : Project :=
  ⟨p.1.id, p.1.title, p.2.toOption.getD []⟩

/-- Every project with its notes, in the order of the list; the first failure is that of all. -/
def tryProjects (c : RemoteClient) : Net (Except RemoteError (List Project)) := do
  match ← c.summaries with
  | .error e => return .error e
  | .ok ss => return (← c.notesOf ss).mapM complete

/-- Every project with the notes that could be fetched. -/
def projects (c : RemoteClient) : Net (List Project) := do
  match ← c.summaries with
  | .error _ => return []
  | .ok ss => return (← c.notesOf ss).map lenient

/-- Log in: who is logged in, and the client with the token. -/
def login (c : RemoteClient) (credentials : Credentials) :
    Net (Except RemoteError String × RemoteClient) := do
  let reply ← Net.sendJson (c.baseUrl ++ "/v1/auth/login/") credentials.toJson c.timeout
  match readReply LoginAnswer.record.decode reply with
  | .error e => return (.error e, c)
  | .ok a =>
    if a.token.isEmpty then return (.error (.decode "login response has no access_token"), c)
    else return (.ok a.email, c.withToken a.token)

/-- Log in and fetch the account. Notes that cannot be fetched are left out. -/
def account (c : RemoteClient) (credentials : Credentials) :
    Net (Except RemoteError Account × RemoteClient) := do
  match ← c.login credentials with
  | (.error e, c) => return (.error e, c)
  | (.ok email, c) =>
    match ← c.summaries with
    | .error e => return (.error e, c)
    | .ok ss => return (.ok ⟨email, (← c.notesOf ss).map lenient⟩, c)

end RemoteClient

end MarkdownIndex
