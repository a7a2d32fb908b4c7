import MarkdownIndex.Net

/-!
# Deliveries: what goes over the wire for a request

A request is handed to a client library, and the library may send more than one for it: a reply can
point to another address, and then the library asks there, on its own. Where that is another host,
it does not tell who asks.

* `Delivery.Call`, `Delivery.Answer` — one request on the wire, and its reply with the address that
  it points to.
* `Library` — the choices of a client library, with what it promises of them.
* `Library.deliver` — all that is sent for a request.

Headers that a library adds for itself, such as the length of the body, are left out.
-/

namespace MarkdownIndex

open Http

/-- Host and port of an address. Requests are kept apart by these. -/
def Http.Url.site (u : Url) : List Char × Nat :=
  (u.host, u.port.getD (if u.secure then 443 else 80))

namespace Http.Request

/-- The value of a header as it arrives: blanks at its ends are not a part of it. -/
def fieldValue (s : String) : String :=
  let blank (c : Char) : Bool := c == ' ' || c == '\t'
  String.ofList (((s.toList.dropWhile blank).reverse.dropWhile blank).reverse)

/-- Who asks, as a request tells it. -/
def authorizations (r : Request) : List String :=
  (r.headers.filter fun h => h.1 == "authorization").map (·.2)

/-- A request that does not tell who asks. -/
def anonymous (r : Request) : Request :=
  { r with headers := r.headers.filter fun h => h.1 != "authorization" }

/-- A request for what is somewhere else: some replies ask for another one, without a body. -/
def redirected (r : Request) (status : Nat) (there : Url) : Request :=
  let r : Request :=
    if status = 301 ∨ status = 302 ∨ status = 303 then
      { r with
        method := if r.method = "HEAD" then "HEAD" else "GET"
        headers := r.headers.filter fun h => h.1 != "content-type"
        body := [] }
    else r
  { r with target := there.target }

end Http.Request

namespace Delivery

/-- One request on the wire. -/
structure Call where
  /-- where it goes -/
  url : Url
  /-- the request -/
  request : Request

/-- What comes back. -/
structure Answer where
  /-- the reply -/
  reply : Http.Reply
  /-- the address that it points to, if there is one -/
  location : Option Url

/-- The statuses of replies that send a request elsewhere. -/
def redirects : List Nat := [301, 302, 303, 307, 308]

/-- Where a reply sends the request. -/
def Answer.next? (a : Answer) : Option Url :=
  if a.reply.status ∈ redirects then a.location else none

/-- The wire as an interface. A reply that points to where no request can go counts as lost. -/
def interface : Interface := ⟨Call, fun _ => Except Net.Loss Answer⟩

end Delivery

/-- A program over the wire that comes to a reply. -/
abbrev Delivery : Type := Program Delivery.interface (Except Net.Loss Http.Reply)

/-- End with the reply, or go on where it sends the request. -/
def Delivery.settle (elsewhere : (status : Nat) → Url → Delivery) :
    Except Net.Loss Delivery.Answer → Delivery
  | .error loss => return .error loss
  | .ok a => match a.next? with
    | none => return .ok a.reply
    | some there => elsewhere a.reply.status there

/-- The choices of a client library. -/
structure Library where
  /-- how many times a request may be sent elsewhere -/
  limit : Nat
  /-- what a name and a password in an address are written as -/
  basic : Url → Option String
  /-- whether it is told who asks at an address, behind requests to others -/
  trusts : List Url → Url → Bool
  /-- it is told where all requests have gone -/
  trusts_of_same (past : List Url) (url : Url) (h : ∀ u ∈ past, u.site = url.site) :
    trusts past url = true
  /-- it is not told to a host that another one has pointed to -/
  distrusts (past : List Url) (before url : Url) (h : before.site ≠ url.site) :
    trusts (past ++ [before]) url = false

namespace Library

/-- What a name and a password in an address add to a request. -/
def credentials (k : Library) (url : Url) : List (String × String) :=
  (k.basic url).toList.map fun s => ("authorization", "Basic " ++ s)

/-- A request as it arrives. -/
def prepare (k : Library) (url : Url) (r : Request) : Request :=
  { r with
    headers := (k.credentials url ++ r.headers).map fun h => (h.1, Request.fieldValue h.2) }

/-- The request that is sent to an address, behind those to others. -/
def sent (k : Library) (past : List Url) (url : Url) (r : Request) : Delivery.Call :=
  ⟨url, if k.trusts past url then r else r.anonymous⟩

/-- Send a request, and send it elsewhere as long as the replies say so; some requests have been
sent for it before. -/
def follow (k : Library) : (left : Nat) → (past : List Url) → Url → Request → Delivery
  | 0, past, url, r =>
    Program.ask (I := Delivery.interface) (k.sent past url r) >>=
      Delivery.settle fun _ _ => return .error .unreachable
  | left + 1, past, url, r =>
    Program.ask (I := Delivery.interface) (k.sent past url r) >>=
      Delivery.settle fun status there =>
        k.follow left (past ++ [url]) there (r.redirected status there)

/-- All that is sent for a request. -/
def deliver (k : Library) (url : Url) (r : Request) : Delivery :=
  k.follow k.limit [] url (k.prepare url r)

end Library

end MarkdownIndex
