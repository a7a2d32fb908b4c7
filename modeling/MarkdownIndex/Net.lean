import MarkdownIndex.Http.Message
import MarkdownIndex.Http.Url
import MarkdownIndex.Program

/-!
# The network: requests to other services

A request is handed to a client library, which gives the reply that it gets in the end. On the way
there it may send the request elsewhere, if the replies say so; what goes over the wire then is said
in `MarkdownIndex.Net.Delivery`. Here a request counts as one, wherever it goes.

* `Net.Call`, `Net.Reply` — send a request and get the reply, or let time pass.
* `SendError` — why there is no reply.
* `Net.send` — send a request to the address that a text stands for.
-/

namespace MarkdownIndex

/-- Why a request has no reply. -/
inductive SendError where
  /-- there is no such address, or a header cannot be sent -/
  | unsendable
  /-- no reply came in time -/
  | timedOut (url : String)
  /-- the service could not be reached, or hung up -/
  | unreachable (url : String)
deriving DecidableEq, Repr

/-- The wording of an error. -/
def SendError.message : SendError → String
  | .unsendable => "builder error"
  | .timedOut url => "error sending request for url (" ++ url ++ ")"
  | .unreachable url => "error sending request for url (" ++ url ++ ")"

namespace Net

/-- How a request fails on its way. -/
inductive Loss where
  /-- no reply came in time -/
  | timedOut
  /-- the service could not be reached, or hung up, or sent the request elsewhere too often -/
  | unreachable
deriving DecidableEq, Repr

/-- A request to the network. -/
inductive Call where
  /-- have a request sent to an address, and wait so many milliseconds for the reply in the end -/
  | send (url : Http.Url) (request : Http.Request) (timeout : Nat)
  /-- let time pass -/
  | pause (milliseconds : Nat)

/-- The answer to a request. -/
def Reply : Call → Type
  | .send _ _ _ => Except Loss Http.Reply
  | .pause _ => Unit

/-- The network as an interface. -/
def interface : Interface := ⟨Call, Reply⟩

end Net

/-- A program over the network. -/
abbrev Net (α : Type) : Type := Program Net.interface α

namespace Net

/-- Let time pass. -/
def pause (milliseconds : Nat) : Net Unit :=
  Program.ask (I := interface) (.pause milliseconds)

/-- A text can be the value of a header. -/
def sendable (s : String) : Bool :=
  s.toList.all fun c => c = '\t' || (32 ≤ c.toNat && c.toNat ≠ 127)

/-- Send a request to an address. What is asked for is the path and the query of the address. -/
def send (method address : String) (headers : List (String × String)) (body : List UInt8)
    (timeout : Nat) : Net (Except SendError Http.Reply) :=
  match Http.Url.parse? address with
  | none => return .error .unsendable
  | some url =>
    if headers.all fun (_, v) => sendable v then do
      let request : Http.Request := { method, target := url.target, headers, body }
      let reply : Except Loss Http.Reply ←
        Program.ask (I := interface) (.send url request timeout)
      return reply.mapError fun
        | .timedOut => .timedOut url.toString
        | .unreachable => .unreachable url.toString
    else return .error .unsendable

/-- Send JSON to an address. -/
def sendJson (address : String) (v : Json) (timeout : Nat) :
    Net (Except SendError Http.Reply) :=
  send "POST" address [("content-type", "application/json")] (Text.encode v.compactChars) timeout

end Net

end MarkdownIndex
