import MarkdownIndex.Http.Message

/-!
# Routes: which endpoint answers a request

A service is a set of endpoints, each with a path and one method. What is the same for all services
is decided here.

* `Accepts` — the method of an endpoint; what can be got can also be asked for without its body.
* `dispatch`, `dispatchOpen` — the answer of a service. An unknown path is a 404 and a known path
  with another method a 405 that names the right one; both have no body. A service that is open to
  pages of any origin says so in every answer and agrees to every request for permission.
* `dispatchOpen_of_takes` — the right method gets the answer of the endpoint.
-/

namespace MarkdownIndex.Http

/-- The method of an endpoint. -/
inductive Accepts where
  /-- `GET`, and `HEAD` for the same without the body -/
  | get
  /-- `POST` -/
  | post
deriving DecidableEq, Repr

namespace Accepts

/-- The methods of an endpoint, as they are listed. -/
def allowed : Accepts → String
  | .get => "GET,HEAD"
  | .post => "POST"

/-- A method is that of an endpoint. -/
def takes (a : Accepts) (method : String) : Bool :=
  match a with
  | .get => method == "GET" || method == "HEAD"
  | .post => method == "POST"

end Accepts

/-- The path is known, but the method is another. -/
def Response.wrongMethod (a : Accepts) : Response :=
  { status := 405, allow := some a.allowed }

/-- The answer to a `HEAD` request: all but the body. -/
def Response.forMethod (method : String) (r : Response) : Response :=
  if method == "HEAD" then { r with body := .empty } else r

/-- A response that pages of any origin may read. -/
def Response.open (r : Response) : Response :=
  { r with allowOrigin := some "*" }

variable {m : Type → Type} [Monad m] {ε : Type}

/-- The answer of the endpoint of a request, if there is one. -/
def dispatch (method : String) (endpoint : Option ε) (accepts : ε → Accepts)
    (answer : ε → m Response) : m Response :=
  match endpoint with
  | none => return { status := 404 }
  | some e =>
    if (accepts e).takes method then do
      let r ← answer e
      return r.forMethod method
    else return .wrongMethod (accepts e)

/-- The answer of a service that is open to pages of any origin. -/
def dispatchOpen (method : String) (endpoint : Option ε) (accepts : ε → Accepts)
    (answer : ε → m Response) : m Response :=
  if method == "OPTIONS" then
    return Response.open { status := 200, allow := endpoint.map fun e => (accepts e).allowed }
  else do
    let r ← dispatch method endpoint accepts answer
    return r.open

/-- **A request with the method of its endpoint gets what that answers.** -/
theorem dispatchOpen_of_takes [LawfulMonad m] {method : String} {e : ε} {accepts : ε → Accepts}
    (hoptions : method ≠ "OPTIONS") (htakes : (accepts e).takes method = true)
    (answer : ε → m Response) :
    dispatchOpen method (some e) accepts answer = do
      let r ← answer e
      return (r.forMethod method).open := by
  have hmethod : ¬ (method == "OPTIONS") = true := by rwa [beq_iff_eq]
  rw [dispatchOpen, if_neg hmethod, dispatch, if_pos htakes]
  simp only [bind_assoc, pure_bind]

end MarkdownIndex.Http
