import MarkdownIndex.Decimal.Integer
import MarkdownIndex.Http.Percent
import MarkdownIndex.Http.Route
import MarkdownIndex.Search
import MarkdownIndex.Version

/-!
# The search service

* `Endpoint` — `/search/` with a mode, `/stats`, and `/health`.
* `Parameters.ofQuery` — query and limit of a search; neither may come twice.
* `limitOf` — the limit of a search; a blank one counts as none.
* `respond` — the answer to a request. Of several faults the first in this order is told: the mode,
  the parameters, the limit, the query, the range of the limit.
-/

namespace MarkdownIndex

namespace SearchApi

open Http Text

/-! ## Endpoints -/

/-- What the service can be asked. -/
inductive Endpoint where
  /-- a search; its mode as it is spelled in the path -/
  | search (mode : List Char)
  /-- counts of the store -/
  | stats
  /-- whether the service is up -/
  | health
deriving DecidableEq, Repr

/-- The endpoint at a path. -/
def endpoint? (path : String) : Option Endpoint :=
  match splitAtClass (· == '/') path.toList with
  | [[], s, mode] =>
    if s = "search".toList ∧ ¬mode.isEmpty then some (.search mode) else none
  | [[], s] =>
    if s = "stats".toList then some .stats
    else if s = "health".toList then some .health
    else none
  | _ => none

/-! ## Parameters -/

/-- Query and limit of a search. -/
structure Parameters where
  /-- the query -/
  query : Option String := none
  /-- the limit, as it is spelled -/
  limit : Option String := none
deriving DecidableEq, Repr

/-- A parameter comes twice. -/
structure Repeated where
  /-- its name -/
  name : String
deriving DecidableEq, Repr

/-- The wording of an error. -/
def Repeated.message (r : Repeated) : String :=
  "Failed to deserialize query string: duplicate field \x60" ++ r.name ++ "\x60"

/-- Parameters with one more pair of a query; other names are passed over. -/
def Parameters.add (p : Parameters) (pair : String × String) : Except Repeated Parameters :=
  match pair with
  | ("query", v) => if p.query.isSome then .error ⟨"query"⟩ else .ok { p with query := some v }
  | ("limit", v) => if p.limit.isSome then .error ⟨"limit"⟩ else .ok { p with limit := some v }
  | _ => .ok p

/-- The parameters of a query string. -/
def Parameters.ofQuery (q : Option String) : Except Repeated Parameters :=
  (formPairs (q.getD "")).foldlM Parameters.add {}

/-- The limit of a search, or the text that is none. -/
def limitOf (default : Int) (spelled : Option String) : Except String Int :=
  match trim (spelled.getD "").toList with
  | [] => .ok default
  | cs => match Decimal.integer? cs with
    | some n => .ok n
    | none => .error (String.ofList cs)

/-! ## Answers -/

/-- A search error as a response; the reasons of failures stay inside. -/
def errorResponse : SearchError → Response
  | .unknownMode name => .detail 404 (SearchError.message (.unknownMode name))
  | .blankQuery => .detail 400 (SearchError.message .blankQuery)
  | .limitOutOfRange n => .detail 400 (SearchError.message (.limitOutOfRange n))
  | .embedding _ => .detail 500 "Failed to generate embedding"
  | .store _ => .detail 500 "Search failed"

/-- The answer to a search in a mode. -/
def searchIn (s : SearchService) (mode : SearchMode) (query : Option String) : Work Response :=
  match Parameters.ofQuery query with
  | .error r => return .detail 400 r.message
  | .ok p =>
    match limitOf s.defaultLimit p.limit with
    | .error spelled =>
      return .detail 400 ("limit must be an integer, got '" ++ spelled ++ "'")
    | .ok limit => do
      let query := p.query.getD ""
      match ← (s.search mode query limit).run with
      | .error e => return errorResponse e
      | .ok hits => return .ofJson 200 (SearchResponse.mk hits hits.length query).toJson

/-- The answer to a search. -/
def search (s : SearchService) (mode : List Char) (query : Option String) : Work Response :=
  match decode? (percentDecode (encode mode)) with
  | none => return .ofText 400 "Invalid URL: Invalid UTF-8 in \x60mode\x60"
  | some cs =>
    match SearchMode.parse (String.ofList cs) with
    | .error e => return errorResponse e
    | .ok mode => searchIn s mode query

/-- The counts of the store. -/
def stats : Work Response := do
  match ← Work.store .stats with
  | .error _ => return .detail 500 "Failed to get stats"
  | .ok stats =>
    let stats : StoreStats := stats
    return .ofJson 200 (.object [
      ("documents", .int stats.documents),
      ("chunks", .int stats.chunks),
      ("last_update", Json.ofOption (fun t => .string (Instant.stamp t)) stats.lastUpdate)])

/-- The service is up. -/
def health : Response :=
  .ofJson 200 (.object [
    ("status", .string "healthy"),
    ("service", .string "memory-store-search-api"),
    ("version", .string version)])

/-- The answer of an endpoint. -/
def answer (s : SearchService) (query : Option String) : Endpoint → Work Response
  | .search mode => search s mode query
  | .stats => stats
  | .health => return health

/-- The answer to a request; none if its target cannot be read. -/
def respond (s : SearchService) (r : Request) : Option (Work Response) :=
  (Target.read? r.target).map fun t =>
    dispatchOpen r.method (endpoint? t.path) (fun _ => .get) (answer s t.query)

end SearchApi

end MarkdownIndex
