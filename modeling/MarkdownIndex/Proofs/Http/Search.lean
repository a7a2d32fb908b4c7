import MarkdownIndex.Http.SearchApi
import MarkdownIndex.Proofs.Searches
import MarkdownIndex.Proofs.Text.Token

/-!
# Search requests: what is refused, and what is asked for the others

A request for a search can have several faults at once, and the store and the embedder can fail on
the way. Which of these is told is settled for every request, and so is what has been asked until
then.

* `given`, `ofQuery_eq_ok_iff` — the values that a query string gives for a name; parameters are
  read if neither of the two names has more than one.
* `Asks` — a request that names a mode, and can be read up to its limit.
* `Refusal` — the answer to a request that is refused, nothing having been asked.
* `Conduct`, `traces_respond_iff` — the answers to a request are just those: a refusal, or what
  comes of a search. The texts of failures do not show.
-/

namespace MarkdownIndex

open Http Text Program

variable {s : SearchService} {text : String} {limit : Int} {m : SearchMode}
variable {t u : List (Exchange Work.interface)}

/-! ## Parameters -/

namespace SearchApi

/-- The values that some pairs give for a name, in order. -/
def valuesOf (pairs : List (String × String)) (name : String) : List String :=
  (pairs.filter fun pair => pair.1 = name).map (·.2)

/-- The values that a query string gives for a name. -/
def given (query : Option String) (name : String) : List String :=
  valuesOf (formPairs (query.getD "")) name

theorem valuesOf_cons_self (name v : String) (pairs : List (String × String)) :
    valuesOf ((name, v) :: pairs) name = v :: valuesOf pairs name := by
  simp [valuesOf]

theorem valuesOf_cons_of_ne {name k : String} (h : k ≠ name) (v : String)
    (pairs : List (String × String)) :
    valuesOf ((k, v) :: pairs) name = valuesOf pairs name := by
  simp [valuesOf, h]

variable {p p' : Parameters} {query : Option String}

theorem Parameters.ext_toList (hquery : p.query.toList = p'.query.toList)
    (hlimit : p.limit.toList = p'.limit.toList) : p = p' := by
  obtain ⟨q, l⟩ := p
  obtain ⟨q', l'⟩ := p'
  have hq := congrArg List.head? hquery
  have hl := congrArg List.head? hlimit
  simp only [Option.head?_toList] at hq hl
  rw [hq, hl]

theorem add_of_ne {k : String} (hquery : k ≠ "query") (hlimit : k ≠ "limit") (v : String) :
    p.add (k, v) = .ok p := by
  rw [Parameters.add]
  · intro _ heq
    exact hquery (Prod.mk.inj heq).1
  · intro _ heq
    exact hlimit (Prod.mk.inj heq).1

/-- A list with two elements is none of an option. -/
theorem toList_ne_cons_cons {α : Type} (o : Option α) (a b : α) (as : List α) :
    a :: b :: as ≠ o.toList := by
  cases o <;> simp

/-- Pairs are read if the values of a name, with the one that is there already, are not more than
one. -/
theorem foldlM_add_eq_ok_iff (pairs : List (String × String)) :
    pairs.foldlM Parameters.add p = .ok p' ↔
      p.query.toList ++ valuesOf pairs "query" = p'.query.toList ∧
        p.limit.toList ++ valuesOf pairs "limit" = p'.limit.toList := by
  induction pairs generalizing p with
  | nil =>
    constructor
    · intro h
      obtain rfl := Except.ok.inj h
      exact ⟨List.append_nil _, List.append_nil _⟩
    · rintro ⟨hquery, hlimit⟩
      exact congrArg Except.ok
        (Parameters.ext_toList ((List.append_nil _).symm.trans hquery)
          ((List.append_nil _).symm.trans hlimit))
  | cons pair pairs ih =>
    obtain ⟨k, v⟩ := pair
    rw [List.foldlM_cons]
    by_cases hquery : k = "query"
    · subst hquery
      rw [valuesOf_cons_self, valuesOf_cons_of_ne (by decide)]
      obtain ⟨_ | q, l⟩ := p
      · exact ih (p := ⟨some v, l⟩)
      · refine iff_of_false (fun h => nomatch h) fun h => ?_
        exact toList_ne_cons_cons _ _ _ _ h.1
    by_cases hlimit : k = "limit"
    · subst hlimit
      rw [valuesOf_cons_self, valuesOf_cons_of_ne (by decide)]
      obtain ⟨q, _ | l⟩ := p
      · exact ih (p := ⟨q, some v⟩)
      · refine iff_of_false (fun h => nomatch h) fun h => ?_
        exact toList_ne_cons_cons _ _ _ _ h.2
    · rw [valuesOf_cons_of_ne hquery, valuesOf_cons_of_ne hlimit, add_of_ne hquery hlimit]
      exact ih

/-- **Parameters are read if no value is missed:** those of each name are just what has been
read. -/
theorem ofQuery_eq_ok_iff :
    Parameters.ofQuery query = .ok p ↔
      given query "query" = p.query.toList ∧ given query "limit" = p.limit.toList :=
  foldlM_add_eq_ok_iff _

theorem exists_toList_eq_iff {α : Type} {as : List α} :
    (∃ o : Option α, as = o.toList) ↔ as.length ≤ 1 := by
  constructor
  · rintro ⟨_ | a, rfl⟩
    · exact Nat.zero_le 1
    · exact Nat.le_refl 1
  · intro h
    match as, h with
    | [], _ => exact ⟨none, rfl⟩
    | [a], _ => exact ⟨some a, rfl⟩

/-- Parameters are not read if and only if one of the two names comes more than once. -/
theorem exists_ofQuery_eq_error_iff :
    (∃ r, Parameters.ofQuery query = .error r) ↔
      1 < (given query "query").length ∨ 1 < (given query "limit").length := by
  have hread : (∃ p, Parameters.ofQuery query = .ok p) ↔
      (given query "query").length ≤ 1 ∧ (given query "limit").length ≤ 1 := by
    rw [← exists_toList_eq_iff, ← exists_toList_eq_iff]
    constructor
    · rintro ⟨p, hp⟩
      obtain ⟨hquery, hlimit⟩ := ofQuery_eq_ok_iff.mp hp
      exact ⟨⟨p.query, hquery⟩, ⟨p.limit, hlimit⟩⟩
    · rintro ⟨⟨q, hquery⟩, ⟨l, hlimit⟩⟩
      exact ⟨⟨q, l⟩, ofQuery_eq_ok_iff.mpr ⟨hquery, hlimit⟩⟩
  rw [← Nat.not_le, ← Nat.not_le, ← not_and_or, ← hread]
  cases Parameters.ofQuery query with
  | error r => exact iff_of_true ⟨r, rfl⟩ fun ⟨_, h⟩ => nomatch h
  | ok p => exact iff_of_false (fun ⟨_, h⟩ => nomatch h) fun h => h ⟨p, rfl⟩

/-! ## Answers -/

/-- The limit that is asked for, as it is spelled. -/
def spelledLimit (p : Parameters) : List Char := trim (p.limit.getD "").toList

/-- The limit of a search: the one that is asked for, or the usual one. -/
inductive LimitIs (s : SearchService) (p : Parameters) : Int → Prop
  /-- none is asked for -/
  | usual (h : spelledLimit p = []) : LimitIs s p s.defaultLimit
  /-- an integer of 64 bits is -/
  | spelled {n : Int} (hne : spelledLimit p ≠ []) (h : Decimal.integer? (spelledLimit p) = some n) :
    LimitIs s p n

theorem limitOf_eq_ok_iff :
    limitOf s.defaultLimit p.limit = .ok limit ↔ LimitIs s p limit := by
  rw [limitOf, ← spelledLimit]
  cases hspelled : spelledLimit p with
  | nil =>
    constructor
    · intro h
      obtain rfl := Except.ok.inj h
      exact LimitIs.usual hspelled
    · rintro (_ | ⟨hne, -⟩)
      · rfl
      · exact absurd hspelled hne
  | cons c cs =>
    simp only
    cases hn : Decimal.integer? (c :: cs) with
    | none =>
      refine iff_of_false (fun h => nomatch h) ?_
      rintro (h | ⟨-, h⟩)
      · rw [hspelled] at h
        cases h
      · rw [hspelled, hn] at h
        cases h
    | some n =>
      constructor
      · intro h
        obtain rfl := Except.ok.inj h
        exact LimitIs.spelled (hspelled ▸ List.cons_ne_nil _ _) (hspelled ▸ hn)
      · rintro (h | ⟨-, h⟩)
        · rw [hspelled] at h
          cases h
        · rw [hspelled, hn] at h
          rw [Option.some.inj h]

theorem limitOf_eq_error_iff {spelled : String} :
    limitOf s.defaultLimit p.limit = .error spelled ↔
      spelledLimit p ≠ [] ∧ Decimal.integer? (spelledLimit p) = none ∧
        spelled = String.ofList (spelledLimit p) := by
  rw [limitOf, ← spelledLimit]
  cases hspelled : spelledLimit p with
  | nil => exact iff_of_false (fun h => nomatch h) fun h => h.1 rfl
  | cons c cs =>
    simp only
    cases Decimal.integer? (c :: cs) with
    | none =>
      constructor
      · intro h
        exact ⟨List.cons_ne_nil _ _, rfl, (Except.error.inj h).symm⟩
      · rintro ⟨-, -, rfl⟩
        rfl
    | some n => exact iff_of_false (fun h => nomatch h) fun h => nomatch h.2.1

/-- The query of a search is blank. -/
def IsBlankQuery (p : Parameters) : Prop := trim (p.query.getD "").toList = []

theorem validate_eq_error_iff {e : SearchError} :
    s.validate (p.query.getD "") limit = .error e ↔
      (IsBlankQuery p ∧ e = .blankQuery) ∨
        ¬ IsBlankQuery p ∧ ¬ (1 ≤ limit ∧ limit ≤ s.maxLimit) ∧ e = .limitOutOfRange s.maxLimit := by
  rw [SearchService.validate, IsBlankQuery, trim_eq_nil_iff]
  by_cases hblank : isBlankText (p.query.getD "").toList = true
  · simp [hblank, eq_comm]
  · by_cases hrange : 1 ≤ limit ∧ limit ≤ s.maxLimit
    · simp [hblank, hrange]
    · simp [hblank, hrange, eq_comm]

theorem validate_eq_ok_iff :
    s.validate (p.query.getD "") limit = .ok () ↔
      ¬ IsBlankQuery p ∧ 1 ≤ limit ∧ limit ≤ s.maxLimit := by
  rw [SearchService.validate, IsBlankQuery, trim_eq_nil_iff]
  by_cases hblank : isBlankText (p.query.getD "").toList = true
  · simp [hblank]
  · by_cases hrange : 1 ≤ limit ∧ limit ≤ s.maxLimit
    · simp [hblank, hrange]
    · simp [hblank, hrange]

/-- A request for a search names a mode, its parameters can be read, and so can its limit. -/
structure Asks (s : SearchService) (mode : String) (query : Option String) (m : SearchMode)
    (p : Parameters) (limit : Int) : Prop where
  /-- the mode has the name -/
  mode_eq : SearchMode.ofName? mode = some m
  /-- no parameter comes twice -/
  params_eq : Parameters.ofQuery query = .ok p
  /-- the limit is that of the parameters -/
  limit_is : LimitIs s p limit

/-- The answer to a request for a search that is refused. Of several faults the first counts. -/
inductive Refusal (s : SearchService) (mode : String) (query : Option String) : Response → Prop
  /-- there is no such mode -/
  | unknownMode (hmode : SearchMode.ofName? mode = none) :
    Refusal s mode query (.detail 404
      ("Unknown search mode: " ++ mode ++ ". Use semantic, fulltext, or hybrid."))
  /-- a parameter comes twice -/
  | repeated {m : SearchMode} {r : Repeated} (hmode : SearchMode.ofName? mode = some m)
    (hparams : Parameters.ofQuery query = .error r) : Refusal s mode query (.detail 400 r.message)
  /-- the limit is no integer of 64 bits -/
  | noInteger {m : SearchMode} {p : Parameters} (hmode : SearchMode.ofName? mode = some m)
    (hparams : Parameters.ofQuery query = .ok p) (hne : spelledLimit p ≠ [])
    (hnone : Decimal.integer? (spelledLimit p) = none) :
    Refusal s mode query (.detail 400
      ("limit must be an integer, got '" ++ String.ofList (spelledLimit p) ++ "'"))
  /-- the query is blank -/
  | blankQuery {m : SearchMode} {p : Parameters} {limit : Int} (h : Asks s mode query m p limit)
    (hblank : IsBlankQuery p) : Refusal s mode query (.detail 400 "query must not be empty")
  /-- the limit is out of range -/
  | outOfRange {m : SearchMode} {p : Parameters} {limit : Int} (h : Asks s mode query m p limit)
    (hblank : ¬ IsBlankQuery p) (hrange : ¬ (1 ≤ limit ∧ limit ≤ s.maxLimit)) :
    Refusal s mode query
      (.detail 400 ("limit must be between 1 and " ++ toString s.maxLimit))

/-- A request for a search that is not refused. -/
structure Accepted (s : SearchService) (mode : String) (query : Option String) (m : SearchMode)
    (p : Parameters) (limit : Int) : Prop extends Asks s mode query m p limit where
  /-- the query says something -/
  not_blank : ¬ IsBlankQuery p
  /-- the limit is in range -/
  in_range : 1 ≤ limit ∧ limit ≤ s.maxLimit

/-- The text that is searched for. -/
def searched (p : Parameters) : String := String.ofList (trim (p.query.getD "").toList)

/-- What is asked for the sake of a request for a search, in order, and the answer to it. -/
inductive Conduct (s : SearchService) (mode : String) (query : Option String) :
    List (Exchange Work.interface) → Response → Prop
  /-- it is refused, and nothing is asked -/
  | refused {a : Response} (h : Refusal s mode query a) : Conduct s mode query [] a
  /-- it is served -/
  | served {m : SearchMode} {p : Parameters} {limit : Int} {t : List (Exchange Work.interface)}
    {found : List ScoredChunk} (h : Accepted s mode query m p limit)
    (hfinds : s.Finds (searched p) limit m t (.ok found)) :
    Conduct s mode query t (.ofJson 200
      (SearchResponse.mk (found.map ScoredChunk.toHit) found.length (p.query.getD "")).toJson)
  /-- the embedder fails -/
  | noVector {m : SearchMode} {p : Parameters} {limit : Int} {t : List (Exchange Work.interface)}
    {e : EmbeddingError} (h : Accepted s mode query m p limit)
    (hfinds : s.Finds (searched p) limit m t (.error (.embedding e))) :
    Conduct s mode query t (.detail 500 "Failed to generate embedding")
  /-- the store fails -/
  | storeFailed {m : SearchMode} {p : Parameters} {limit : Int} {t : List (Exchange Work.interface)}
    {f : Failure} (h : Accepted s mode query m p limit)
    (hfinds : s.Finds (searched p) limit m t (.error (.store f))) :
    Conduct s mode query t (.detail 500 "Search failed")

variable {mode : String} {a : Response} {segment name : List Char}

/-- The response to a search that has ended. -/
def responseOf (p : Parameters) : Except SearchError (List SearchHit) → Response
  | .error e => errorResponse e
  | .ok hits => .ofJson 200 (SearchResponse.mk hits hits.length (p.query.getD "")).toJson

theorem search_eq_of_no_mode (hname : decode? (percentDecode (encode segment)) = some name)
    (hmode : SearchMode.ofName? (String.ofList name) = none) :
    search s segment query = pure (errorResponse (.unknownMode (String.ofList name))) := by
  rw [search, hname]
  simp only [SearchMode.parse, hmode]

theorem search_eq_of_mode (hname : decode? (percentDecode (encode segment)) = some name)
    (hmode : SearchMode.ofName? (String.ofList name) = some m) :
    search s segment query = searchIn s m query := by
  rw [search, hname]
  simp only [SearchMode.parse, hmode]

/-- A request that can be read is answered as the search ends. -/
theorem traces_of_asks (hname : decode? (percentDecode (encode segment)) = some name)
    (h : Asks s (String.ofList name) query m p limit) :
    Traces (search s segment query) t a ↔
      ∃ b, Traces (s.search m (p.query.getD "") limit).run t b ∧ a = responseOf p b := by
  rw [search_eq_of_mode hname h.mode_eq, searchIn, h.params_eq]
  simp only [limitOf_eq_ok_iff.mpr h.limit_is]
  refine traces_bind.trans ⟨?_, ?_⟩
  · rintro ⟨b, u, v, rfl, hsearch, hrest⟩
    refine ⟨b, ?_⟩
    cases b with
    | error e =>
      obtain ⟨rfl, rfl⟩ := traces_done.mp hrest
      exact ⟨(List.append_nil u).symm ▸ hsearch, rfl⟩
    | ok hits =>
      obtain ⟨rfl, rfl⟩ := traces_done.mp hrest
      exact ⟨(List.append_nil u).symm ▸ hsearch, rfl⟩
  · rintro ⟨b, hsearch, rfl⟩
    refine ⟨b, t, [], (List.append_nil t).symm, hsearch, ?_⟩
    cases b with
    | error e => exact traces_done.mpr ⟨rfl, rfl⟩
    | ok hits => exact traces_done.mpr ⟨rfl, rfl⟩

/-- What comes of a request that can be read. -/
theorem conduct_of_asks (hname : decode? (percentDecode (encode segment)) = some name)
    (h : Asks s (String.ofList name) query m p limit)
    (ht : Traces (search s segment query) t a) : Conduct s (String.ofList name) query t a := by
  obtain ⟨b, hsearch, rfl⟩ := (traces_of_asks hname h).mp ht
  rcases SearchService.traces_search.mp hsearch with ⟨e, he, rfl, rfl⟩ | ⟨hvalid, c, hc, rfl⟩
  · rcases validate_eq_error_iff.mp he with ⟨hblank, rfl⟩ | ⟨hblank, hrange, rfl⟩
    · exact Conduct.refused (Refusal.blankQuery h hblank)
    · exact Conduct.refused (Refusal.outOfRange h hblank hrange)
  · obtain ⟨hblank, hrange⟩ := validate_eq_ok_iff.mp hvalid
    have haccepted : Accepted s (String.ofList name) query m p limit := ⟨h, hblank, hrange⟩
    cases c with
    | ok found =>
      have hserved := Conduct.served haccepted hc
      rw [← List.length_map ScoredChunk.toHit] at hserved
      exact hserved
    | error e =>
      rcases SearchService.fault_of_finds hc rfl with ⟨d, rfl⟩ | ⟨f, rfl⟩
      · exact Conduct.noVector haccepted hc
      · exact Conduct.storeFailed haccepted hc

/-- A search that is under way ends as it does. -/
theorem traces_of_accepted (hname : decode? (percentDecode (encode segment)) = some name)
    (h : Accepted s (String.ofList name) query m p limit)
    {b : Except SearchError (List ScoredChunk)} (hfinds : s.Finds (searched p) limit m t b) :
    Traces (search s segment query) t (responseOf p (b.map (List.map ScoredChunk.toHit))) := by
  refine (traces_of_asks hname h.toAsks).mpr ⟨_, SearchService.traces_search.mpr ?_, rfl⟩
  exact Or.inr ⟨validate_eq_ok_iff.mpr ⟨h.not_blank, h.in_range⟩, b, hfinds, rfl⟩

/-- A request that is refused is answered at once. -/
theorem traces_of_refusal (hname : decode? (percentDecode (encode segment)) = some name)
    (h : Refusal s (String.ofList name) query a) : Traces (search s segment query) [] a := by
  cases h with
  | unknownMode hmode =>
    rw [search_eq_of_no_mode hname hmode]
    exact traces_done.mpr ⟨rfl, rfl⟩
  | repeated hmode hparams =>
    rw [search_eq_of_mode hname hmode, searchIn, hparams]
    exact traces_done.mpr ⟨rfl, rfl⟩
  | noInteger hmode hparams hne hnone =>
    rw [search_eq_of_mode hname hmode, searchIn, hparams]
    simp only [limitOf_eq_error_iff.mpr ⟨hne, hnone, rfl⟩]
    exact traces_done.mpr ⟨rfl, rfl⟩
  | blankQuery h hblank =>
    refine (traces_of_asks hname h).mpr
      ⟨.error .blankQuery, SearchService.traces_search.mpr (Or.inl ?_), rfl⟩
    exact ⟨_, validate_eq_error_iff.mpr (Or.inl ⟨hblank, rfl⟩), rfl, rfl⟩
  | outOfRange h hblank hrange =>
    refine (traces_of_asks hname h).mpr
      ⟨.error (.limitOutOfRange s.maxLimit), SearchService.traces_search.mpr (Or.inl ?_), rfl⟩
    exact ⟨_, validate_eq_error_iff.mpr (Or.inr ⟨hblank, hrange, rfl⟩), rfl, rfl⟩

/-- **Searches are conducted so,** and there is no more to them. -/
theorem traces_search_iff (hname : decode? (percentDecode (encode segment)) = some name) :
    Traces (search s segment query) t a ↔ Conduct s (String.ofList name) query t a := by
  constructor
  · intro h
    cases hmode : SearchMode.ofName? (String.ofList name) with
    | none =>
      rw [search_eq_of_no_mode hname hmode] at h
      obtain ⟨rfl, rfl⟩ := traces_done.mp h
      exact Conduct.refused (Refusal.unknownMode hmode)
    | some m =>
      cases hparams : Parameters.ofQuery query with
      | error r =>
        rw [search_eq_of_mode hname hmode, searchIn, hparams] at h
        obtain ⟨rfl, rfl⟩ := traces_done.mp h
        exact Conduct.refused (Refusal.repeated hmode hparams)
      | ok p =>
        cases hlimit : limitOf s.defaultLimit p.limit with
        | error spelled =>
          obtain ⟨hne, hnone, rfl⟩ := limitOf_eq_error_iff.mp hlimit
          rw [search_eq_of_mode hname hmode, searchIn, hparams] at h
          simp only [hlimit] at h
          obtain ⟨rfl, rfl⟩ := traces_done.mp h
          exact Conduct.refused (Refusal.noInteger hmode hparams hne hnone)
        | ok limit => exact conduct_of_asks hname ⟨hmode, hparams, limitOf_eq_ok_iff.mp hlimit⟩ h
  · rintro (h | ⟨h, hfinds⟩ | ⟨h, hfinds⟩ | ⟨h, hfinds⟩)
    · exact traces_of_refusal hname h
    · rw [← List.length_map ScoredChunk.toHit]
      exact traces_of_accepted hname h hfinds
    · exact traces_of_accepted hname h hfinds
    · exact traces_of_accepted hname h hfinds

/-! ## Requests -/

/-- The endpoint at a path below the one for searches is a search. -/
theorem endpoint?_eq_search {path : String} (hpath : path.toList = "/search/".toList ++ segment)
    (hne : segment ≠ []) (hslash : '/' ∉ segment) : endpoint? path = some (.search segment) := by
  have hsegment : splitAtClass (· == '/') segment = [segment] := by
    refine splitAtClass_of_solid fun c hc => ?_
    rw [beq_eq_false_iff_ne]
    rintro rfl
    exact hslash hc
  have hsplit : splitAtClass (· == '/') path.toList = [[], "search".toList, segment] := by
    have hparts : path.toList = [] ++ '/' :: ("search".toList ++ '/' :: segment) := hpath
    rw [hparts, splitAtClass_append_cons [] rfl, splitAtClass_append_cons _ rfl, hsegment]
    rfl
  rw [endpoint?, hsplit]
  simp [hne]

/-- What can be got is got as the endpoint answers, for pages of any origin to read. -/
theorem dispatchOpen_get {ε : Type} (e : ε) (answer : ε → Work Response) :
    dispatchOpen "GET" (some e) (fun _ => .get) answer = answer e >>= fun r => pure r.open := by
  apply dispatchOpen_of_takes
  · decide
  · decide

/-- **The search endpoint answers every request by one precedence,** whatever the store and the
embedder answer. Say that somebody gets a path below that of searches. Of an unknown mode, a
parameter that comes twice, a limit that is no integer, a blank query and a limit out of range the
first counts, and nothing is asked for it. Otherwise the mode says what is asked, in order and up to
the first failure; and of a failure the answer only tells whose it is. -/
theorem traces_respond_iff {r : Request} {target : Target} (hmethod : r.method = "GET")
    (htarget : Target.read? r.target = some target)
    (hpath : target.path.toList = "/search/".toList ++ segment) (hne : segment ≠ [])
    (hslash : '/' ∉ segment) (hname : decode? (percentDecode (encode segment)) = some name) :
    ((∃ e, Parameters.ofQuery target.query = .error e) ↔
      1 < (given target.query "query").length ∨ 1 < (given target.query "limit").length) ∧
      ∃ w, respond s r = some w ∧ ∀ t a, Traces w t a ↔
        ∃ b, Conduct s (String.ofList name) target.query t b ∧ a = b.open := by
  refine ⟨exists_ofQuery_eq_error_iff, _, by rw [respond, htarget, Option.map_some], ?_⟩
  intro t a
  rw [endpoint?_eq_search hpath hne hslash, hmethod, dispatchOpen_get]
  refine traces_bind.trans ⟨?_, ?_⟩
  · rintro ⟨b, u, v, rfl, hsearch, hopen⟩
    obtain ⟨rfl, rfl⟩ := traces_done.mp hopen
    rw [List.append_nil]
    exact ⟨b, (traces_search_iff hname).mp hsearch, rfl⟩
  · rintro ⟨b, hb, rfl⟩
    exact ⟨b, t, [], (List.append_nil t).symm, (traces_search_iff hname).mpr hb,
      traces_done.mpr ⟨rfl, rfl⟩⟩

/-- A service with bounds. -/
def sampleService : SearchService := ⟨0.3, 10, 100⟩

/-- A request that gets what is at a target. -/
def getting (target : String) : Request := { method := "GET", target }

/-- A search by meaning and by words, for which the store is out of reach; and one with three
faults, of which the repeated parameter counts. -/
theorem traces_respond_sample :
    (∃ w, respond sampleService (getting "/search/hybrid?query=+a&limit=") = some w ∧
      Traces w [.embedded ["a"] (.ok [[]]),
          .asked (.semanticSearch [] none 10) (.error ⟨"no connection", []⟩)]
        (Response.detail 500 "Search failed").open) ∧
      ∃ w, respond sampleService (getting "/search/hybrid?query=&query=b&limit=x") = some w ∧
        ∃ a, Traces w [] a ∧ a.status = 400 := by
  have hpath : "/search/hybrid".toList = "/search/".toList ++ "hybrid".toList := by decide
  have hslash : '/' ∉ "hybrid".toList := by decide
  have hname : decode? (percentDecode (encode "hybrid".toList)) = some "hybrid".toList := by
    decide +kernel
  have hmode : SearchMode.ofName? (String.ofList "hybrid".toList) = some .hybrid := by
    decide +kernel
  constructor
  · have htarget : Target.read? "/search/hybrid?query=+a&limit=" =
        some ⟨"/search/hybrid", some "query=+a&limit="⟩ := by decide +kernel
    have hparams : Parameters.ofQuery (some "query=+a&limit=") = .ok ⟨some " a", some ""⟩ := by
      decide +kernel
    obtain ⟨-, w, hw, htraces⟩ := traces_respond_iff (s := sampleService)
      (r := getting "/search/hybrid?query=+a&limit=") rfl htarget hpath (by decide) hslash hname
    have hblank : ¬ IsBlankQuery ⟨some " a", some ""⟩ := by
      rw [IsBlankQuery]
      decide
    have haccepted : Accepted sampleService (String.ofList "hybrid".toList)
        (some "query=+a&limit=") .hybrid ⟨some " a", some ""⟩ 10 :=
      ⟨⟨hmode, hparams, LimitIs.usual (by decide)⟩, hblank, by decide⟩
    have htext : searched ⟨some " a", some ""⟩ = "a" := by decide +kernel
    have hfinds : sampleService.Finds (searched ⟨some " a", some ""⟩) 10 .hybrid
        [.embedded ["a"] (.ok [[]]),
          .asked (.semanticSearch [] none 10) (.error ⟨"no connection", []⟩)]
        (.error (.store ⟨"no connection", []⟩)) := by
      rw [htext]
      exact SearchService.Finds.hybridFailed _ rfl
    exact ⟨w, hw, (htraces _ _).mpr ⟨_, Conduct.storeFailed haccepted hfinds, rfl⟩⟩
  · have htarget : Target.read? "/search/hybrid?query=&query=b&limit=x" =
        some ⟨"/search/hybrid", some "query=&query=b&limit=x"⟩ := by decide +kernel
    have hparams : Parameters.ofQuery (some "query=&query=b&limit=x") = .error ⟨"query"⟩ := by
      decide +kernel
    obtain ⟨-, w, hw, htraces⟩ := traces_respond_iff (s := sampleService)
      (r := getting "/search/hybrid?query=&query=b&limit=x") rfl htarget hpath (by decide) hslash
      hname
    exact ⟨w, hw, _, (htraces _ _).mpr ⟨_, Conduct.refused (Refusal.repeated hmode hparams), rfl⟩,
      rfl⟩

end SearchApi

end MarkdownIndex
