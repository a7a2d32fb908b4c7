import MarkdownIndex.Proofs.Net.Delivery
import MarkdownIndex.Proofs.Remote.Site

/-!
# Tokens: which requests carry which token

A client may be used for any time, with logins between other requests, some of which fail. Whatever
is answered, what it sends shows that it holds the token that it was given last.

* `Use`, `perform`, `Visits` — the uses of a client, one after the other, with any answers;
  `Shuffled` — what is fetched side by side may be answered in any order.
* `Event`, `held` — what happens to a client, and the token that it holds then: the last one that it
  was given, by hand or by a login.
* `Carried` — all that is fetched is fetched with the token that is held then; `CarriedVia` — so it
  is on the wire, where a client library may send a request elsewhere.
* `Fetching` — requests that carry the token of a client; `fetching_get` — one of them, from which
  the same follows for all that is fetched.
* `grants_login` — a login gives a token, or it fails and changes nothing.
* `Step`, `visits_cons` — one use of a client; `Carrying`, `carrying_of_visits` — **any number of
  uses: every request carries the token of the last login that succeeded.**
* `AlwaysTells`, `not_always_tells` — but not all that is fetched on the wire does.
-/

namespace MarkdownIndex

open Program Http

/-! ## Requests and tokens -/

namespace Exchange

variable {x : Exchange Net.interface} {token : String}

/-- Something is fetched with a token. -/
def Fetches (token : String) (x : Exchange Net.interface) : Prop :=
  ∃ url timeout reply,
    x = ⟨.send url ⟨"GET", url.target, RemoteClient.bearer token, []⟩ timeout, reply⟩

/-- Credentials are sent, and no token. -/
def LogsIn (x : Exchange Net.interface) : Prop :=
  ∃ url body timeout reply, x =
    ⟨.send url ⟨"POST", url.target, [("content-type", "application/json")], body⟩ timeout, reply⟩

/-- The token that a login gives: a reply comes, it is no error, and has a token that is not empty.
-/
def granted? : Exchange Net.interface → Option String
  | ⟨.send _ request _, .ok reply⟩ =>
    if request.method = "POST" ∧ reply.isError = false then
      match Json.decodeBytes? LoginAnswer.record.decode reply.body with
      | .ok a => if a.token.isEmpty then none else some a.token
      | .error _ => none
    else none
  | _ => none

/-- All that goes over the wire fetches something, with the token or, where the library tells
nothing of who asks, without one. -/
def FetchesVia (k : Library) (token : String) (x : Exchange Net.interface) : Prop :=
  ∃ url timeout reply,
    x = ⟨.send url ⟨"GET", url.target, RemoteClient.bearer token, []⟩ timeout, reply⟩ ∧
      ∀ u y v, x.Sends k (u ++ y :: v) →
        (y.call.request.method = "GET" ∧ y.call.request.body = []) ∧
          y.call.request.authorizations = if k.trusts (u.map (·.call.url)) y.call.url
            then k.told url ["Bearer " ++ token] else []

/-- And all that goes over the wire for a login does without a token. -/
def LogsInVia (k : Library) (x : Exchange Net.interface) : Prop :=
  ∃ url body timeout reply, x =
    ⟨.send url ⟨"POST", url.target, [("content-type", "application/json")], body⟩ timeout, reply⟩ ∧
      ∀ u y v, x.Sends k (u ++ y :: v) →
        y.call.request.authorizations =
          if k.trusts (u.map (·.call.url)) y.call.url then k.told url [] else []

theorem Fetches.via (h : x.Fetches token) (k : Library) : x.FetchesVia k token := by
  obtain ⟨url, timeout, reply, rfl⟩ := h
  exact ⟨url, timeout, reply, rfl, fun u y v hsends =>
    ⟨fetches_of_sends hsends ⟨rfl, rfl⟩, authorizations_of_sends hsends⟩⟩

theorem LogsIn.via (h : x.LogsIn) (k : Library) : x.LogsInVia k := by
  obtain ⟨url, body, timeout, reply, rfl⟩ := h
  exact ⟨url, body, timeout, reply, rfl, fun u y v hsends => authorizations_of_sends hsends⟩

theorem Fetches.granted? (h : x.Fetches token) : x.granted? = none := by
  obtain ⟨url, timeout, reply, rfl⟩ := h
  cases reply <;> rfl

end Exchange

/-- The tokens that are given by logins, in order. -/
def grants (t : List (Exchange Net.interface)) : List String := t.filterMap Exchange.granted?

theorem grants_append (t u : List (Exchange Net.interface)) :
    grants (t ++ u) = grants t ++ grants u := List.filterMap_append

/-- No token is given by what is fetched. -/
theorem grants_of_fetches {t : List (Exchange Net.interface)}
    (h : ∀ x ∈ t, ∃ token, x.Fetches token) : grants t = [] := by
  refine List.filterMap_eq_nil_iff.mpr fun x hx => ?_
  obtain ⟨token, hfetches⟩ := h x hx
  exact hfetches.granted?

namespace RemoteClient

variable {c c' : RemoteClient} {d : Json.Decoder α} {path : String}
variable {t u : List (Exchange Net.interface)}

/-! ## Uses of a client -/

/-- What can be asked of a client. -/
inductive Use where
  /-- take a token -/
  | withToken (token : String)
  /-- log in -/
  | login (credentials : Credentials)
  /-- log in and fetch the account -/
  | account (credentials : Credentials)
  /-- fetch the projects, strictly -/
  | tryProjects
  /-- fetch the projects, leniently -/
  | projects
  /-- fetch the notes of a project -/
  | tryNotes (project : String)

/-- What comes of it. -/
inductive Outcome where
  /-- the token has been taken -/
  | taken
  /-- who is logged in -/
  | login (r : Except RemoteError String)
  /-- the account -/
  | account (r : Except RemoteError Account)
  /-- the projects, strictly -/
  | tryProjects (r : Except RemoteError (List Project))
  /-- the projects, leniently -/
  | projects (ps : List Project)
  /-- the notes of a project -/
  | tryNotes (r : Except RemoteError (List Note))
deriving DecidableEq

/-- What becomes of a use, and the client after it. -/
def perform (c : RemoteClient) : Use → Net (Outcome × RemoteClient)
  | .withToken token => return (.taken, c.withToken token)
  | .login credentials => do
    let r ← c.login credentials
    return (.login r.1, r.2)
  | .account credentials => do
    let r ← c.account credentials
    return (.account r.1, r.2)
  | .tryProjects => return (.tryProjects (← c.tryProjects), c)
  | .projects => return (.projects (← c.projects), c)
  | .tryNotes project => return (.tryNotes (← c.tryNotes project), c)

/-- What becomes of a use without a token, if it needs one. -/
def Use.unheld? : Use → Option Outcome
  | .tryProjects => some (.tryProjects (.error .notAuthenticated))
  | .projects => some (.projects [])
  | .tryNotes _ => some (.tryNotes (.error .notAuthenticated))
  | _ => none

/-- A use of a client, with what has been sent and answered for it. -/
structure Visit where
  /-- what has been asked of the client -/
  use : Use
  /-- what it has sent, with the replies -/
  trace : List (Exchange Net.interface)
  /-- what has come of it -/
  outcome : Outcome

/-- The same requests; those at the end that fetch something may be answered in any order, as they
are sent side by side. -/
def Shuffled (t u : List (Exchange Net.interface)) : Prop :=
  ∃ a b b', t = a ++ b ∧ u = a ++ b' ∧ b.Perm b' ∧ ∀ x ∈ b, ∃ token, x.Fetches token

theorem Shuffled.refl (t : List (Exchange Net.interface)) : Shuffled t t :=
  ⟨t, [], [], by simp, by simp, List.Perm.nil, fun _ hx => absurd hx List.not_mem_nil⟩

/-- A client is used for any time, and whatever it sends is answered in any way. -/
inductive Visits : RemoteClient → List Visit → RemoteClient → Prop
  /-- it has not been used -/
  | nil (c : RemoteClient) : Visits c [] c
  /-- it is used, and then again -/
  | cons {c c₁ c₂ : RemoteClient} {v : Visit} {vs : List Visit} {t : List (Exchange Net.interface)}
    (h : (c.perform v.use).Traces t (v.outcome, c₁)) (hshuffled : Shuffled t v.trace)
    (rest : Visits c₁ vs c₂) : Visits c (v :: vs) c₂

/-! ## The token that is held -/

/-- What happens to a client. -/
inductive Event where
  /-- it is given a token -/
  | given (token : String)
  /-- it sends a request, and is answered -/
  | exchanged (x : Exchange Net.interface)

/-- The token that a client gets. -/
def Event.token? : Event → Option String
  | .given token => some token
  | .exchanged x => x.granted?

/-- What happens to a client before it sends anything. -/
def Use.events : Use → List Event
  | .withToken token => [.given token]
  | _ => []

/-- What happens to a client that is used. -/
def Visit.events (v : Visit) : List Event := v.use.events ++ v.trace.map .exchanged

/-- The token that is held after some events: the last one that was given, or that of before. -/
def held (before : Option String) (es : List Event) : Option String :=
  (es.filterMap Event.token?).getLast?.or before

/-- Whenever something is fetched, it is fetched with the token that is held then; and nothing else
is sent but credentials. -/
def Carried (before : Option String) (es : List Event) : Prop :=
  ∀ a x b, es = a ++ .exchanged x :: b →
    x.LogsIn ∨ ∃ token, held before a = some token ∧ x.Fetches token

/-- So it is on the wire, whatever the replies point to. -/
def CarriedVia (k : Library) (before : Option String) (es : List Event) : Prop :=
  ∀ a x b, es = a ++ .exchanged x :: b →
    x.LogsInVia k ∨ ∃ token, held before a = some token ∧ x.FetchesVia k token

section Held

variable {before : Option String} {es es' : List Event}

@[simp] theorem held_nil : held before [] = before := rfl

theorem carried_nil : Carried before [] := by
  intro a x b heq
  simp at heq

theorem Carried.via (h : Carried before es) (k : Library) : CarriedVia k before es := by
  intro a x b heq
  rcases h a x b heq with hlogsIn | ⟨token, htoken, hfetches⟩
  · exact Or.inl (hlogsIn.via k)
  · exact Or.inr ⟨token, htoken, hfetches.via k⟩

theorem held_append : held before (es ++ es') = held (held before es) es' := by
  simp [held, List.filterMap_append, List.getLast?_append, Option.or_assoc]

theorem held_exchanged : held before (t.map .exchanged) = (grants t).getLast?.or before := by
  rw [held, List.filterMap_map]
  rfl

theorem carried_append :
    Carried before (es ++ es') ↔ Carried before es ∧ Carried (held before es) es' := by
  constructor
  · intro h
    refine ⟨fun a x b heq => h a x (b ++ es') (by simp [heq]), fun a x b heq => ?_⟩
    rw [← held_append]
    exact h (es ++ a) x b (by simp [heq])
  · rintro ⟨h, h'⟩ a x b heq
    -- the request is one of the later events, or one of the first
    rcases List.append_eq_append_iff.mp heq with ⟨m, rfl, hes'⟩ | ⟨m, hes, hb⟩
    · rw [held_append]
      exact h' m x b hes'
    · cases m with
      | nil =>
        rw [List.append_nil] at hes
        obtain rfl := hes
        simpa using h' [] x b hb.symm
      | cons e m =>
        obtain ⟨rfl, rfl⟩ := List.cons.inj hb
        exact h a x m hes

/-- What is held stays the same as long as no login succeeds. -/
theorem carried_exchanged (h : grants t = []) :
    Carried before (t.map .exchanged) ↔
      ∀ x ∈ t, x.LogsIn ∨ ∃ token, before = some token ∧ x.Fetches token := by
  have hheld {u v : List (Exchange Net.interface)} (ht : t = u ++ v) :
      held before (u.map .exchanged) = before := by
    rw [ht, grants_append, List.append_eq_nil_iff] at h
    rw [held_exchanged, h.1]
    rfl
  constructor
  · intro hcarried x hx
    obtain ⟨u, v, ht⟩ := List.append_of_mem hx
    rw [← hheld ht]
    exact hcarried _ x (v.map .exchanged) (by simp [ht])
  · intro hall a x b heq
    obtain ⟨u, v, ht, rfl, hv⟩ := List.map_eq_append_iff.mp heq
    obtain ⟨y, w, rfl, hy, -⟩ := List.map_eq_cons_iff.mp hv
    obtain rfl := Event.exchanged.inj hy
    rw [hheld ht]
    exact hall y (by simp [ht])

end Held

/-! ## What is fetched -/

/-- All that is sent is sent with the token that is held. -/
def Fetching (c : RemoteClient) (t : List (Exchange Net.interface)) : Prop :=
  ∀ x ∈ t, ∃ token, c.token = some token ∧ x.Fetches token

theorem fetching_nil : Fetching c [] := fun _ hx => absurd hx List.not_mem_nil

theorem Fetching.append (h : Fetching c t) (h' : Fetching c u) : Fetching c (t ++ u) := by
  intro x hx
  rcases List.mem_append.mp hx with hx | hx
  · exact h x hx
  · exact h' x hx

theorem Fetching.grants (h : Fetching c t) : grants t = [] :=
  grants_of_fetches fun x hx => (h x hx).imp fun _ => And.right

/-- Without a token nothing is fetched. -/
theorem Fetching.eq_nil (h : Fetching c t) (hc : c.token = none) : t = [] := by
  refine List.eq_nil_iff_forall_not_mem.mpr fun x hx => ?_
  obtain ⟨token, htoken, -⟩ := h x hx
  rw [hc] at htoken
  cases htoken

theorem Fetching.carried (h : Fetching c t) : Carried c.token (t.map .exchanged) :=
  (carried_exchanged h.grants).mpr fun x hx => Or.inr (h x hx)

theorem fetching_get {r : Except RemoteError α} (h : Traces (c.get d path) t r) :
    Fetching c t := by
  cases htoken : c.token with
  | none =>
    rw [get_of_none htoken] at h
    obtain ⟨-, rfl⟩ := traces_done.mp h
    exact fetching_nil
  | some token =>
    by_cases hsend : Net.sendable ("Bearer " ++ token) = true
    · cases hurl : Url.parse? (c.baseUrl ++ path) with
      | none =>
        rw [get_of_unsendable htoken (Or.inl hurl)] at h
        obtain ⟨-, rfl⟩ := traces_done.mp h
        exact fetching_nil
      | some url =>
        rw [get_of_sendable htoken hsend hurl] at h
        obtain ⟨r, u, rfl, hu⟩ := traces_call.mp h
        obtain ⟨-, rfl⟩ := traces_done.mp hu
        intro x hx
        obtain rfl := List.mem_singleton.mp hx
        exact ⟨token, htoken, url, c.timeout, r, rfl⟩
    · rw [get_of_unsendable htoken (Or.inr (Bool.eq_false_iff.mpr hsend))] at h
      obtain ⟨-, rfl⟩ := traces_done.mp h
      exact fetching_nil

theorem fetching_notesOf {ss : List ProjectSummary}
    {r : List (ProjectSummary × Except RemoteError (List Note))}
    (h : Traces (c.notesOf ss) t r) : Fetching c t := by
  induction ss generalizing t r with
  | nil =>
    obtain ⟨-, rfl⟩ := traces_done.mp h
    exact fetching_nil
  | cons s ss ih =>
    obtain ⟨notes, u, v, rfl, hu, hv⟩ := traces_bind.mp h
    obtain ⟨rest, hrest, -⟩ := traces_bind_pure.mp hv
    exact (fetching_get hu).append (ih hrest)

theorem fetching_tryProjects {r : Except RemoteError (List Project)}
    (h : Traces c.tryProjects t r) : Fetching c t := by
  obtain ⟨list, u, v, rfl, hu, hv⟩ := traces_bind.mp h
  apply (fetching_get hu).append
  cases list with
  | error e =>
    obtain ⟨-, rfl⟩ := traces_done.mp hv
    exact fetching_nil
  | ok ss =>
    obtain ⟨notes, hnotes, -⟩ := traces_bind_pure.mp hv
    exact fetching_notesOf hnotes

theorem fetching_projects {r : List Project} (h : Traces c.projects t r) : Fetching c t := by
  obtain ⟨list, u, v, rfl, hu, hv⟩ := traces_bind.mp h
  apply (fetching_get hu).append
  cases list with
  | error e =>
    obtain ⟨-, rfl⟩ := traces_done.mp hv
    exact fetching_nil
  | ok ss =>
    obtain ⟨notes, hnotes, -⟩ := traces_bind_pure.mp hv
    exact fetching_notesOf hnotes

/-! ## Logins -/

section Login

variable {credentials : Credentials} {before : Option String}

theorem carried_of_logsIn (h : ∀ x ∈ t, x.LogsIn) : Carried before (t.map .exchanged) := by
  intro a x b heq
  have hx : Event.exchanged x ∈ t.map Event.exchanged := by simp [heq]
  obtain ⟨y, hy, hxy⟩ := List.mem_map.mp hx
  obtain rfl := Event.exchanged.inj hxy
  exact Or.inl (h y hy)

/-- A reply gives a token, or the login fails and changes nothing. -/
theorem afterLogin_of_granted (c : RemoteClient) (url : Url) (request : Request) (timeout : Nat)
    (r : Except Net.Loss Reply) (hmethod : request.method = "POST") :
    (∃ token email, Exchange.granted? ⟨.send url request timeout, r⟩ = some token ∧
        c.afterLogin (Except.mapError (Net.Loss.error url) r) = (.ok email, c.withToken token)) ∨
      Exchange.granted? ⟨.send url request timeout, r⟩ = none ∧
        ∃ e, c.afterLogin (Except.mapError (Net.Loss.error url) r) = (.error e, c) := by
  cases r with
  | error loss => exact Or.inr ⟨rfl, _, rfl⟩
  | ok reply =>
    change (∃ token email, _ ∧ c.afterLogin (.ok reply) = (.ok email, c.withToken token)) ∨
      _ ∧ ∃ e, c.afterLogin (.ok reply) = (.error e, c)
    by_cases herror : reply.isError = true
    · right
      simp [Exchange.granted?, afterLogin, readReply, herror]
    · rcases hdecode : Json.decodeBytes? LoginAnswer.record.decode reply.body with e | a
      · right
        simp [Exchange.granted?, afterLogin, readReply, herror, hdecode]
      · by_cases hempty : a.token.isEmpty = true
        · right
          simp [Exchange.granted?, afterLogin, readReply, herror, hdecode, hempty]
        · left
          refine ⟨a.token, a.email, ?_, ?_⟩
          · simp [Exchange.granted?, hmethod, herror, hdecode, hempty]
          · simp [afterLogin, readReply, herror, hdecode, hempty]

/-- **A login gives a token, or it fails and changes nothing.** -/
theorem grants_login {r : Except RemoteError String × RemoteClient}
    (h : Traces (c.login credentials) t r) :
    (∀ x ∈ t, x.LogsIn) ∧
      ((∃ token email, grants t = [token] ∧ r = (.ok email, c.withToken token)) ∨
        grants t = [] ∧ ∃ e, r = (.error e, c)) := by
  cases hurl : Url.parse? (c.baseUrl ++ "/v1/auth/login/") with
  | none =>
    rw [login_of_unsendable hurl] at h
    obtain ⟨rfl, rfl⟩ := traces_done.mp h
    exact ⟨fun _ hx => absurd hx List.not_mem_nil, Or.inr ⟨rfl, _, rfl⟩⟩
  | some url =>
    rw [login_of_sendable hurl] at h
    obtain ⟨reply, u, rfl, hu⟩ := traces_call.mp h
    obtain ⟨rfl, rfl⟩ := traces_done.mp hu
    constructor
    · intro x hx
      obtain rfl := List.mem_singleton.mp hx
      exact ⟨url, _, c.timeout, reply, rfl⟩
    · rcases afterLogin_of_granted c url _ c.timeout reply rfl with
        ⟨token, email, hgranted, hafter⟩ | ⟨hgranted, e, hafter⟩
      · exact Or.inl ⟨token, email, by simp [grants, hgranted], hafter⟩
      · exact Or.inr ⟨by simp [grants, hgranted], e, hafter⟩

section After

variable {r : Except RemoteError String} (h : Traces (c.login credentials) t (r, c'))

include h

/-- The token after a login is the one that it gives, or that of before. -/
theorem token_of_login : c'.token = held c.token (t.map .exchanged) := by
  rw [held_exchanged]
  rcases (grants_login h).2 with ⟨token, email, ht, hr⟩ | ⟨ht, e, hr⟩
  · obtain ⟨rfl, rfl⟩ := Prod.mk.inj hr
    rw [ht]
    rfl
  · obtain ⟨rfl, rfl⟩ := Prod.mk.inj hr
    rw [ht]
    rfl

theorem error_of_login_iff : (∃ e, r = .error e) ↔ grants t = [] := by
  rcases (grants_login h).2 with ⟨token, email, ht, hr⟩ | ⟨ht, e, hr⟩
  · obtain ⟨rfl, rfl⟩ := Prod.mk.inj hr
    simp [ht]
  · obtain ⟨rfl, rfl⟩ := Prod.mk.inj hr
    simp [ht]

theorem eq_of_login (hgrants : grants t = []) : c' = c := by
  rcases (grants_login h).2 with ⟨token, email, ht, hr⟩ | ⟨ht, e, hr⟩
  · simp [ht] at hgrants
  · exact (Prod.mk.inj hr).2

end After

/-- An account is fetched with the client that has been logged in. -/
theorem traces_account {r : Except RemoteError Account × RemoteClient}
    (h : Traces (c.account credentials) t r) :
    ∃ u v r₁, t = u ++ v ∧ Traces (c.login credentials) u (r₁, r.2) ∧ Fetching r.2 v ∧
      ∀ e, r₁ = .error e → r.1 = .error e := by
  obtain ⟨⟨r₁, c₁⟩, u, v, rfl, hu, hv⟩ := traces_bind.mp h
  cases r₁ with
  | error e =>
    obtain ⟨rfl, rfl⟩ := traces_done.mp hv
    refine ⟨u, [], _, rfl, hu, fetching_nil, ?_⟩
    rintro _ ⟨⟩
    rfl
  | ok email =>
    obtain ⟨list, v₁, v₂, rfl, hlist, hrest⟩ := traces_bind.mp hv
    cases list with
    | error e =>
      obtain ⟨rfl, rfl⟩ := traces_done.mp hrest
      exact ⟨u, _, _, rfl, hu, (fetching_get hlist).append fetching_nil, nofun⟩
    | ok ss =>
      obtain ⟨notes, hnotes, rfl⟩ := traces_bind_pure.mp hrest
      have hfetching := (fetching_get hlist).append (fetching_notesOf hnotes)
      exact ⟨u, _, _, rfl, hu, hfetching, nofun⟩

end Login

/-! ## One use -/

/-- What one use of a client does to it. -/
structure Step (c : RemoteClient) (v : Visit) (c' : RemoteClient) : Prop where
  /-- the token after it is the last one that was given -/
  token_eq : c'.token = held c.token v.events
  /-- every request carries the token that is held then -/
  carried : Carried c.token v.events
  /-- without a new token nothing changes -/
  kept : (∀ token, v.use ≠ .withToken token) → grants v.trace = [] → c' = c
  /-- a login fails if and only if it gives no token -/
  login_error_iff : ∀ credentials, v.use = .login credentials →
    ((∃ e, v.outcome = .login (.error e)) ↔ grants v.trace = [])
  /-- an account cannot be fetched without a login that succeeds -/
  account_error : ∀ credentials, v.use = .account credentials → grants v.trace = [] →
    ∃ e, v.outcome = .account (.error e)
  /-- without a token nothing is sent, and what needs one says so -/
  unheld : c.token = none → ∀ o, v.use.unheld? = some o → v.trace = [] ∧ v.outcome = o

/-- What is fetched changes nothing. -/
theorem step_of_fetching {use : Use} {o o' : Outcome} (huse : use.unheld? = some o)
    (h : Fetching c t) (hunheld : c.token = none → o' = o) : Step c ⟨use, t, o'⟩ c := by
  have hevents : Visit.events ⟨use, t, o'⟩ = t.map .exchanged := by
    cases use with
    | withToken => cases huse
    | _ => rfl
  constructor
  · rw [hevents, held_exchanged, h.grants]
    rfl
  · rw [hevents]
    exact h.carried
  · exact fun _ _ => rfl
  · rintro credentials rfl
    cases huse
  · rintro credentials rfl
    cases huse
  · intro hc o₁ ho₁
    obtain rfl := Option.some.inj (huse.symm.trans ho₁)
    exact ⟨h.eq_nil hc, hunheld hc⟩

/-- One use of a client, what is sent one after the other. -/
theorem step_of_traces {use : Use} {o : Outcome} (h : (c.perform use).Traces t (o, c')) :
    Step c ⟨use, t, o⟩ c' := by
  cases use with
  | withToken token =>
    obtain ⟨heq, rfl⟩ := traces_done.mp h
    obtain ⟨rfl, rfl⟩ := Prod.mk.inj heq
    constructor
    · rfl
    · rintro (_ | ⟨e, a⟩) x b heq
      · cases (List.cons.inj heq).1
      · have hnil := (List.cons.inj heq).2
        simp at hnil
    · exact fun huse _ => absurd rfl (huse token)
    · rintro _ ⟨⟩
    · rintro _ ⟨⟩
    · rintro _ _ ⟨⟩
  | login credentials =>
    obtain ⟨⟨r, c₁⟩, hlogin, heq⟩ := traces_bind_pure.mp h
    obtain ⟨rfl, rfl⟩ := Prod.mk.inj heq
    constructor
    · exact token_of_login hlogin
    · exact carried_of_logsIn (grants_login hlogin).1
    · exact fun _ => eq_of_login hlogin
    · rintro _ ⟨⟩
      simpa using error_of_login_iff hlogin
    · rintro _ ⟨⟩
    · rintro _ _ ⟨⟩
  | account credentials =>
    obtain ⟨⟨r, c₁⟩, haccount, heq⟩ := traces_bind_pure.mp h
    obtain ⟨rfl, hc₁⟩ := Prod.mk.inj heq
    obtain rfl : c' = c₁ := hc₁
    obtain ⟨u, v, r₁, rfl, hlogin, hfetching, hr⟩ := traces_account haccount
    have htoken := token_of_login hlogin
    have hgrants : grants (u ++ v) = grants u := by
      rw [grants_append, hfetching.grants, List.append_nil]
    constructor
    · change c'.token = held c.token ((u ++ v).map .exchanged)
      rw [held_exchanged, hgrants, ← held_exchanged]
      exact htoken
    · -- what is fetched after the login is fetched with the token that it has left
      change Carried c.token ((u ++ v).map .exchanged)
      rw [List.map_append, carried_append, ← htoken]
      exact ⟨carried_of_logsIn (grants_login hlogin).1, hfetching.carried⟩
    · exact fun _ hnone => eq_of_login hlogin (hgrants ▸ hnone)
    · rintro _ ⟨⟩
    · rintro _ ⟨⟩ hnone
      obtain ⟨e, he⟩ := (error_of_login_iff hlogin).mpr (hgrants ▸ hnone)
      exact ⟨e, congrArg Outcome.account (hr e he)⟩
    · rintro _ _ ⟨⟩
  | tryProjects =>
    obtain ⟨r, hu, heq⟩ := traces_bind_pure.mp h
    obtain ⟨rfl, rfl⟩ := Prod.mk.inj heq
    apply step_of_fetching rfl (fetching_tryProjects hu)
    intro hc
    rw [tryProjects, summaries, get_of_none hc] at hu
    obtain ⟨rfl, -⟩ := traces_done.mp hu
    rfl
  | projects =>
    obtain ⟨r, hu, heq⟩ := traces_bind_pure.mp h
    obtain ⟨rfl, rfl⟩ := Prod.mk.inj heq
    apply step_of_fetching rfl (fetching_projects hu)
    intro hc
    rw [projects, summaries, get_of_none hc] at hu
    obtain ⟨rfl, -⟩ := traces_done.mp hu
    rfl
  | tryNotes project =>
    obtain ⟨r, hu, heq⟩ := traces_bind_pure.mp h
    obtain ⟨rfl, rfl⟩ := Prod.mk.inj heq
    apply step_of_fetching rfl (fetching_get hu)
    intro hc
    rw [tryNotes, get_of_none hc] at hu
    obtain ⟨rfl, -⟩ := traces_done.mp hu
    rfl

/-- **Requests that are sent side by side may be answered in any order.** -/
theorem Step.of_shuffled {use : Use} {o : Outcome} (h : Step c ⟨use, t, o⟩ c')
    (hshuffled : Shuffled t u) : Step c ⟨use, u, o⟩ c' := by
  obtain ⟨a, b, b', rfl, rfl, hperm, hfetches⟩ := hshuffled
  have hfetches' : ∀ x ∈ b', ∃ token, x.Fetches token := fun x hx =>
    hfetches x (hperm.mem_iff.mpr hx)
  have hgrants : grants (a ++ b') = grants (a ++ b) := by
    rw [grants_append, grants_append, grants_of_fetches hfetches, grants_of_fetches hfetches']
  have hcarried := h.carried
  rw [Visit.events, List.map_append, ← List.append_assoc, carried_append,
    carried_exchanged (grants_of_fetches hfetches)] at hcarried
  refine ⟨?_, ?_, ?_, ?_, ?_, ?_⟩
  · rw [h.token_eq, Visit.events, Visit.events, held_append, held_append, held_exchanged,
      held_exchanged, hgrants]
  · rw [Visit.events, List.map_append, ← List.append_assoc, carried_append,
      carried_exchanged (grants_of_fetches hfetches')]
    exact ⟨hcarried.1, fun x hx => hcarried.2 x (hperm.mem_iff.mpr hx)⟩
  · exact hgrants ▸ h.kept
  · exact hgrants ▸ h.login_error_iff
  · exact hgrants ▸ h.account_error
  · intro hc o₁ ho₁
    obtain ⟨hnil, ho⟩ := h.unheld hc o₁ ho₁
    obtain ⟨rfl, rfl⟩ := List.append_eq_nil_iff.mp hnil
    exact ⟨hperm.nil_eq.symm, ho⟩

/-! ## Any number of uses -/

section Visits

variable {us ws vs : List Visit} {v : Visit}

theorem visits_append : Visits c (us ++ ws) c' ↔ ∃ c₁, Visits c us c₁ ∧ Visits c₁ ws c' := by
  induction us generalizing c with
  | nil =>
    constructor
    · exact fun h => ⟨c, Visits.nil c, h⟩
    · rintro ⟨c₁, ⟨⟩, h⟩
      exact h
  | cons u us ih =>
    constructor
    · rintro (_ | ⟨h, hshuffled, rest⟩)
      obtain ⟨c₂, hus, hws⟩ := ih.mp rest
      exact ⟨c₂, Visits.cons h hshuffled hus, hws⟩
    · rintro ⟨c₂, _ | ⟨h, hshuffled, hus⟩, hws⟩
      exact Visits.cons h hshuffled (ih.mpr ⟨c₂, hus, hws⟩)

/-- **One use of a client is a step,** whatever is answered. -/
theorem visits_cons (h : Visits c (v :: vs) c') : ∃ c₁, Step c v c₁ ∧ Visits c₁ vs c' := by
  obtain _ | ⟨hv, hshuffled, rest⟩ := h
  exact ⟨_, (step_of_traces hv).of_shuffled hshuffled, rest⟩

/-- Every one of the uses is. -/
theorem Visits.step (h : Visits c (us ++ v :: ws) c') :
    ∃ c₁ c₂, Visits c us c₁ ∧ Step c₁ v c₂ ∧ Visits c₂ ws c' := by
  obtain ⟨c₁, hus, hrest⟩ := visits_append.mp h
  obtain ⟨c₂, hv, hws⟩ := visits_cons hrest
  exact ⟨c₁, c₂, hus, hv, hws⟩

theorem Visits.token_eq (h : Visits c vs c') :
    c'.token = held c.token (vs.flatMap Visit.events) := by
  induction vs generalizing c with
  | nil =>
    cases h
    rfl
  | cons v vs ih =>
    obtain ⟨c₁, hv, hvs⟩ := visits_cons h
    rw [List.flatMap_cons, held_append, ← hv.token_eq]
    exact ih hvs

theorem Visits.carried (h : Visits c vs c') : Carried c.token (vs.flatMap Visit.events) := by
  induction vs generalizing c with
  | nil => exact carried_nil
  | cons v vs ih =>
    obtain ⟨c₁, hv, hvs⟩ := visits_cons h
    rw [List.flatMap_cons, carried_append, ← hv.token_eq]
    exact ⟨hv.carried, ih hvs⟩

/-- What can be said of a client that is used for any time. -/
structure Carrying (c : RemoteClient) (vs : List Visit) (c' : RemoteClient) : Prop where
  /-- the token that is held is the last one that was given, by hand or by a login -/
  token_eq : c'.token = held c.token (vs.flatMap Visit.events)
  /-- whatever is fetched is fetched with the token that is held then, and with nothing else -/
  carried : Carried c.token (vs.flatMap Visit.events)
  /-- so it is on the wire, except that nothing may be told of who asks where a reply points to -/
  carriedVia : ∀ k, CarriedVia k c.token (vs.flatMap Visit.events)
  /-- as long as none is held, nothing is sent for what needs one, and it says so -/
  unheld : ∀ us v ws, vs = us ++ v :: ws → held c.token (us.flatMap Visit.events) = none →
    ∀ o, v.use.unheld? = some o → v.trace = [] ∧ v.outcome = o
  /-- a login fails if and only if it gives no token -/
  login_error_iff : ∀ v ∈ vs, ∀ credentials, v.use = .login credentials →
    ((∃ e, v.outcome = .login (.error e)) ↔ grants v.trace = [])
  /-- an account is not there without a login that succeeds -/
  account_error : ∀ v ∈ vs, ∀ credentials, v.use = .account credentials → grants v.trace = [] →
    ∃ e, v.outcome = .account (.error e)
  /-- and all goes on as if there had been no use that gives no token -/
  kept : ∀ us v ws, vs = us ++ v :: ws → (∀ token, v.use ≠ .withToken token) →
    grants v.trace = [] → Visits c (us ++ ws) c'

/-- **Every request carries the token of the last login that succeeded,** or the one that was given
by hand since then. -/
theorem carrying_of_visits (h : Visits c vs c') : Carrying c vs c' := by
  refine ⟨h.token_eq, h.carried, h.carried.via, ?_, ?_, ?_, ?_⟩
  · rintro us v ws rfl hnone
    obtain ⟨c₁, c₂, hus, hv, -⟩ := h.step
    exact hv.unheld (hus.token_eq.trans hnone)
  · intro v hv
    obtain ⟨us, ws, rfl⟩ := List.append_of_mem hv
    obtain ⟨c₁, c₂, -, hstep, -⟩ := h.step
    exact hstep.login_error_iff
  · intro v hv
    obtain ⟨us, ws, rfl⟩ := List.append_of_mem hv
    obtain ⟨c₁, c₂, -, hstep, -⟩ := h.step
    exact hstep.account_error
  · rintro us v ws rfl huse hgrants
    obtain ⟨c₁, c₂, hus, hv, hws⟩ := h.step
    obtain rfl := hv.kept huse hgrants
    exact visits_append.mpr ⟨c₂, hus, hws⟩

end Visits

/-! ## Uses at sites -/

/-- How uses go that are answered by sites, by another one each time. -/
def visitsAt (c : RemoteClient) : List (Use × Site) → List Visit
  | [] => []
  | (use, f) :: us =>
    ⟨use, f.trace (c.perform use), (f.ask (c.perform use)).1⟩ ::
      visitsAt (f.ask (c.perform use)).2 us

/-- The client after them. -/
def clientAt (c : RemoteClient) : List (Use × Site) → RemoteClient
  | [] => c
  | (use, f) :: us => clientAt (f.ask (c.perform use)).2 us

theorem visits_visitsAt (c : RemoteClient) (us : List (Use × Site)) :
    Visits c (c.visitsAt us) (c.clientAt us) := by
  induction us generalizing c with
  | nil => exact Visits.nil c
  | cons u us ih => exact Visits.cons (u.2.traces_ask (c.perform u.1)) (Shuffled.refl _) (ih _)

/-- A token by hand, a login that is refused, and one that is not, with requests between them. -/
def sampleUses : List (Use × Site) :=
  let away : Site := fun _ => .error .unreachable
  let token : Json := .object [("access_token", .string "b")]
  [(.tryProjects, away), (.withToken "a", away), (.tryNotes "n", away),
    (.login ⟨"me", "wrong"⟩, fun _ => .ok ⟨401, []⟩), (.projects, away),
    (.login ⟨"me", "right"⟩, fun _ => .ok ⟨200, Text.encode token.compactChars⟩), (.projects, away)]

theorem carrying_of_visits_sample :
    let c : RemoteClient := ⟨"http://notes", 100, none⟩
    Visits c (c.visitsAt sampleUses) (c.clientAt sampleUses) ∧
      (c.clientAt sampleUses).token = some "b" ∧ ((c.visitsAt sampleUses).map (·.trace.length)) =
        [0, 0, 1, 1, 1, 1, 1] := by
  intro c
  have hvisits := visits_visitsAt c sampleUses
  refine ⟨hvisits, ?_, ?_⟩
  · rw [(carrying_of_visits hvisits).token_eq]
    decide +kernel
  · decide +kernel

/-! ## Redirects and blanks -/

/-- Whatever fetches something on the wire tells of the token that is held. -/
def AlwaysTells (k : Library) (c : RemoteClient) (vs : List Visit) : Prop :=
  ∀ a x b hops, vs.flatMap Visit.events = a ++ .exchanged x :: b → x.Sends k hops →
    ∀ y ∈ hops, y.call.request.method = "GET" → ∃ token, held c.token a = some token ∧
      y.call.request.authorizations = ["Bearer " ++ token]

theorem not_alwaysTells {k : Library} {v : Visit} {x : Exchange Net.interface}
    {hops : List (Exchange Delivery.interface)} {y : Exchange Delivery.interface}
    (hv : v.events = [.exchanged x]) (hx : x.Sends k hops) (hy : y ∈ hops)
    (hmethod : y.call.request.method = "GET") (h : ∀ token, c.token = some token →
      y.call.request.authorizations ≠ ["Bearer " ++ token]) : ¬ AlwaysTells k c [v] := by
  intro htells
  have hevents : [v].flatMap Visit.events = [] ++ .exchanged x :: [] := by
    rw [List.flatMap_singleton, hv]
    rfl
  obtain ⟨token, htoken, heq⟩ := htells [] x [] hops hevents hx y hy hmethod
  exact h token htoken heq

/-- A library that tells who asks where all requests have gone, and nowhere else. -/
def plainLibrary : Library where
  limit := 10
  basic _ := none
  trusts past url := past.all fun u => u.site == url.site
  trusts_of_same past url h := List.all_eq_true.mpr fun u hu => beq_iff_eq.mpr (h u hu)
  distrusts past before url h := by simp [h]

/-- An address of a service without a name and a password. -/
def plainUrl (host path : String) : Url := ⟨false, [], host.toList, none, path.toList, none, none⟩

section Asked

variable {url : Url} {r : Request} {token project : String} {reply : Reply} {status : Nat}

theorem trace_login (f : Site) (credentials : Credentials)
    (hurl : Url.parse? (c.baseUrl ++ "/v1/auth/login/") = some url) :
    ∃ body, f.trace (c.perform (.login credentials)) = [⟨.send url ⟨"POST", url.target,
      [("content-type", "application/json")], body⟩ c.timeout, f url.path⟩] := by
  rw [perform, login_of_sendable hurl]
  exact ⟨_, rfl⟩

theorem trace_tryNotes (f : Site) (htoken : c.token = some token)
    (hsend : Net.sendable ("Bearer " ++ token) = true)
    (hurl : Url.parse? (c.baseUrl ++ ("/v1/projects/" ++ project ++ "/notes/")) = some url) :
    f.trace (c.perform (.tryNotes project)) =
      [⟨.send url ⟨"GET", url.target, bearer token, []⟩ c.timeout, f url.path⟩] := by
  rw [perform, tryNotes, get_of_sendable htoken hsend hurl]
  rfl

/-- A request that is sent elsewhere once. -/
theorem traces_deliver_of_redirect (there : Url) (hstatus : status ∈ Delivery.redirects) :
    Traces (plainLibrary.deliver url r)
      [⟨plainLibrary.sent [] url (plainLibrary.prepare url r), .ok ⟨⟨status, []⟩, some there⟩⟩,
        ⟨plainLibrary.sent [url] there ((plainLibrary.prepare url r).redirected status there),
          .ok ⟨reply, none⟩⟩] (.ok reply) := by
  have hnext : Delivery.Answer.next? ⟨⟨status, []⟩, some there⟩ = some there := if_pos hstatus
  have hlast : Delivery.Answer.next? ⟨reply, none⟩ = none := ite_self none
  refine traces_call.mpr ⟨.ok ⟨⟨status, []⟩, some there⟩, _, rfl, ?_⟩
  change Traces (Delivery.settle _ _) _ _
  rw [Delivery.settle]
  simp only [hnext]
  refine traces_call.mpr ⟨.ok ⟨reply, none⟩, _, rfl, ?_⟩
  change Traces (Delivery.settle _ _) _ _
  rw [Delivery.settle]
  simp only [hlast]
  exact traces_done.mpr ⟨rfl, rfl⟩

end Asked

/-- **A redirect may fetch without the token,** also where there is none: in place of a login that
is sent elsewhere, and on another host. And the blanks behind a token do not arrive. -/
theorem not_always_tells :
    let away : Site := fun _ => .ok ⟨404, []⟩
    let bare : RemoteClient := ⟨"http://notes", 100, none⟩
    ¬ AlwaysTells plainLibrary bare (bare.visitsAt [(.login ⟨"me", "right"⟩, away)]) ∧
      ¬ AlwaysTells plainLibrary (bare.withToken "a")
        ((bare.withToken "a").visitsAt [(.tryNotes "n", away)]) ∧
      ¬ AlwaysTells plainLibrary (bare.withToken "a ")
        ((bare.withToken "a ").visitsAt [(.tryNotes "n", away)]) := by
  intro away bare
  have hlogin : Url.parse? (bare.baseUrl ++ "/v1/auth/login/") =
      some (plainUrl "notes" "/v1/auth/login/") := by decide +kernel
  have hnotes : Url.parse? (bare.baseUrl ++ ("/v1/projects/" ++ "n" ++ "/notes/")) =
      some (plainUrl "notes" "/v1/projects/n/notes/") := by decide +kernel
  have hevents (c : RemoteClient) (use : Use) (huse : use.events = []) {x : Exchange Net.interface}
      (hx : away.trace (c.perform use) = [x]) :
      Visit.events ⟨use, away.trace (c.perform use), (away.ask (c.perform use)).1⟩ =
        [.exchanged x] := by
    rw [Visit.events, hx, huse]
    rfl
  have hstatus : 303 ∈ Delivery.redirects := by decide
  refine ⟨?_, ?_, ?_⟩
  · obtain ⟨body, htrace⟩ := trace_login away ⟨"me", "right"⟩ hlogin
    refine not_alwaysTells (hevents bare _ rfl htrace)
      (traces_deliver_of_redirect (plainUrl "notes" "/") hstatus)
      (List.mem_cons_of_mem _ List.mem_cons_self) rfl ?_
    rintro token ⟨⟩
  · have htrace : away.trace ((bare.withToken "a").perform (.tryNotes "n")) = _ :=
      trace_tryNotes away rfl (by decide) hnotes
    refine not_alwaysTells (hevents _ _ rfl htrace)
      (traces_deliver_of_redirect (plainUrl "other" "/") hstatus)
      (List.mem_cons_of_mem _ List.mem_cons_self) rfl ?_
    intro token _
    -- it tells of no one
    change [] ≠ _
    exact (List.cons_ne_nil _ _).symm
  · have htrace : away.trace ((bare.withToken "a ").perform (.tryNotes "n")) = _ :=
      trace_tryNotes away rfl (by decide) hnotes
    refine not_alwaysTells (hevents _ _ rfl htrace)
      (Library.traces_deliver_of_end (a := .ok ⟨⟨404, []⟩, none⟩) fun _ => rfl)
      List.mem_cons_self rfl ?_
    rintro token ⟨⟩
    decide

end RemoteClient

end MarkdownIndex
