import Mathlib.Data.List.Forall2
import Mathlib.Data.List.OfFn
import MarkdownIndex.Proofs.Remote.Request

/-!
# Sites: fetching from a service whose replies depend on the path alone

There are three ways to the projects of an account, and they differ in what becomes of notes that
cannot be fetched. Against a service that answers the same to the same path, all of them tell the
same story.

* `Site`, `Site.ask`, `Site.trace` — such a service, what a program comes to that asks it, and what
  it asks; `eq_ask_of_traces` — nothing else can come of the program, also if others ask at the same
  time.
* `mapM_eq_ok`, `mapM_eq_error` — either all of a list succeed, or the first failure is that of all.
* `ask_get_congr`, `ask_get_of_agree` — what is fetched depends on the reply at its path, and not on
  the token, as long as there is one that can be sent.
* `ask_notesOf` — notes are fetched for every project, whatever becomes of the others;
  `ask_notesOf_of_alongside` — one after the other or side by side.
* `ask_projects_of_ok`, `ask_tryProjects_of_ok`, `ask_account` — the three ways to the projects.
* `Concordant`, `concordant` — **the strict and the lenient way agree.**
-/

namespace MarkdownIndex

open Program

/-! ## Sites -/

/-- A service whose reply depends on nothing but the path that is asked for: for each path a reply,
or the way in which the request gets lost. -/
def Site : Type := List Char → Except Net.Loss Http.Reply

namespace Site

variable {f g : Site} {α β : Type}

/-- What a site answers. -/
def answer (f : Site) : (c : Net.Call) → Net.Reply c
  | .send url _ _ => f url.path
  | .pause _ => ()

/-- A site as surroundings, which nothing changes. -/
def surroundings (f : Site) : Surroundings Net.interface Unit :=
  fun _ c r _ => r = f.answer c

/-- What a program comes to that asks a site. -/
def ask (f : Site) : Net α → α
  | .done a => a
  | .call c next => f.ask (next (f.answer c))

@[simp] theorem ask_pure (a : α) : f.ask (pure a) = a := rfl

theorem ask_bind (p : Net α) (k : α → Net β) : f.ask (p >>= k) = f.ask (k (f.ask p)) := by
  induction p with
  | done a => rfl
  | call c next ih => exact ih (f.answer c)

/-- What a program asks a site, and what it is answered. -/
def trace (f : Site) : Net α → List (Exchange Net.interface)
  | .done _ => []
  | .call c next => ⟨c, f.answer c⟩ :: f.trace (next (f.answer c))

theorem traces_ask (f : Site) (p : Net α) : Traces p (f.trace p) (f.ask p) := by
  induction p with
  | done a => exact traces_done.mpr ⟨rfl, rfl⟩
  | call c next ih => exact traces_call.mpr ⟨_, _, rfl, ih (f.answer c)⟩

/-- A program that is answered as a site does comes to what it comes to there. -/
theorem eq_ask_of_traces {p : Net α} {t : List (Exchange Net.interface)} {a : α}
    (h : Traces p t a) (ht : ∀ x ∈ t, x.reply = f.answer x.call) : a = f.ask p := by
  induction p generalizing t with
  | done b =>
    obtain ⟨rfl, -⟩ := traces_done.mp h
    rfl
  | call c next ih =>
    obtain ⟨r, u, rfl, hu⟩ := traces_call.mp h
    obtain rfl : r = f.answer c := ht _ List.mem_cons_self
    exact ih _ hu fun x hx => ht x (List.mem_cons_of_mem _ hx)

/-- Whatever a site is asked in the course of time, it answers as ever. -/
theorem reply_of_gives {t : List (Exchange Net.interface)} {s s' : Unit}
    (h : Gives f.surroundings s t s') : ∀ x ∈ t, x.reply = f.answer x.call := by
  induction h with
  | nil => exact fun x hx => absurd hx List.not_mem_nil
  | cons h _ ih => exact List.forall_mem_cons.mpr ⟨h, ih⟩

end Site

/-! ## Failures in a list -/

section Failures

variable {ε α β : Type} {h : α → Except ε β}

theorem mapM_eq_ok {k : α → β} {as : List α} (hall : ∀ a ∈ as, h a = .ok (k a)) :
    as.mapM h = .ok (as.map k) := by
  induction as with
  | nil => rfl
  | cons a as ih =>
    have hrest := ih fun b hb => hall b (List.mem_cons_of_mem a hb)
    rw [List.mapM_cons, hall a List.mem_cons_self, hrest]
    rfl

/-- **The first failure of a list is that of all.** -/
theorem mapM_eq_error {us vs : List α} {a : α} {e : ε} (hus : ∀ b ∈ us, ∃ y, h b = .ok y)
    (ha : h a = .error e) : (us ++ a :: vs).mapM h = .error e := by
  induction us with
  | nil =>
    rw [List.nil_append, List.mapM_cons, ha]
    rfl
  | cons b us ih =>
    obtain ⟨y, hy⟩ := hus b List.mem_cons_self
    rw [List.cons_append, List.mapM_cons, hy, ih fun c hc => hus c (List.mem_cons_of_mem b hc)]
    rfl

end Failures

/-! ## What a client fetches -/

namespace RemoteClient

open Http

variable {f g : Site} {c c' : RemoteClient} {d : Json.Decoder α} {path : String}

/-- The path that a client asks for, with that of its service. -/
def sentPath? (c : RemoteClient) (path : String) : Option (List Char) :=
  (Url.parse? (c.baseUrl ++ path)).map Url.path

/-- The path of the list of projects. -/
def listPath? (c : RemoteClient) : Option (List Char) := c.sentPath? "/v1/projects/"

/-- The path of the notes of a project. -/
def notesPath? (c : RemoteClient) (project : String) : Option (List Char) :=
  c.sentPath? ("/v1/projects/" ++ project ++ "/notes/")

/-- What has been fetched has been asked for with a token. -/
theorem carries_of_ask_get {a : α} (h : f.ask (c.get d path) = .ok a) : c.Carries := by
  cases htoken : c.token with
  | none =>
    rw [get_of_none htoken] at h
    cases h
  | some token =>
    by_cases hsend : Net.sendable ("Bearer " ++ token) = true
    · exact ⟨token, htoken, hsend⟩
    · rw [get_of_unsendable htoken (Or.inr (Bool.eq_false_iff.mpr hsend))] at h
      cases h

/-- **One token is as good as another,** as long as it can be sent. -/
theorem ask_get_congr (hc : c.Carries) (hc' : c'.Carries) (hbase : c'.baseUrl = c.baseUrl) :
    f.ask (c'.get d path) = f.ask (c.get d path) := by
  obtain ⟨token, htoken, hsend⟩ := hc
  obtain ⟨token', htoken', hsend'⟩ := hc'
  cases hurl : Url.parse? (c.baseUrl ++ path) with
  | none =>
    rw [get_of_unsendable htoken (Or.inl hurl), get_of_unsendable htoken' (Or.inl (hbase ▸ hurl))]
  | some url =>
    rw [get_of_sendable htoken hsend hurl, get_of_sendable htoken' hsend' (hbase ▸ hurl)]
    rfl

/-- **What is fetched depends on the reply at its own path.** -/
theorem ask_get_of_agree (h : ∀ q, c.sentPath? path = some q → g q = f q) :
    g.ask (c.get d path) = f.ask (c.get d path) := by
  cases htoken : c.token with
  | none => rw [get_of_none htoken, Site.ask_pure, Site.ask_pure]
  | some token =>
    by_cases hsend : Net.sendable ("Bearer " ++ token) = true
    · cases hurl : Url.parse? (c.baseUrl ++ path) with
      | none => rw [get_of_unsendable htoken (Or.inl hurl), Site.ask_pure, Site.ask_pure]
      | some url =>
        have hreply : g url.path = f url.path := h url.path (by simp [sentPath?, hurl])
        rw [get_of_sendable htoken hsend hurl]
        simp only [Site.ask, Site.answer, hreply]
    · rw [get_of_unsendable htoken (Or.inr (Bool.eq_false_iff.mpr hsend)), Site.ask_pure,
        Site.ask_pure]

/-- **Notes are fetched for every project,** whatever becomes of the others. -/
theorem ask_notesOf (f : Site) (c : RemoteClient) (ss : List ProjectSummary) :
    f.ask (c.notesOf ss) = ss.map fun s => (s, f.ask (c.tryNotes s.id)) := by
  induction ss with
  | nil => rfl
  | cons s ss ih =>
    rw [notesOf, Site.ask_bind, Site.ask_bind, ih]
    rfl

/-! ## Three ways to the projects -/

/-- A project with the notes that can be fetched. -/
def fetched (f : Site) (c : RemoteClient) (s : ProjectSummary) : Project :=
  ⟨s.id, s.title, (f.ask (c.tryNotes s.id)).toOption.getD []⟩

theorem ask_projects_of_error {e : RemoteError} (h : f.ask c.summaries = .error e) :
    f.ask c.projects = [] := by
  rw [projects, Site.ask_bind, h]
  rfl

theorem ask_projects_of_ok {ss : List ProjectSummary} (h : f.ask c.summaries = .ok ss) :
    f.ask c.projects = ss.map (fetched f c) := by
  rw [projects, Site.ask_bind, h]
  simp only [Site.ask_bind, ask_notesOf, Site.ask_pure, List.map_map]
  rfl

theorem ask_tryProjects_of_error {e : RemoteError} (h : f.ask c.summaries = .error e) :
    f.ask c.tryProjects = .error e := by
  rw [tryProjects, Site.ask_bind, h]
  rfl

theorem ask_tryProjects_of_ok {ss : List ProjectSummary} (h : f.ask c.summaries = .ok ss) :
    f.ask c.tryProjects = ss.mapM fun s =>
      (f.ask (c.tryNotes s.id)).map (Project.mk s.id s.title) := by
  rw [tryProjects, Site.ask_bind, h]
  simp only [Site.ask_bind, ask_notesOf, Site.ask_pure, List.mapM_map]
  rfl

/-- The projects of an account are those of the client that has been logged in. -/
theorem ask_account (f : Site) (c : RemoteClient) (credentials : Credentials) :
    f.ask (c.account credentials) =
      match f.ask (c.login credentials) with
      | (.error e, c') => (.error e, c')
      | (.ok email, c') => ((f.ask c'.summaries).map fun _ => ⟨email, f.ask c'.projects⟩, c') := by
  rw [account, Site.ask_bind]
  rcases f.ask (c.login credentials) with ⟨e | email, c'⟩
  · rfl
  · cases h : f.ask c'.summaries with
    | error e =>
      simp only [Site.ask_bind, h]
      rfl
    | ok ss =>
      simp only [Site.ask_bind, h, ask_notesOf, Site.ask_pure, Except.map, ask_projects_of_ok h,
        List.map_map]
      rfl

/-- Logging in changes nothing but the token. -/
theorem baseUrl_ask_login (f : Site) (c : RemoteClient) (credentials : Credentials) :
    (f.ask (c.login credentials)).2.baseUrl = c.baseUrl := by
  rw [login, Site.ask_bind]
  split
  · rfl
  · split <;> rfl

/-- **A login that succeeds does not change the projects,** if both tokens can be sent. -/
theorem ask_projects_of_login {credentials : Credentials} {email : String}
    (hlogin : f.ask (c.login credentials) = (.ok email, c')) (hc : c.Carries) (hc' : c'.Carries) :
    f.ask c'.projects = f.ask c.projects := by
  have hbase : c'.baseUrl = c.baseUrl := by
    have h := baseUrl_ask_login f c credentials
    rwa [hlogin] at h
  have hlist : f.ask c'.summaries = f.ask c.summaries := ask_get_congr hc hc' hbase
  have hnotes (s : ProjectSummary) : fetched f c' s = fetched f c s := by
    simp only [fetched, tryNotes, ask_get_congr hc hc' hbase]
  cases h : f.ask c.summaries with
  | error e => rw [ask_projects_of_error h, ask_projects_of_error (hlist.trans h)]
  | ok ss =>
    rw [ask_projects_of_ok h, ask_projects_of_ok (hlist.trans h)]
    exact List.map_congr_left fun s _ => hnotes s

/-- **Another reply for some notes changes these notes only.** -/
theorem forall₂_ask_projects {changed : List Char}
    (h : ∀ q, q ≠ changed ∨ c.listPath? = some q → g q = f q) :
    List.Forall₂ (fun p q => p.id = q.id ∧ p.title = q.title ∧
      (c.notesPath? p.id ≠ some changed → p.notes = q.notes)) (f.ask c.projects)
      (g.ask c.projects) := by
  have hlist : g.ask c.summaries = f.ask c.summaries :=
    ask_get_of_agree fun q hq => h q (Or.inr hq)
  cases hs : f.ask c.summaries with
  | error e =>
    rw [ask_projects_of_error hs, ask_projects_of_error (hlist.trans hs)]
    exact List.Forall₂.nil
  | ok ss =>
    rw [ask_projects_of_ok hs, ask_projects_of_ok (hlist.trans hs), List.forall₂_map_left_iff,
      List.forall₂_map_right_iff, List.forall₂_same]
    intro s _
    refine ⟨rfl, rfl, fun hpath => ?_⟩
    have hnotes : g.ask (c.tryNotes s.id) = f.ask (c.tryNotes s.id) := by
      refine ask_get_of_agree fun q hq => h q (Or.inl ?_)
      rintro rfl
      exact hpath hq
    simp only [fetched, hnotes]

/-- **Notes that are fetched side by side are those that are fetched one after the other,** in
whatever order the replies come. -/
theorem ask_notesOf_of_alongside {ss : List ProjectSummary}
    {ts : List (Fin ss.length × Exchange Net.interface)}
    {as : Fin ss.length → Except RemoteError (List Note)}
    (h : Alongside f.surroundings (fun i => c.tryNotes (ss.get i).id) () ts as ()) :
    f.ask (c.notesOf ss) = List.ofFn fun i => (ss.get i, as i) := by
  obtain ⟨htraces, hgives⟩ := alongside_iff.mp h
  have has (i : Fin ss.length) : as i = f.ask (c.tryNotes (ss.get i).id) := by
    apply Site.eq_ask_of_traces (htraces i)
    intro x hx
    exact Site.reply_of_gives hgives x (List.mem_map.mpr ⟨(i, x), mem_own.mp hx, rfl⟩)
  rw [ask_notesOf, funext has]
  conv_lhs => rw [← List.ofFn_get ss, List.map_ofFn]
  rfl

/-! ## How they agree -/

/-- What the strict and the lenient way to the projects have to do with each other at a site. -/
structure Concordant (f : Site) (c : RemoteClient) : Prop where
  /-- without a token nothing is listed -/
  list_without_token : c.token = none → f.ask c.summaries = .error .notAuthenticated
  /-- without a list the strict way has its error, and the lenient way has no projects -/
  of_no_list : ∀ e, f.ask c.summaries = .error e →
    f.ask c.tryProjects = .error e ∧ f.ask c.projects = []
  /-- else the lenient way has every project of the list, in its order, with the notes that can be
  fetched -/
  of_list : ∀ ss, f.ask c.summaries = .ok ss → f.ask c.projects = ss.map (fetched f c)
  /-- the strict way has the same projects, if all notes can be fetched -/
  of_all_notes : ∀ ss, f.ask c.summaries = .ok ss →
    (∀ s ∈ ss, ∃ notes, f.ask (c.tryNotes s.id) = .ok notes) →
    f.ask c.tryProjects = .ok (f.ask c.projects)
  /-- or the error of the first project whose notes cannot be fetched -/
  of_first_failure : ∀ us s vs e, f.ask c.summaries = .ok (us ++ s :: vs) →
    (∀ u ∈ us, ∃ notes, f.ask (c.tryNotes u.id) = .ok notes) →
    f.ask (c.tryNotes s.id) = .error e → f.ask c.tryProjects = .error e
  /-- an account has the error of its login -/
  of_no_login : ∀ credentials e c', f.ask (c.login credentials) = (.error e, c') →
    f.ask (c.account credentials) = (.error e, c')
  /-- or of the list, and else the projects of the lenient way -/
  of_login : ∀ credentials email c', f.ask (c.login credentials) = (.ok email, c') →
    f.ask (c.account credentials) =
      ((f.ask c'.summaries).map fun _ => ⟨email, f.ask c'.projects⟩, c')
  /-- these are the projects that were there before the login, if the new token can be sent -/
  of_list_of_login : ∀ ss credentials email c', f.ask c.summaries = .ok ss →
    f.ask (c.login credentials) = (.ok email, c') → c'.Carries →
    f.ask (c.account credentials) = (.ok ⟨email, f.ask c.projects⟩, c')
  /-- another reply for some notes, where these are not asked for by the path of the list, changes
  the notes of the projects with that path -/
  of_changed_notes : ∀ (g : Site) (changed : List Char),
    (∀ q, q ≠ changed ∨ c.listPath? = some q → g q = f q) →
    List.Forall₂ (fun p q => p.id = q.id ∧ p.title = q.title ∧
      (c.notesPath? p.id ≠ some changed → p.notes = q.notes)) (f.ask c.projects) (g.ask c.projects)
  /-- the notes may be fetched side by side -/
  of_alongside : ∀ (ss : List ProjectSummary) (ts : List (Fin ss.length × Exchange Net.interface))
    (as : Fin ss.length → Except RemoteError (List Note)),
    Alongside f.surroundings (fun i => c.tryNotes (ss.get i).id) () ts as () →
    f.ask (c.notesOf ss) = List.ofFn fun i => (ss.get i, as i)

/-- **The strict and the lenient way to the projects agree,** at every site and for every client. -/
theorem concordant (f : Site) (c : RemoteClient) : Concordant f c where
  list_without_token h := by rw [summaries, get_of_none h, Site.ask_pure]
  of_no_list _ h := ⟨ask_tryProjects_of_error h, ask_projects_of_error h⟩
  of_list _ h := ask_projects_of_ok h
  of_all_notes ss h hall := by
    rw [ask_tryProjects_of_ok h, ask_projects_of_ok h]
    apply mapM_eq_ok
    intro s hs
    obtain ⟨notes, hnotes⟩ := hall s hs
    rw [fetched, hnotes]
    rfl
  of_first_failure us s vs e h hall hs := by
    rw [ask_tryProjects_of_ok h]
    apply mapM_eq_error
    · intro u hu
      obtain ⟨notes, hnotes⟩ := hall u hu
      exact ⟨_, by rw [hnotes]; rfl⟩
    · rw [hs]
      rfl
  of_no_login credentials e c' h := by rw [ask_account, h]
  of_login credentials email c' h := by rw [ask_account, h]
  of_list_of_login ss credentials email c' hss h hc' := by
    have hc : c.Carries := carries_of_ask_get hss
    have hbase : c'.baseUrl = c.baseUrl := by
      have hkept := baseUrl_ask_login f c credentials
      rwa [h] at hkept
    have hlist : f.ask c'.summaries = .ok ss := (ask_get_congr hc hc' hbase).trans hss
    rw [ask_account, h]
    simp only [hlist, ask_projects_of_login h hc hc']
    rfl
  of_changed_notes _ _ h := forall₂_ask_projects h
  of_alongside _ _ _ h := ask_notesOf_of_alongside h

/-- A reply with some items. -/
def sampleReply (items : List Json) : Http.Reply :=
  ⟨200, Text.encode (Json.object [("items", .array items)]).compactChars⟩

/-- Two projects. The notes of the first do not come in time. -/
def sampleSite : Site := fun path =>
  if path = "/v1/projects/".toList then
    .ok (sampleReply [.object [("id", .string "a")],
      .object [("id", .string "b"), ("title", .string "B")]])
  else if path = "/v1/projects/b/notes/".toList then
    .ok (sampleReply [.object [("id", .string "n")]])
  else .error .timedOut

example :
    let c : RemoteClient := ⟨"http://notes", 100, some "token"⟩
    sampleSite.ask c.projects = [⟨"a", "", []⟩, ⟨"b", "B", [⟨"n", "", none⟩]⟩] ∧
      sampleSite.ask c.tryProjects = .error .timeout := by
  constructor <;> decide +kernel

end RemoteClient

end MarkdownIndex
