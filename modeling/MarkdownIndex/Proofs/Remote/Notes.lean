import Mathlib.Data.List.Flatten
import MarkdownIndex.Proofs.Http.Url
import MarkdownIndex.Proofs.Remote.Request

/-!
# Notes: the address at which those of a project are asked for

The key of a project is put into an address as it is. So its notes are asked for at their own
address if nothing in the key means something there, and at another one if anything does.

* `AddressesNotes` — an address is that of the notes of a project.
* `Clear` — nothing in a key means something in an address.
* `segments_of_clear`, `of_mem_segments` — what the address is made of.
* `clear_of_path_eq`, `exists_path_eq` — whether its path is that of the notes.
* `addressesNotes_iff` — whether the address is the right one.
* `tryNotes_address` — **what is asked for, and whether it is the notes of the project.**
-/

namespace MarkdownIndex.RemoteClient

open Http Program Text Url

variable {base : Url} {id s p : List Char}

/-! ## Addresses of notes -/

/-- What stands before a key. -/
def beforeKey : List Char := "v1/projects/".toList

/-- What stands behind it. -/
def behindKey : List Char := "/notes/".toList

/-- What stands behind the slash of the service. -/
def notesText (id : List Char) : List Char := beforeKey ++ id ++ behindKey

/-- An address is that of the notes of a project: below the path of the service stand the segments
of notes, the key is what the one between them reads as, and there is no query. -/
def AddressesNotes (base url : Url) (id : List Char) : Prop :=
  url.query = none ∧ ∃ s, '/' ∉ s ∧ percentDecode (encode s) = encode id ∧
    url.path = base.path ++ notesText s

/-- Nothing in a key means something in an address: it is no dot segment, it has no character that
ends a segment or the path or is left out, and it reads as it is written. -/
structure Clear (id : List Char) : Prop where
  /-- it is not the directory itself -/
  ne_dot : id ≠ ['.']
  /-- nor the one above -/
  ne_dots : id ≠ ['.', '.']
  /-- all of it is kept in one segment -/
  whole : ∀ c ∈ id, c ∉ "/\\?#\t\n\r".toList
  /-- no percent form is in it -/
  reads : percentDecode (encode id) = encode id

theorem clear_nil : Clear [] :=
  ⟨by decide, by decide, fun c hc => absurd hc List.not_mem_nil, rfl⟩

theorem whole_iff (c : Char) : c ∉ "/\\?#\t\n\r".toList ↔
    parts c = false ∧ endsPath c = false ∧ counts c = true := by
  simp [parts, endsPath, counts, and_assoc]

theorem notesText_eq (id : List Char) : notesText id = beforeKey ++ (id ++ behindKey) :=
  List.append_assoc _ _ _

theorem closed_notesText (id : List Char) : Closed (notesText id) := by
  have hlast : behindKey.getLast? = some '/' := by decide
  intro c hc
  rw [notesText, List.getLast?_append, hlast, Option.some_or] at hc
  exact (Option.mem_some_iff.mp hc).symm

theorem filter_counts_notesText (id : List Char) :
    (notesText id).filter counts = beforeKey ++ (id.filter counts ++ behindKey) := by
  have hbefore : beforeKey.filter counts = beforeKey := by decide
  have hbehind : behindKey.filter counts = behindKey := by decide
  rw [notesText_eq, List.filter_append, List.filter_append, hbefore, hbehind]

theorem endsPath_of_mem_beforeKey : ∀ c ∈ beforeKey, endsPath c = false := fun c hc =>
  (Bool.not_eq_true' _).mp (List.all_eq_true.mp (by decide : beforeKey.all (!endsPath ·)) c hc)

theorem endsPath_of_mem_behindKey : ∀ c ∈ behindKey, endsPath c = false := fun c hc =>
  (Bool.not_eq_true' _).mp (List.all_eq_true.mp (by decide : behindKey.all (!endsPath ·)) c hc)

/-! ## The segments of an address -/

/-- The segments below the service that an address for the notes of a project has. -/
def segments (id : List Char) : List (List Char) :=
  splitAtClass parts (cutPath ((notesText id).filter counts))

/-- The segments before a key. -/
def segmentsBefore : List (List Char) := ["v1".toList, "projects".toList]

/-- The segments behind it. -/
def segmentsBehind : List (List Char) := ["notes".toList, []]

theorem splitAtClass_beforeKey (cs : List Char) :
    splitAtClass parts (beforeKey ++ cs) = segmentsBefore ++ splitAtClass parts cs := by
  have hkey : beforeKey = "v1/projects".toList ++ ['/'] := by decide
  have hbefore : splitAtClass parts "v1/projects".toList = segmentsBefore := by decide
  rw [hkey, List.append_assoc, List.singleton_append, splitAtClass_append_cons _ (by decide),
    hbefore]

theorem splitAtClass_behindKey (cs : List Char) :
    splitAtClass parts (cs ++ behindKey) = splitAtClass parts cs ++ segmentsBehind := by
  have hkey : behindKey = '/' :: "notes/".toList := by decide
  have hbehind : splitAtClass parts "notes/".toList = segmentsBehind := by decide
  rw [hkey, splitAtClass_append_cons cs (by decide), hbehind]

/-- The fixed segments come first. -/
theorem segments_eq (id : List Char) : segments id =
    segmentsBefore ++ splitAtClass parts (cutPath (id.filter counts ++ behindKey)) := by
  rw [segments, filter_counts_notesText, cutPath_append endsPath_of_mem_beforeKey,
    splitAtClass_beforeKey]

/-- A key that means nothing in an address is one of its segments. -/
theorem segments_of_clear (h : Clear id) :
    segments id = segmentsBefore ++ id :: segmentsBehind := by
  have hwhole := fun c hc => (whole_iff c).mp (h.whole c hc)
  have hcounts : id.filter counts = id := List.filter_eq_self.mpr fun c hc => (hwhole c hc).2.2
  have hends : ∀ c ∈ id ++ behindKey, endsPath c = false :=
    List.forall_mem_append.mpr ⟨fun c hc => (hwhole c hc).2.1, endsPath_of_mem_behindKey⟩
  rw [segments_eq, hcounts, cutPath_of_bare hends, splitAtClass_behindKey,
    splitAtClass_of_solid fun c hc => (hwhole c hc).1]
  rfl

/-- The segments are the fixed ones and pieces of the key. -/
theorem of_mem_segments (hp : p ∈ segments id) :
    p ∈ segmentsBefore ++ segmentsBehind ∨ p.Sublist id := by
  have hkey : (id.filter counts).Sublist id := List.filter_sublist
  rw [segments_eq, List.mem_append] at hp
  rcases hp with hp | hp
  · exact Or.inl (List.mem_append_left _ hp)
  · by_cases hends : ∃ c ∈ id.filter counts, endsPath c = true
    · -- nothing behind the end of the path comes into it
      obtain ⟨c, hc, hend⟩ := hends
      rw [cutPath_append_of_endsPath hc hend] at hp
      exact Or.inr (((of_mem_splitAtClass hp).1.trans (cutPath_sublist _)).trans hkey)
    · have hbare : ∀ c ∈ id.filter counts ++ behindKey, endsPath c = false :=
        List.forall_mem_append.mpr ⟨fun c hc => Bool.eq_false_iff.mpr fun hend =>
          hends ⟨c, hc, hend⟩, endsPath_of_mem_behindKey⟩
      rw [cutPath_of_bare hbare, splitAtClass_behindKey, List.mem_append] at hp
      rcases hp with hp | hp
      · exact Or.inr ((of_mem_splitAtClass hp).1.trans hkey)
      · exact Or.inl (List.mem_append_right _ hp)

/-- A piece of a text that reads as the text is the text. -/
theorem eq_of_sublist (h : p.Sublist id) (hreads : percentDecode (encode p) = encode id) :
    p = id := by
  have hbytes : (encode p).Sublist (encode id) := h.flatMap encodeChar
  have hlength : (encode id).length ≤ (encode p).length := by
    rw [← hreads]
    exact length_percentDecode_le _
  exact encode_injective (hbytes.eq_of_length_le hlength)

/-- A key that one of the segments reads as means nothing in an address, and is the segment. -/
theorem clear_of_mem_segments (hp : p ∈ segments id) (hname : isName p = true)
    (hreads : percentDecode (encode p) = encode id) : Clear id := by
  have hfixed : ∀ q ∈ segmentsBefore ++ segmentsBehind,
      percentDecode (encode q) = encode q := by decide
  obtain rfl : p = id := by
    rcases of_mem_segments hp with hmem | hsub
    · exact encode_injective ((hfixed p hmem).symm.trans hreads)
    · exact eq_of_sublist hsub hreads
  obtain ⟨hsub, hparts⟩ := of_mem_splitAtClass hp
  refine ⟨?_, ?_, fun c hc => (whole_iff c).mpr ⟨hparts c hc, ?_, ?_⟩, hreads⟩
  · rintro rfl
    cases hname
  · rintro rfl
    cases hname
  · exact endsPath_of_mem_cutPath (hsub.subset hc)
  · exact (List.mem_filter.mp ((cutPath_sublist _).subset (hsub.subset hc))).2

/-! ## Where notes are asked for -/

/-- What stands before a list is in whatever stands before a part of it. -/
theorem mem_of_append_eq {α : Type} {xs as ds : List α} {k : Nat}
    (h : xs ++ ds.drop k = as ++ ds) {a : α} (ha : a ∈ as) : a ∈ xs := by
  have hlength := congrArg List.length h
  rw [List.length_append, List.length_append, List.length_drop] at hlength
  have hprefix : as <+: xs := List.prefix_of_prefix_length_le (List.prefix_append as ds)
    (h ▸ List.prefix_append xs (ds.drop k)) (by omega)
  exact hprefix.subset ha

/-- Segments that have been resolved, as a path: the latest one stands last. -/
theorem joinPath_segments (done : List (List Char)) (s : List Char) :
    joinPath done.reverse ++ ['/'] ++ notesText s =
      joinPath ((segmentsBefore ++ s :: segmentsBehind).reverse ++ done).reverse := by
  have hnotes : joinPath (segmentsBefore ++ s :: segmentsBehind) = '/' :: notesText s := by
    have hbefore : joinPath segmentsBefore ++ ['/'] = '/' :: beforeKey := by decide
    have hbehind : joinPath segmentsBehind = behindKey := by decide
    have hkey : joinPath (s :: segmentsBehind) = ['/'] ++ (s ++ joinPath segmentsBehind) := rfl
    rw [joinPath_append, hkey, ← List.append_assoc, hbefore, hbehind, notesText_eq]
    rfl
  rw [List.reverse_append, List.reverse_reverse, joinPath_append, hnotes, List.append_assoc]
  rfl

section Segments

variable {done : List (List Char)}

/-- If resolved segments are those of notes, the key means nothing in an address. -/
theorem clear_of_path_eq (hdone : ∀ s ∈ done, '/' ∉ s) (hs : '/' ∉ s)
    (hreads : percentDecode (encode s) = encode id)
    (hpath : joinPath (resolveSegments done (segments id)).reverse =
      joinPath done.reverse ++ ['/'] ++ notesText s) : Clear id := by
  have hsegments : ∀ t ∈ segments id, '/' ∉ t := fun t ht hslash =>
    absurd ((of_mem_splitAtClass ht).2 '/' hslash) (by decide)
  have hfixed : (∀ t ∈ segmentsBefore, '/' ∉ t) ∧ ∀ t ∈ segmentsBehind, '/' ∉ t := by decide
  have hresolved : resolveSegments done (segments id) =
      (segmentsBefore ++ s :: segmentsBehind).reverse ++ done := by
    have hsame := hpath.trans (joinPath_segments done s)
    refine List.reverse_injective (joinPath_injective ?_ ?_ hsame)
    · simp only [List.mem_reverse]
      exact slash_not_mem_resolveSegments hdone hsegments
    · simp only [List.mem_reverse, List.forall_mem_append, List.forall_mem_cons]
      exact ⟨⟨hfixed.1, hs, hfixed.2⟩, hdone⟩
  -- the segment of the key cannot be one that was there before
  obtain ⟨xs, k, hxs, hfrom⟩ := resolveSegments_eq_append done (segments id)
  have hmem : s ∈ xs := mem_of_append_eq (hxs.symm.trans hresolved) (by simp)
  rcases hfrom s hmem with rfl | ⟨p, hp, hname, rfl⟩
  · obtain rfl : [] = id := encode_injective hreads
    exact clear_nil
  · rw [percentDecode_percentEncode] at hreads
    exact clear_of_mem_segments hp hname hreads

/-- And if it means nothing, they are. -/
theorem exists_path_eq (h : Clear id) (done : List (List Char)) :
    ∃ s, '/' ∉ s ∧ percentDecode (encode s) = encode id ∧
      joinPath (resolveSegments done (segments id)).reverse =
        joinPath done.reverse ++ ['/'] ++ notesText s := by
  have hfixed : ∀ s ∈ segmentsBefore ++ segmentsBehind, isName s = true := by decide
  have hnames : ∀ s ∈ segments id, isName s = true := by
    rw [segments_of_clear h]
    rw [List.forall_mem_append] at hfixed ⊢
    exact ⟨hfixed.1, List.forall_mem_cons.mpr ⟨isName_of_ne h.ne_dot h.ne_dots h.reads, hfixed.2⟩⟩
  have hslash : '/' ∉ id := fun hmem => h.whole '/' hmem (by decide)
  have hkept : segmentsBefore.map (percentEncode encodedInPath) = segmentsBefore ∧
      segmentsBehind.map (percentEncode encodedInPath) = segmentsBehind := by decide
  refine ⟨percentEncode encodedInPath id, slash_not_mem_percentEncode hslash,
    (percentDecode_percentEncode id).trans h.reads, ?_⟩
  rw [joinPath_segments, resolveSegments_of_isName hnames, segments_of_clear h, List.map_append,
    List.map_cons, hkept.1, hkept.2]

end Segments

section Services

variable {q : List Char}

/-- Below a service with neither query nor fragment the notes are where they are looked for if the
key means nothing in an address, and only then. -/
theorem addressesNotes_iff_clear (hbase : base = base.finish (q ++ ['/']))
    (hq : ∀ c ∈ q, endsPath c = false) :
    AddressesNotes base (base.finish (q ++ '/' :: (notesText id).filter counts)) id ↔
      Clear id := by
  obtain ⟨done, hdone, hpath⟩ := exists_below hq
  have hservice : base.path = joinPath done.reverse ++ ['/'] := by
    have hlast : resolveSegments done (splitAtClass parts (cutPath [])) = [] :: done := rfl
    rw [hbase, hpath, hlast, List.reverse_cons, joinPath_append]
    rfl
  have hnotes : (base.finish (q ++ '/' :: (notesText id).filter counts)).path =
      joinPath (resolveSegments done (segments id)).reverse := hpath _ _
  rw [AddressesNotes, hnotes, hservice]
  constructor
  · rintro ⟨-, s, hs, hreads, heq⟩
    exact clear_of_path_eq hdone hs hreads heq
  · intro h
    have hslash : endsPath '/' = false := by decide
    have hends : ∀ c ∈ q ++ '/' :: (notesText id).filter counts, endsPath c = false := by
      rw [List.forall_mem_append, List.forall_mem_cons, filter_counts_notesText,
        List.forall_mem_append, List.forall_mem_append]
      exact ⟨hq, hslash, endsPath_of_mem_beforeKey, fun c hc =>
        ((whole_iff c).mp (h.whole c (List.mem_of_mem_filter hc))).2.1, endsPath_of_mem_behindKey⟩
    exact ⟨(finish_bare_iff.mpr hends).1, exists_path_eq h done⟩

/-- With a query or a fragment all that is asked for is behind the path of the service. -/
theorem not_addressesNotes {c : Char} (hbase : base = base.finish (q ++ ['/'])) (hc : c ∈ q)
    (hend : endsPath c = true) :
    ¬AddressesNotes base (base.finish (q ++ '/' :: (notesText id).filter counts)) id := by
  rintro ⟨-, s, -, -, hpath⟩
  have hsame : (base.finish (q ++ '/' :: (notesText id).filter counts)).path = base.path := by
    conv_rhs => rw [hbase]
    rw [finish, finish, cutPath_append_of_endsPath hc hend, cutPath_append_of_endsPath hc hend]
  have hnil : notesText s = [] := List.self_eq_append_right.mp (hsame.symm.trans hpath)
  rw [notesText_eq] at hnil
  cases hnil

/-- **The notes of a project are at the address that is asked for** exactly if the service has
neither query nor fragment and the key means nothing in an address. -/
theorem addressesNotes_iff (hbase : base = base.finish (q ++ ['/'])) :
    AddressesNotes base (base.finish (q ++ '/' :: (notesText id).filter counts)) id ↔
      (base.query = none ∧ base.fragment = none) ∧ Clear id := by
  have hslash : endsPath '/' = false := by decide
  have hbare : (base.query = none ∧ base.fragment = none) ↔ ∀ c ∈ q, endsPath c = false := by
    rw [hbase, finish_bare_iff, List.forall_mem_append, List.forall_mem_singleton]
    exact and_iff_left hslash
  rw [hbare]
  by_cases hq : ∀ c ∈ q, endsPath c = false
  · rw [addressesNotes_iff_clear hbase hq, and_iff_right hq]
  · obtain ⟨c, hc, hend⟩ : ∃ c ∈ q, ¬endsPath c = false := by
      simpa only [not_forall, exists_prop] using hq
    exact iff_of_false (not_addressesNotes hbase hc ((Bool.not_eq_false _).mp hend))
      fun h => hq h.1

end Services

/-- Two projects whose notes are at one path are one. -/
theorem AddressesNotes.id_eq {url url' : Url} {id' : List Char} (h : AddressesNotes base url id)
    (h' : AddressesNotes base url' id') (hpath : url.path = url'.path) : id = id' := by
  obtain ⟨-, s, -, hreads, hs⟩ := h
  obtain ⟨-, s', -, hreads', hs'⟩ := h'
  have hnotes : notesText s = notesText s' :=
    List.append_cancel_left (hs.symm.trans (hpath.trans hs'))
  rw [notesText_eq, notesText_eq] at hnotes
  obtain rfl : s = s' := List.append_cancel_right (List.append_cancel_left hnotes)
  exact encode_injective (hreads.symm.trans hreads')

/-! ## What a client sends -/

variable {c : RemoteClient} {token : String}

/-- **What is asked for to get the notes of a project:** one request with the token, to the service
itself. It is for the notes of the project exactly if the key means nothing in an address, and such
keys have different paths. -/
theorem tryNotes_address (htoken : c.token = some token)
    (hsend : Net.sendable ("Bearer " ++ token) = true)
    (hbase : Url.parse? (c.baseUrl ++ "/") = some base) :
    ∃ address : String → Url,
      (∀ id t, (∃ r, Traces (c.tryNotes id) t r) ↔ ∃ reply, t =
        [⟨.send (address id) ⟨"GET", (address id).target, bearer token, []⟩ c.timeout, reply⟩]) ∧
      (∀ id, (address id).secure = base.secure ∧ (address id).user = base.user ∧
        (address id).host = base.host ∧ (address id).port = base.port) ∧
      (∀ id, AddressesNotes base (address id) id.toList ↔
        (base.query = none ∧ base.fragment = none) ∧ Clear id.toList) ∧
      ∀ id id', base.query = none ∧ base.fragment = none → Clear id.toList → Clear id'.toList →
        (address id).path = (address id').path → id = id' := by
  have hslash : c.baseUrl ++ "/" = String.ofList (c.baseUrl.toList ++ ['/']) :=
    String.toList_inj.mp (String.toList_append.trans String.toList_ofList.symm)
  rw [hslash] at hbase
  obtain ⟨q, hq, hlonger⟩ := parse?_append hbase
  have hnotes : ∀ id : String, AddressesNotes base
      (base.finish (q ++ '/' :: (notesText id.toList).filter counts)) id.toList ↔
        (base.query = none ∧ base.fragment = none) ∧ Clear id.toList :=
    fun id => addressesNotes_iff hq
  refine ⟨fun id => base.finish (q ++ '/' :: (notesText id.toList).filter counts),
    fun id t => ?_, fun id => ⟨rfl, rfl, rfl, rfl⟩, hnotes, fun id id' hbare h h' hpath => ?_⟩
  · have htext : c.baseUrl ++ ("/v1/projects/" ++ id ++ "/notes/") =
        String.ofList (c.baseUrl.toList ++ '/' :: notesText id.toList) := by
      refine String.toList_inj.mp ?_
      rw [String.toList_ofList, String.toList_append, String.toList_append, String.toList_append]
      rfl
    rw [tryNotes, get_of_sendable htoken hsend
      (htext ▸ hlonger (notesText id.toList) (closed_notesText id.toList))]
    constructor
    · rintro ⟨r, h⟩
      obtain ⟨reply, u, rfl, hu⟩ := traces_call.mp h
      obtain ⟨-, rfl⟩ := traces_done.mp hu
      exact ⟨reply, rfl⟩
    · rintro ⟨reply, rfl⟩
      exact ⟨_, traces_call.mpr ⟨reply, [], rfl, traces_done.mpr ⟨rfl, rfl⟩⟩⟩
  · exact String.toList_injective
      (((hnotes id).mpr ⟨hbare, h⟩).id_eq ((hnotes id').mpr ⟨hbare, h'⟩) hpath)

/-- A service below a path, and a key with a blank. -/
theorem tryNotes_address_blank : ∃ address : String → Url,
    (∀ t, (∃ r, Traces ((⟨"http://h/api", 0, some "t"⟩ : RemoteClient).tryNotes "p 1") t r) ↔
      ∃ reply, t = [⟨.send (address "p 1") ⟨"GET", (address "p 1").target, bearer "t", []⟩ 0,
        reply⟩]) ∧
      AddressesNotes ⟨false, [], "h".toList, none, "/api/".toList, none, none⟩ (address "p 1")
        "p 1".toList := by
  have hsend : Net.sendable ("Bearer " ++ "t") = true := by decide +kernel
  have hbase : Url.parse? ("http://h/api" ++ "/") =
      some ⟨false, [], "h".toList, none, "/api/".toList, none, none⟩ := by decide +kernel
  obtain ⟨address, hasks, -, hnotes, -⟩ :=
    tryNotes_address (c := ⟨"http://h/api", 0, some "t"⟩) rfl hsend hbase
  have hwhole : "p 1".toList.all (!"/\\?#\t\n\r".toList.contains ·) = true := by decide
  refine ⟨address, hasks "p 1", (hnotes "p 1").mpr ⟨⟨rfl, rfl⟩, ?_⟩⟩
  refine ⟨by decide, by decide, fun c hc hmem => ?_, by decide⟩
  have hc := List.all_eq_true.mp hwhole c hc
  rw [List.contains_iff_mem.mpr hmem] at hc
  cases hc

/-- A service, and a token for it. -/
def plainClient : RemoteClient := ⟨"http://h", 0, some "t"⟩

/-- What is asked for if there is a question mark in the key: the path ends there. -/
def questioned : Url where
  secure := false
  host := "h".toList
  port := none
  path := "/v1/projects/a".toList
  query := some "b/notes/".toList

/-- What is asked for if there is a blank in the key, or the percent form of one. -/
def blanked : Url where
  secure := false
  host := "h".toList
  port := none
  path := "/v1/projects/a%20b/notes/".toList
  query := none

/-- **Not every key has an address of its own:** one is cut, and two are taken for each other. -/
theorem exists_askedElsewhere :
    (∀ t r, Traces (plainClient.tryNotes "a?b") t r → ∃ reply,
      t = [⟨.send questioned ⟨"GET", "/v1/projects/a?b/notes/", bearer "t", []⟩ 0, reply⟩]) ∧
      (∀ base, ¬AddressesNotes base questioned "a?b".toList) ∧
      plainClient.tryNotes "a b" = plainClient.tryNotes "a%20b" := by
  have hsend : Net.sendable ("Bearer " ++ "t") = true := by decide +kernel
  refine ⟨fun t r h => ?_, fun base hnotes => ?_, ?_⟩
  · have hurl : Url.parse? ("http://h" ++ ("/v1/projects/" ++ "a?b" ++ "/notes/")) =
        some questioned := by decide +kernel
    have htarget : questioned.target = "/v1/projects/a?b/notes/" := by decide +kernel
    rw [tryNotes, get_of_sendable (c := plainClient) rfl hsend hurl, htarget] at h
    obtain ⟨reply, u, rfl, hu⟩ := traces_call.mp h
    obtain ⟨-, rfl⟩ := traces_done.mp hu
    exact ⟨reply, rfl⟩
  · cases hnotes.1
  · have hblank : Url.parse? ("http://h" ++ ("/v1/projects/" ++ "a b" ++ "/notes/")) =
        some blanked := by decide +kernel
    have hpercent : Url.parse? ("http://h" ++ ("/v1/projects/" ++ "a%20b" ++ "/notes/")) =
        some blanked := by decide +kernel
    rw [tryNotes, tryNotes, get_of_sendable (c := plainClient) rfl hsend hblank,
      get_of_sendable (c := plainClient) rfl hsend hpercent]

end MarkdownIndex.RemoteClient
