import Mathlib.Data.List.Perm.Basic
import MarkdownIndex.Proofs.Json.Decoding
import MarkdownIndex.Store.Sql

/-!
# Metadata of chunks: what comes out of a column is what was put in

The metadata of a chunk are stored as an object, or as a string that holds the text of one, and come
from writers of every age: a member may be missing, members may stand in any order, and there may be
some that no field has the name of.

* `ChunkMetadata.Storable` — the fields fit into their columns.
* `ChunkMetadata.without` — metadata with some fields at their defaults.
* `addMembers_members` — what a decoder makes of the members of an object, in whatever order.
* `decodeMetadata_of_members` — **what was written is read back,** from the object and from every
  text of it, and a value is worth as much as a text of it.
-/

namespace MarkdownIndex

open Json

/-! ## Metadata and their members -/

/-- The members of an object. -/
def Json.members : Json → List (String × Json)
  | .object members => members
  | _ => []

namespace ChunkMetadata

variable {m : ChunkMetadata} {present removed : String → Bool} {ms : List (String × Json)}

/-- The numbers fit into their fields: a byte for the level, a machine word for the others. -/
structure Storable (m : ChunkMetadata) : Prop where
  /-- the level is a byte -/
  headerLevel : m.headerLevel < Decimal.twoTo 8
  /-- the size is a machine word -/
  size : m.size < Decimal.twoTo 64
  /-- so is the number of chunks -/
  totalChunks : m.totalChunks < Decimal.twoTo 64

/-- Metadata in which the fields of some names have their defaults. -/
def without (m : ChunkMetadata) (removed : String → Bool) : ChunkMetadata where
  header := if removed "header" then ({} : ChunkMetadata).header else m.header
  headerLevel := if removed "header_level" then ({} : ChunkMetadata).headerLevel else m.headerLevel
  kind := if removed "chunk_type" then ({} : ChunkMetadata).kind else m.kind
  size := if removed "size" then ({} : ChunkMetadata).size else m.size
  totalChunks :=
    if removed "total_chunks" then ({} : ChunkMetadata).totalChunks else m.totalChunks

/-- The draft of metadata of which the fields of some names have been read. -/
def draft (m : ChunkMetadata) (present : String → Bool) : Draft where
  header := if present "header" then some m.header else none
  headerLevel := if present "header_level" then some m.headerLevel else none
  kind := if present "chunk_type" then some m.kind else none
  size := if present "size" then some m.size else none
  totalChunks := if present "total_chunks" then some m.totalChunks else none

/-- A name is that of a field. -/
def isField (k : String) : Bool := record.names.contains k

theorem draft_none (m : ChunkMetadata) : m.draft (fun _ => false) = record.empty := rfl

/-- Only the names of fields matter. -/
theorem draft_congr {present' : String → Bool}
    (h : ∀ k ∈ record.names, present k = present' k) : m.draft present = m.draft present' := by
  simp only [record, List.forall_mem_cons] at h
  obtain ⟨hheader, hlevel, hkind, hsize, htotal, -⟩ := h
  simp only [draft, hheader, hlevel, hkind, hsize, htotal]

/-- What has not been read has its default. -/
theorem finish_draft (h : ∀ k ∈ record.names, present k = !removed k) :
    record.finish (m.draft present) = .ok (m.without removed) := by
  have hslot : ∀ {α : Type} (b : Bool) (a d : α),
      (if (!b) = true then some a else none).getD d = if b then d else a := fun b a d => by
    cases b <;> rfl
  have hpresent : m.draft present = m.draft fun k => !removed k := draft_congr h
  rw [hpresent]
  simp only [record, draft, without, hslot]

theorem hasCoarseFields_record : record.HasCoarseFields := by
  intro k add hk draft n
  simp only [record] at hk
  split at hk
  · obtain rfl := Option.some.inj hk
    exact toOption_fill isCoarse_text _ _ n
  · obtain rfl := Option.some.inj hk
    exact toOption_fill (isCoarse_natural 8) _ _ n
  · obtain rfl := Option.some.inj hk
    exact toOption_fill (isCoarse_choice _) _ _ n
  · obtain rfl := Option.some.inj hk
    exact toOption_fill (isCoarse_natural 64) _ _ n
  · obtain rfl := Option.some.inj hk
    exact toOption_fill (isCoarse_natural 64) _ _ n
  · cases hk

/-- **A member that has not been read before is read as the field was written.** -/
theorem exists_field_of_mem (hm : m.Storable) {x : String × Json} (hx : x ∈ m.toJson.members)
    (hpresent : present x.1 = false) : ∃ add, record.field x.1 = some add ∧
      add x.2.toNode (m.draft present) = .ok (m.draft fun k => x.1 == k || present k) := by
  have hkind : ChunkKind.decoder m.kind.toJson.toNode = .ok m.kind := by
    cases m.kind <;> rfl
  simp only [toJson, Json.members, List.mem_cons, List.not_mem_nil, or_false] at hx
  have hread : ∀ {k : String}, present k = false → ¬present k = true := fun h => by simp [h]
  rcases hx with rfl | rfl | rfl | rfl | rfl
  · exact ⟨_, rfl, fill_eq (if_neg (hread hpresent)) rfl (by simp [draft])⟩
  · have hlevel := natural_toNode hm.headerLevel
    exact ⟨_, rfl, fill_eq (if_neg (hread hpresent)) hlevel (by simp [draft])⟩
  · exact ⟨_, rfl, fill_eq (if_neg (hread hpresent)) hkind (by simp [draft])⟩
  · have hsize := natural_toNode hm.size
    exact ⟨_, rfl, fill_eq (if_neg (hread hpresent)) hsize (by simp [draft])⟩
  · have htotal := natural_toNode hm.totalChunks
    exact ⟨_, rfl, fill_eq (if_neg (hread hpresent)) htotal (by simp [draft])⟩

/-! ## Members of an object, in whatever order -/

theorem field_of_isField {k : String} (h : isField k = false) : record.field k = none := by
  simp only [record]
  split
  case h_6 => rfl
  all_goals cases h

theorem beq_eq_false_of_isField {j k : String} (h : isField j = false) (hk : k ∈ record.names) :
    (j == k) = false :=
  beq_eq_false_iff_ne.mpr fun heq => by
    rw [isField, heq, List.contains_iff_mem.mpr hk] at h
    cases h

/-- **Members are read one after the other,** whatever their order is and what stands between them,
as long as no field comes twice. The trees of their values may be those of a text. -/
theorem addMembers_members {node : Json → Node} (hm : m.Storable)
    (hsound : ∀ x ∈ ms, (node x.2).sound = true)
    (hnode : ∀ x ∈ m.toJson.members, node x.2 = x.2.toNode)
    (hfields : ∀ x ∈ ms, isField x.1 = true → x ∈ m.toJson.members)
    (hfresh : ∀ x ∈ ms, isField x.1 = true → present x.1 = false)
    (hnodup : ((ms.filter fun x => isField x.1).map Prod.fst).Nodup) :
    record.addMembers (m.draft present) (ms.map fun x => (some x.1, node x.2)) =
      .ok (m.draft fun k => ms.any (·.1 == k) || present k) := by
  induction ms generalizing present with
  | nil => rfl
  | cons x ms ih =>
    obtain ⟨hx, hsound⟩ := List.forall_mem_cons.mp hsound
    obtain ⟨hmem, hfields⟩ := List.forall_mem_cons.mp hfields
    obtain ⟨hread, hfresh⟩ := List.forall_mem_cons.mp hfresh
    cases hfield : isField x.1 with
    | false =>
      rw [List.filter_cons_of_neg (by rw [hfield]; exact Bool.false_ne_true)] at hnodup
      rw [List.map_cons, Record.addMembers_skip (field_of_isField hfield) hx,
        ih hsound hfields hfresh hnodup]
      refine congrArg Except.ok (draft_congr fun k hk => ?_)
      rw [List.any_cons, beq_eq_false_of_isField hfield hk, Bool.false_or]
    | true =>
      have hcons : ((x :: ms).filter fun x => isField x.1) = x :: ms.filter fun x => isField x.1 :=
        List.filter_cons_of_pos hfield
      rw [hcons, List.map_cons, List.nodup_cons] at hnodup
      obtain ⟨add, hadd, hdraft⟩ := exists_field_of_mem hm (hmem hfield) (hread hfield)
      rw [← hnode x (hmem hfield)] at hdraft
      have hrest : ∀ y ∈ ms, isField y.1 = true → (x.1 == y.1 || present y.1) = false := by
        intro y hy hyfield
        have hne : x.1 ≠ y.1 := fun heq => hnodup.1 <| by
          rw [heq]
          exact List.mem_map_of_mem (List.mem_filter.mpr ⟨hy, hyfield⟩)
        rw [beq_eq_false_iff_ne.mpr hne, hfresh y hy hyfield]
        rfl
      rw [List.map_cons, Record.addMembers_cons hadd hdraft, ih hsound hfields hrest hnodup.2]
      refine congrArg Except.ok (draft_congr fun k _ => ?_)
      rw [List.any_cons, Bool.or_left_comm, Bool.or_assoc]

/-- The members of an object that fields have the names of are those of metadata that have not been
removed, in whatever order. -/
def Keeps (m : ChunkMetadata) (removed : String → Bool) (ms : List (String × Json)) : Prop :=
  (ms.filter fun x => isField x.1).Perm (m.toJson.members.filter fun x => !removed x.1)

theorem map_fst_members (m : ChunkMetadata) : m.toJson.members.map Prod.fst = record.names := rfl

/-- **What is left of metadata is read, and the rest has its defaults.** -/
theorem decode_object (node : Json → Node) (hm : m.Storable) (hms : m.Keeps removed ms)
    (hsound : ∀ x ∈ ms, (node x.2).sound = true)
    (hnode : ∀ x ∈ m.toJson.members, node x.2 = x.2.toNode) :
    record.decode (.object (ms.map fun x => (some x.1, node x.2))) = .ok (m.without removed) := by
  have hkept : ∀ x, x ∈ ms ∧ isField x.1 = true ↔ x ∈ m.toJson.members ∧ (!removed x.1) = true :=
    fun x => List.mem_filter.symm.trans (hms.mem_iff.trans List.mem_filter)
  have hnodup : ((ms.filter fun x => isField x.1).map Prod.fst).Nodup := by
    rw [(hms.map Prod.fst).nodup_iff]
    refine List.Sublist.nodup (List.filter_sublist.map Prod.fst) ?_
    rw [map_fst_members]
    decide
  have hfields : ∀ x ∈ ms, isField x.1 = true → x ∈ m.toJson.members := fun x hx hfield =>
    ((hkept x).mp ⟨hx, hfield⟩).1
  rw [Record.decode, Record.decodeWith, ← draft_none m,
    addMembers_members hm hsound hnode hfields (fun _ _ _ => rfl) hnodup]
  refine finish_draft fun k hk => ?_
  -- a field is there if it has not been removed
  obtain ⟨x, hx, rfl⟩ := List.mem_map.mp (map_fst_members m ▸ hk)
  rw [Bool.or_false, Bool.eq_iff_iff, List.any_eq_true]
  constructor
  · rintro ⟨y, hy, hxy⟩
    have hname : y.1 = x.1 := beq_iff_eq.mp hxy
    have hfield : isField y.1 = true := by
      rw [hname]
      exact List.contains_iff_mem.mpr hk
    rw [← hname]
    exact ((hkept y).mp ⟨hy, hfield⟩).2
  · intro hkeep
    exact ⟨x, ((hkept x).mpr ⟨hx, hkeep⟩).1, beq_self_eq_true x.1⟩

end ChunkMetadata

/-! ## Columns -/

section Columns

variable {m : ChunkMetadata} {removed : String → Bool} {ms : List (String × Json)} {v : Json}

theorem memberNodes_eq (ms : List (String × Json)) :
    memberNodes ms = ms.map fun x => (some x.1, x.2.toNode) := by
  induction ms with
  | nil => rfl
  | cons x ms ih =>
    obtain ⟨k, v⟩ := x
    rw [memberNodes, ih]
    rfl

theorem memberTrees_eq (ms : List (String × Json)) :
    memberTrees ms = ms.map fun x => (some x.1, x.2.tree) := by
  induction ms with
  | nil => rfl
  | cons x ms ih =>
    obtain ⟨k, v⟩ := x
    rw [memberTrees, ih]
    rfl

/-- A text in a column is decoded like any text, if it is one of a value. -/
theorem decodeMetadata_string {s : String} (hs : v.HasText s) :
    decodeMetadata (some (.string s)) =
      metadataOr (Json.decode? ChunkMetadata.record.decode s.toList) := by
  rw [decodeMetadata, isBlankText_of_hasText hs]
  rfl

/-- A value in a column is decoded as what it is, if it is no text. -/
theorem decodeMetadata_value (hv : ∀ s, v ≠ .string s) :
    decodeMetadata (some v) = metadataOr (ChunkMetadata.record.decode v.toNode) := by
  cases v with
  | string s => exact absurd rfl (hv s)
  | _ => rfl

/-- What is left of metadata is read from the object, -/
theorem decodeMetadata_object (hm : m.Storable) (hms : m.Keeps removed ms) :
    decodeMetadata (some (.object ms)) = m.without removed := by
  have hread := ChunkMetadata.decode_object toNode hm hms (fun x _ => sound_toNode x.2)
    fun x _ => rfl
  rw [decodeMetadata_value (fun s => Json.noConfusion), toNode, memberNodes_eq, hread]
  rfl

/-- and from every text of the object. -/
theorem decodeMetadata_objectText (hm : m.Storable) (hms : m.Keeps removed ms) {s : String}
    (hs : (Json.object ms).HasText s) : decodeMetadata (some (.string s)) = m.without removed := by
  have hlevel : m.headerLevel < Decimal.twoTo 64 := hm.headerLevel.trans (by decide)
  have hmembers : ∀ x ∈ m.toJson.members, x.2.tree = x.2.toNode := by
    simp only [ChunkMetadata.toJson, Json.members, List.forall_mem_cons]
    exact ⟨rfl, tree_nat hlevel, rfl, tree_nat hm.size, tree_nat hm.totalChunks,
      fun x hx => absurd hx List.not_mem_nil⟩
  have hread := ChunkMetadata.decode_object tree hm hms (fun x _ => sound_tree x.2) hmembers
  rw [decodeMetadata_string hs, decode?_of_hasText _ hs, tree, memberTrees_eq, hread]
  rfl

/-- **Whatever stands in a column, a text of it is worth as much.** -/
theorem decodeMetadata_text (hv : v.Proper) (hstring : ∀ s, v ≠ .string s) {s : String}
    (hs : v.HasText s) : decodeMetadata (some (.string s)) = decodeMetadata (some v) := by
  have hcoarse := Record.isCoarse_decode ChunkMetadata.hasCoarseFields_record
  rw [decodeMetadata_string hs, decodeMetadata_value hstring, metadataOr, metadataOr,
    toOption_decode?_of_hasText hcoarse hv hs]

/-- **Stored metadata are read back as they were written,** from the object and from every text of
it: whatever fields are missing, they have their defaults, in whatever order the others are, and
whatever other members there are. And a value in the column is worth as much as a text of it. -/
theorem decodeMetadata_of_members (hm : m.Storable) (hms : m.Keeps removed ms) :
    decodeMetadata (some (.object ms)) = m.without removed ∧
      (∀ s, (Json.object ms).HasText s → decodeMetadata (some (.string s)) = m.without removed) ∧
        ∀ v : Json, v.Proper → (∀ s, v ≠ .string s) → ∀ s, v.HasText s →
          decodeMetadata (some (.string s)) = decodeMetadata (some v) :=
  ⟨decodeMetadata_object hm hms, fun _ hs => decodeMetadata_objectText hm hms hs,
    fun _ hv hstring _ hs => decodeMetadata_text hv hstring hs⟩

end Columns

/-- Metadata of a chunk. -/
def partMetadata : ChunkMetadata where
  header := "Setup"
  headerLevel := 2
  kind := .sectionPart
  size := 10
  totalChunks := 3

/-- Their members in another order, without the size, and with one that no field has the name of. -/
def partMembers : List (String × Json) := [
  ("header_level", .nat 2),
  ("author", .array [.float 0.5]),
  ("header", .string "Setup"),
  ("chunk_type", .string "section_part"),
  ("total_chunks", .nat 3)]

theorem decodeMetadata_of_members_part :
    decodeMetadata (some (.object partMembers)) = { partMetadata with size := 0 } ∧
      decodeMetadata (some (.string (Json.object partMembers).compact)) =
        { partMetadata with size := 0 } ∧
      decodeMetadata (some (.string (Json.array [.string "Setup", .nat 2]).compact)) =
        decodeMetadata (some (.array [.string "Setup", .nat 2])) := by
  have hstorable : partMetadata.Storable := ⟨by decide, by decide, by decide⟩
  have hkeeps : partMetadata.Keeps (· == "size") partMembers := List.Perm.swap _ _ _
  have hproper : (Json.array [.string "Setup", .nat 2]).Proper :=
    ⟨trivial, ⟨by decide, by decide⟩, trivial⟩
  obtain ⟨hobject, htext, hvalue⟩ := decodeMetadata_of_members hstorable hkeeps
  exact ⟨hobject, htext _ (hasText_compact _),
    hvalue _ hproper (fun s => Json.noConfusion) _ (hasText_compact _)⟩

end MarkdownIndex
