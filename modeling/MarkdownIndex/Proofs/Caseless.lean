import MarkdownIndex.Embedding.Hashing
import MarkdownIndex.Proofs.Store.Search
import MarkdownIndex.Proofs.Text.Lower

/-!
# Letter case: for which texts it does not matter

A text is searched for by its tokens, and feature hashing knows nothing of it but these. So both are
the same for a text and its lower case whenever the tokens are, and that is so for steady texts
alone.

* `lowered` — a text in lower case.
* `caseless` — the main result; `not_caseless` — a text of each kind that is not steady.
-/

namespace MarkdownIndex

open Text Memory

/-- A text in lower case. -/
def lowered (text : String) : String := String.ofList (lowerText text.toList)

/-- The tokens of steady texts are those of their lower case. -/
theorem tokens_lowered (text : String) :
    tokens (lowered text).toList = tokens text.toList ↔ Steady text.toList := by
  rw [lowered, String.toList_ofList, tokens_lowerText_iff]

theorem fulltextSearch_lowered {text : String}
    (h : tokens (lowered text).toList = tokens text.toList) (s : Memory) (limit : Int) :
    s.fulltextSearch (lowered text) limit = s.fulltextSearch text limit := by
  rw [fulltextSearch, fulltextSearch, h]

theorem embedText_lowered {text : String}
    (h : tokens (lowered text).toList = tokens text.toList) (wanted : Nat) :
    Embedding.Hashing.embedText wanted (lowered text) =
      Embedding.Hashing.embedText wanted text := by
  rw [Embedding.Hashing.embedText, Embedding.Hashing.embedText, h]

/-- A chunk is found by any of its words in lower case, if none has a dotted capital `İ`. -/
theorem scored_mem_fulltextSearch {s : Memory} {c : StoredChunk} (hc : c ∈ s.chunks)
    {ws : List (List Char)} (hne : ws ≠ [])
    (hws : ∀ w ∈ ws, w ∈ alphanumericRuns c.content.toList ∧ 'İ' ∉ w) {limit : Int}
    (hlimit : s.chunks.length ≤ limit) :
    s.scored c (relevance (ws.map lowerText) c.content) ∈
      s.fulltextSearch (String.ofList (joinWords (ws.map lowerText))) limit := by
  have htokens : tokens (String.ofList (joinWords (ws.map lowerText))).toList =
      ws.map lowerText := by
    rw [String.toList_ofList, tokens_joinWords hws]
  generalize String.ofList (joinWords (ws.map lowerText)) = query at htokens ⊢
  rw [← htokens]
  refine mem_fulltextSearch hc ?_ ?_ hlimit
  · rw [htokens]
    exact mt List.map_eq_nil_iff.mp hne
  · rw [htokens]
    exact List.forall_mem_map.mpr fun w hw => List.mem_map_of_mem (hws w hw).1

/-- **Letter case does not matter for steady texts, and for no others.** A text and its lower case
have the same tokens just if the text is steady, as every text without the two capitals is. For a
steady text a full-text search has the same hits, whatever the store holds, and feature hashing the
same vector, whatever its dimension. And a chunk is found by any of its words in lower case, if none
has a dotted capital `İ`. -/
theorem caseless :
    (∀ text : String,
      (tokens (lowered text).toList = tokens text.toList ↔ Steady text.toList) ∧
      ('İ' ∉ text.toList → 'Σ' ∉ text.toList → Steady text.toList) ∧
      (Steady text.toList →
        (∀ (s : Memory) (limit : Int),
          s.fulltextSearch (lowered text) limit = s.fulltextSearch text limit) ∧
        ∀ wanted : Nat, Embedding.Hashing.embedText wanted (lowered text) =
          Embedding.Hashing.embedText wanted text)) ∧
    ∀ (s : Memory), ∀ c ∈ s.chunks, ∀ ws ≠ [],
      (∀ w ∈ ws, w ∈ alphanumericRuns c.content.toList ∧ 'İ' ∉ w) →
        ∀ limit : Int, s.chunks.length ≤ limit →
          ∃ hit ∈ s.fulltextSearch (String.ofList (joinWords (ws.map lowerText))) limit,
            hit.chunkId = c.id ∧ hit.documentId = c.documentId ∧ hit.content = c.content := by
  refine ⟨fun text => ⟨tokens_lowered text, steady_of_plain, fun hsteady => ?_⟩, ?_⟩
  · have htokens := (tokens_lowered text).mpr hsteady
    exact ⟨fulltextSearch_lowered htokens, embedText_lowered htokens⟩
  · intro s c hc ws hne hws limit hlimit
    exact ⟨_, scored_mem_fulltextSearch hc hne hws hlimit, rfl, rfl, rfl⟩

/-- A store with one chunk. -/
def holding (content : String) : Memory := ({} : Memory).insertChunk 1 ⟨0, content, {}⟩ [1]

/-- A text with sigmas at the ends of words and within them, and a chunk that has its second
word. -/
theorem caseless_street :
    Steady "ΟΔΟΣ Σόλωνος".toList ∧
      (holding "Οδός Σόλωνος").fulltextSearch (lowered "ΟΔΟΣ Σόλωνος") 1 =
        (holding "Οδός Σόλωνος").fulltextSearch "ΟΔΟΣ Σόλωνος" 1 ∧
      Embedding.Hashing.embedText 8 (lowered "ΟΔΟΣ Σόλωνος") =
        Embedding.Hashing.embedText 8 "ΟΔΟΣ Σόλωνος" ∧
      ∃ hit ∈ (holding "Οδός Σόλωνος").fulltextSearch "σόλωνος" 1,
        hit.content = "Οδός Σόλωνος" := by
  obtain ⟨hsteady, -, hsame⟩ := caseless.1 "ΟΔΟΣ Σόλωνος"
  have hstreet : Steady "ΟΔΟΣ Σόλωνος".toList := hsteady.mp (by decide +kernel)
  refine ⟨hstreet, (hsame hstreet).1 _ 1, (hsame hstreet).2 8, ?_⟩
  obtain ⟨hit, hmem, -, -, hcontent⟩ := caseless.2 (holding "Οδός Σόλωνος") _
    List.mem_cons_self ["Σόλωνος".toList] (List.cons_ne_nil _ _)
    (List.forall_mem_singleton.mpr (by decide +kernel)) 1 (by decide)
  have hquery : String.ofList (joinWords (["Σόλωνος".toList].map lowerText)) = "σόλωνος" := by
    decide +kernel
  exact ⟨hit, hquery ▸ hmem, hcontent⟩

/-- Letter case does matter for a dotted capital `İ`, and for a sigma that only the text or only its
word has an end at: the lower case has other tokens, and does not find the chunk that the text
does. -/
theorem not_caseless :
    (tokens (lowered "İ").toList ≠ tokens "İ".toList ∧
      ((holding "İ").fulltextSearch "İ" 10).length = 1 ∧
      ((holding "İ").fulltextSearch (lowered "İ") 10).length = 0) ∧
    (tokens (lowered "ΑΣ.Α").toList ≠ tokens "ΑΣ.Α".toList ∧
      ((holding "ΑΣ.Α").fulltextSearch "ΑΣ.Α" 10).length = 1 ∧
      ((holding "ΑΣ.Α").fulltextSearch (lowered "ΑΣ.Α") 10).length = 0) := by
  decide +kernel

end MarkdownIndex
