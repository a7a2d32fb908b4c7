import MarkdownIndex.Proofs.Json.Reading

/-!
# Decoders: what they see of a tree

The tree of a value and the tree of a text of it differ in the values of floats only. Many a decoder
does not look at those: it wants strings, names or whole numbers, and any float is as wrong as any
other. For such a decoder a value is worth as much as a text of it.

* `listOf_tree`, `natural_tree`, `Record.addMembers_cons` — lists, natural numbers and objects.
* `Node.coarse` — a tree without the values of its floats; `coarse_tree` — **the tree of a value and
  the tree of a text of it are the same without them.**
* `Proper` — the values that a text can hold.
* `IsCoarse` — a decoder that does not look at floats; `Record.isCoarse_decode` — so is that of a
  record whose fields have such decoders.
-/

namespace MarkdownIndex.Json

variable {α σ ε : Type} {d : Decoder α} {f : α → Json}

/-! ## Parts of records -/

/-- A list is decoded if its items are. -/
theorem listOf_tree {xs : List α} (h : ∀ x ∈ xs, d (f x).tree = .ok x) :
    listOf d (Json.array (xs.map f)).tree = .ok xs := by
  simp only [tree, listOf]
  induction xs with
  | nil => rfl
  | cons x xs ih =>
    have hx := h x List.mem_cons_self
    have hxs := ih fun y hy => h y (List.mem_cons_of_mem x hy)
    simp only [List.map_cons, itemTrees, List.mapM_cons, hx, hxs]
    rfl

theorem tree_nat {n : Nat} (h : n < Decimal.twoTo 64) :
    (Json.nat n).tree = (Json.nat n).toNode := by
  apply Number.tree_int
  · simp only [Decimal.twoTo]
    omega
  · omega

theorem natural_toNode {b n : Nat} (h : n < Decimal.twoTo b) :
    natural b (Json.nat n).toNode = .ok n := by
  have hbounds : (0 : Int) ≤ n ∧ (n : Int) ≤ Decimal.twoTo b - 1 := by omega
  simp only [nat, toNode, natural, integerWithin, if_pos hbounds]
  rfl

theorem natural_tree {n : Nat} (h : n < Decimal.twoTo 64) :
    natural 64 (Json.nat n).tree = .ok n := by
  rw [tree_nat h, natural_toNode h]

theorem fill_none {put : Option α → σ} {n : Node} {a : α} (h : d n = .ok a) :
    fill d none put n = .ok (put (some a)) := by
  simp only [fill, h, Except.map]

/-- A field that has not been read is added to a draft. -/
theorem fill_eq {slot : Option α} {put : Option α → σ} {n : Node} {a : α} {draft : σ}
    (hslot : slot = none) (h : d n = .ok a) (hput : put (some a) = draft) :
    fill d slot put n = .ok draft := by
  rw [hslot, fill_none h, hput]

/-- The fields of an object are added one after the other. -/
theorem Record.addMembers_cons {r : Record σ α} {k : String} {v : Node}
    {ms : List (Option String × Node)} {draft draft' : σ} {add : Node → σ → Except Fault σ}
    (hk : r.field k = some add) (hv : add v draft = .ok draft') :
    r.addMembers draft ((some k, v) :: ms) = r.addMembers draft' ms := by
  simp only [addMembers, hk, hv]

/-- What is no field is skipped. -/
theorem Record.addMembers_skip {r : Record σ α} {k : String} {v : Node}
    {ms : List (Option String × Node)} {draft : σ} (hk : r.field k = none)
    (hv : v.sound = true) : r.addMembers draft ((some k, v) :: ms) = r.addMembers draft ms := by
  simp only [addMembers, hk, hv, if_true]

/-! ## Trees without floats -/

/-- A number without its value, unless it is an integer. -/
def coarseNumber : Option Number → Option Number
  | some (.int i) => some (.int i)
  | _ => none

mutual

/-- A tree without the values of its floats. -/
def Node.coarse : Node → Node
  | .defect => .defect
  | .null => .null
  | .bool b => .bool b
  | .number x => .number (coarseNumber x)
  | .string s => .string s
  | .array items => .array (coarseItems items)
  | .object members => .object (coarseMembers members)

/-- Items without the values of their floats. -/
def coarseItems : List Node → List Node
  | [] => []
  | v :: vs => v.coarse :: coarseItems vs

/-- Members without the values of their floats. -/
def coarseMembers : List (Option String × Node) → List (Option String × Node)
  | [] => []
  | (k, v) :: ms => (k, v.coarse) :: coarseMembers ms

end

/-- A number that a text can hold: an integer of 64 bits, or a finite float. -/
def Number.Proper : Number → Prop
  | .int n => -(Decimal.twoTo 63 : Int) ≤ n ∧ n < Decimal.twoTo 64
  | .float x => x.isFinite = true

mutual

/-- A value that a text can hold. -/
def Proper : Json → Prop
  | .number n => n.Proper
  | .array items => ProperItems items
  | .object members => ProperMembers members
  | _ => True

/-- Items that a text can hold. -/
def ProperItems : List Json → Prop
  | [] => True
  | v :: vs => v.Proper ∧ ProperItems vs

/-- Members that a text can hold. -/
def ProperMembers : List (String × Json) → Prop
  | [] => True
  | (_, v) :: ms => v.Proper ∧ ProperMembers ms

end

theorem Number.coarse_tree {n : Number} (h : n.Proper) :
    n.tree.coarse = .number (coarseNumber (some n)) := by
  cases n with
  | int n =>
    rw [tree_int h.1 h.2]
    rfl
  | float x =>
    obtain ⟨l, hl, hplain⟩ := exists_spells_floatText h
    have htree : (Number.float x).tree = .number l.value? := tree_of_spells hl
    rw [htree, Node.coarse]
    rcases hvalue : l.value? with _ | ⟨i | y⟩
    · rfl
    · exact absurd hvalue (Literal.value?_ne_int hplain i)
    · rfl

mutual

/-- **Without floats the tree of a text is that of the value.** -/
theorem coarse_tree : ∀ v : Json, v.Proper → v.tree.coarse = v.toNode.coarse
  | .null, _ => rfl
  | .bool _, _ => rfl
  | .number _, h => Number.coarse_tree h
  | .string _, _ => rfl
  | .array items, h => congrArg Node.array (coarse_itemTrees items h)
  | .object members, h => congrArg Node.object (coarse_memberTrees members h)

theorem coarse_itemTrees : ∀ items : List Json, ProperItems items →
    coarseItems (itemTrees items) = coarseItems (itemNodes items)
  | [], _ => rfl
  | v :: vs, h => congrArg₂ List.cons (coarse_tree v h.1) (coarse_itemTrees vs h.2)

theorem coarse_memberTrees : ∀ members : List (String × Json), ProperMembers members →
    coarseMembers (memberTrees members) = coarseMembers (memberNodes members)
  | [], _ => rfl
  | (k, v) :: ms, h => congrArg₂ List.cons (congrArg (Prod.mk (some k)) (coarse_tree v h.1))
      (coarse_memberTrees ms h.2)

end

mutual

theorem sound_coarse : ∀ n : Node, n.coarse.sound = n.sound
  | .defect | .null | .bool _ | .number _ | .string _ => rfl
  | .array items => soundItems_coarse items
  | .object members => soundMembers_coarse members

theorem soundItems_coarse : ∀ items : List Node, soundItems (coarseItems items) = soundItems items
  | [] => rfl
  | v :: vs => congrArg₂ and (sound_coarse v) (soundItems_coarse vs)

theorem soundMembers_coarse : ∀ members : List (Option String × Node),
    soundMembers (coarseMembers members) = soundMembers members
  | [] => rfl
  | (_, v) :: ms => congrArg₂ and (sound_coarse v) (soundMembers_coarse ms)

end

/-! ### Soundness -/

theorem Number.sound_tree (n : Number) : n.tree.sound = true := by
  obtain h | ⟨l, hl⟩ := n.exists_spells
  · rw [tree, h]
    rfl
  · rw [tree_of_spells hl]
    rfl

mutual

/-- The tree of a value has no defect. -/
theorem sound_toNode : ∀ v : Json, v.toNode.sound = true
  | .null | .bool _ | .number _ | .string _ => rfl
  | .array items => sound_itemNodes items
  | .object members => sound_memberNodes members

theorem sound_itemNodes : ∀ items : List Json, soundItems (itemNodes items) = true
  | [] => rfl
  | v :: vs => congrArg₂ and (sound_toNode v) (sound_itemNodes vs)

theorem sound_memberNodes : ∀ members : List (String × Json),
    soundMembers (memberNodes members) = true
  | [] => rfl
  | (_, v) :: ms => congrArg₂ and (sound_toNode v) (sound_memberNodes ms)

end

mutual

/-- Nor has that of a text. -/
theorem sound_tree : ∀ v : Json, v.tree.sound = true
  | .null | .bool _ | .string _ => rfl
  | .number n => n.sound_tree
  | .array items => sound_itemTrees items
  | .object members => sound_memberTrees members

theorem sound_itemTrees : ∀ items : List Json, soundItems (itemTrees items) = true
  | [] => rfl
  | v :: vs => congrArg₂ and (sound_tree v) (sound_itemTrees vs)

theorem sound_memberTrees : ∀ members : List (String × Json),
    soundMembers (memberTrees members) = true
  | [] => rfl
  | (_, v) :: ms => congrArg₂ and (sound_tree v) (sound_memberTrees ms)

end

/-! ## Decoders that do not look at floats -/

/-- What a decoder makes of a tree, and whether it makes anything of it, does not depend on the
values of floats. -/
def IsCoarse (d : Decoder α) : Prop := ∀ n, (d n.coarse).toOption = (d n).toOption

theorem isCoarse_text : IsCoarse text := fun n => by
  cases n <;> rfl

theorem isCoarse_natural (b : Nat) : IsCoarse (natural b) := fun n => by
  cases n with
  | number x => rcases x with _ | ⟨i | y⟩ <;> rfl
  | _ => rfl

/-- A name may stand alone, or as the only member of an object. -/
theorem isCoarse_choice (ofName? : String → Option α) : IsCoarse (choice ofName?) := fun n => by
  match n with
  | .object ((some k, v) :: rest) =>
    simp only [Node.coarse, coarseMembers, choice]
    rcases ofName? k with _ | a
    · rfl
    · cases v with
      | null => cases rest <;> rfl
      | _ => rfl
  | .object ((none, v) :: rest) => rfl
  | .object [] => rfl
  | .string s => rfl
  | .defect | .null | .bool _ | .number _ | .array _ => rfl

/-! ## Records of such decoders -/

section Records

variable {β : Type} {r : Record σ α} {x y : Except ε α} {g g' : α → Except ε β}

theorem toOption_bind_congr (h : x.toOption = y.toOption)
    (hg : ∀ a, (g a).toOption = (g' a).toOption) :
    (x.bind g).toOption = (y.bind g').toOption := by
  cases x with
  | error e =>
    cases y with
    | error e' => rfl
    | ok b => cases h
  | ok a =>
    cases y with
    | error e' => cases h
    | ok b =>
      obtain rfl : a = b := Option.some.inj h
      exact hg a

/-- A slot is filled with what its decoder makes of a tree. -/
theorem toOption_fill {d : Decoder α} (h : IsCoarse d) (slot : Option α) (put : Option α → σ)
    (n : Node) : (fill d slot put n.coarse).toOption = (fill d slot put n).toOption := by
  cases slot with
  | none =>
    have hmap : ∀ n, fill d none put n = (d n).bind fun a => .ok (put (some a)) := fun n => by
      rw [fill]
      cases d n <;> rfl
    rw [hmap, hmap]
    exact toOption_bind_congr (h n) fun a => rfl
  | some a => rfl

namespace Record

/-- The fields of a record have decoders that do not look at floats. -/
def HasCoarseFields (r : Record σ α) : Prop :=
  ∀ k add, r.field k = some add → ∀ draft n, (add n.coarse draft).toOption = (add n draft).toOption

theorem addMembers_of_field {k : String} {add : Node → σ → Except Fault σ}
    (hk : r.field k = some add) (draft : σ) (v : Node) (ms : List (Option String × Node)) :
    r.addMembers draft ((some k, v) :: ms) =
      (add v draft).bind fun draft => r.addMembers draft ms := by
  simp only [addMembers, hk]
  cases add v draft <;> rfl

theorem addItems_of_field {k : String} {add : Node → σ → Except Fault σ}
    (hk : r.field k = some add) (surplus : Bool) (draft : σ) (ks : List String) (v : Node)
    (vs : List Node) : r.addItems surplus draft (k :: ks) (v :: vs) =
      (add v draft).bind fun draft => r.addItems surplus draft ks vs := by
  simp only [addItems, hk]
  cases add v draft <;> rfl

theorem toOption_addMembers_coarse (hr : r.HasCoarseFields) (draft : σ)
    (ms : List (Option String × Node)) :
    (r.addMembers draft (coarseMembers ms)).toOption = (r.addMembers draft ms).toOption := by
  induction ms generalizing draft with
  | nil => rfl
  | cons m ms ih =>
    obtain ⟨_ | k, v⟩ := m
    · rfl
    · rw [coarseMembers]
      rcases hk : r.field k with _ | add
      · simp only [addMembers, hk, sound_coarse]
        split
        · exact ih draft
        · rfl
      · rw [addMembers_of_field hk, addMembers_of_field hk]
        exact toOption_bind_congr (hr k add hk draft v) ih

theorem toOption_addItems_coarse (hr : r.HasCoarseFields) (surplus : Bool) (draft : σ)
    (ks : List String) (vs : List Node) :
    (r.addItems surplus draft ks (coarseItems vs)).toOption =
      (r.addItems surplus draft ks vs).toOption := by
  induction vs generalizing draft ks with
  | nil => rfl
  | cons v vs ih =>
    rw [coarseItems]
    rcases ks with _ | ⟨k, ks⟩
    · rfl
    · rcases hk : r.field k with _ | add
      · simp only [addItems, hk]
        exact ih draft ks
      · rw [addItems_of_field hk, addItems_of_field hk]
        exact toOption_bind_congr (hr k add hk draft v) fun draft => ih draft ks

/-- **A record whose fields have decoders that do not look at floats has such a decoder.** -/
theorem isCoarse_decode (hr : r.HasCoarseFields) : IsCoarse r.decode := fun n => by
  cases n with
  | array items =>
    exact toOption_bind_congr (toOption_addItems_coarse hr false r.empty r.names items) fun _ => rfl
  | object members =>
    exact toOption_bind_congr (toOption_addMembers_coarse hr r.empty members) fun _ => rfl
  | _ => rfl

end Record

end Records

/-- **What such a decoder makes of a text it makes of the value.** -/
theorem toOption_decode?_of_hasText (hd : IsCoarse d) {v : Json} (hv : v.Proper) {s : String}
    (hs : v.HasText s) : (decode? d s.toList).toOption = (d v.toNode).toOption := by
  rw [decode?_of_hasText d hs, ← hd v.tree, coarse_tree v hv, hd v.toNode]

end MarkdownIndex.Json
