/-
Contexts written as JSON. A context whose records bind words only, each once
and in order (`Context.WellKeyed`), is what its JSON stands for
(`ofJson_toJson`), and the file it is written to gives it back, unless the name
of the file says that it is YAML (`ofFile_write`).

Both follow the recursion of contexts: values, lists of records, entries.
-/
import MarkupLens.Context.OfFile
import MarkupLens.Proofs.Context.Depth
import MarkupLens.Proofs.Json.ReadBack

namespace MarkupLens.Context

/-- At every depth, the keys of a record are words and stand in order, none of them twice. -/
def WellKeyed (c : Context) : Prop := ∀ d ∈ c.contexts, d.Canonical ∧ ∀ key ∈ d.keys, Text.isWord key = true

instance (c : Context) : Decidable c.WellKeyed :=
  inferInstanceAs (Decidable (∀ d ∈ c.contexts, d.entries.Sorted ∧ ∀ key ∈ d.keys, Text.isWord key = true))

theorem keys_entriesToJson (es : List (Text × Value)) : Keyed.keys (entriesToJson es) = Keyed.keys es := by
  induction es with
  | nil => rfl
  | cons e es ih =>
    obtain ⟨key, v⟩ := e
    rw [entriesToJson, Keyed.keys, List.map_cons]
    exact congrArg (key :: ·) ih

/-! ## The JSON of a context is regular -/

mutual

theorem regular_valueToJson (v : Value) (h : ∀ d ∈ v.contexts, d.Canonical) : (valueToJson v).Regular := by
  match v with
  | .flag on | .text t =>
    rw [valueToJson, Json.Regular]
    trivial
  | .list items =>
    rw [Value.contexts] at h
    rw [valueToJson, Json.Regular]
    exact regular_itemsToJson items h
  | .record r =>
    rw [Value.contexts] at h
    rw [valueToJson]
    exact regular_toJson r h

/-- **The members of the JSON of a context ascend,** and there are no numbers in it. -/
theorem regular_toJson (c : Context) (h : ∀ d ∈ c.contexts, d.Canonical) : c.toJson.Regular := by
  match c with
  | .ofEntries es =>
    rw [contexts, List.forall_mem_cons] at h
    obtain ⟨hself, hrest⟩ := h
    have hsorted : Keyed.Sorted (entriesToJson es) := by
      rw [Keyed.Sorted, keys_entriesToJson]
      exact hself
    rw [toJson, Json.Regular]
    exact ⟨hsorted, regular_entriesToJson es hrest⟩

theorem regular_itemsToJson (items : List Context) (h : ∀ d ∈ contextsOfItems items, d.Canonical) :
    Json.RegularItems (itemsToJson items) := by
  match items with
  | [] =>
    rw [itemsToJson, Json.RegularItems]
    trivial
  | c :: cs =>
    rw [contextsOfItems, List.forall_mem_append] at h
    rw [itemsToJson, Json.RegularItems]
    exact ⟨regular_toJson c h.1, regular_itemsToJson cs h.2⟩

theorem regular_entriesToJson (es : List (Text × Value)) (h : ∀ d ∈ contextsOfEntries es, d.Canonical) :
    Json.RegularMembers (entriesToJson es) := by
  match es with
  | [] =>
    rw [entriesToJson, Json.RegularMembers]
    trivial
  | (key, v) :: es =>
    rw [contextsOfEntries, List.forall_mem_append] at h
    rw [entriesToJson, Json.RegularMembers]
    exact ⟨regular_valueToJson v h.1, regular_entriesToJson es h.2⟩

end

/-! ## The JSON of a context stands for it -/

mutual

theorem valueOfJson_valueToJson (key : Text) (v : Value)
    (h : ∀ d ∈ v.contexts, ∀ key ∈ d.keys, Text.isWord key = true) : valueOfJson key (valueToJson v) = .ok (some v) := by
  match v with
  | .flag on | .text t => rfl
  | .list items =>
    rw [Value.contexts] at h
    rw [valueToJson, valueOfJson, itemsOfJson_itemsToJson key 0 items h]
    rfl
  | .record (.ofEntries es) =>
    rw [Value.contexts, contexts, List.forall_mem_cons] at h
    rw [valueToJson, toJson, valueOfJson, entriesOfJson_entriesToJson es h.1 h.2]
    rfl

theorem itemsOfJson_itemsToJson (key : Text) (index : Nat) (items : List Context)
    (h : ∀ d ∈ contextsOfItems items, ∀ key ∈ d.keys, Text.isWord key = true) :
    itemsOfJson key index (itemsToJson items) = .ok items := by
  match items with
  | [] => rfl
  | .ofEntries es :: cs =>
    rw [contextsOfItems, List.forall_mem_append, contexts, List.forall_mem_cons] at h
    obtain ⟨⟨hself, hentries⟩, hcs⟩ := h
    rw [itemsToJson, toJson, itemsOfJson, entriesOfJson_entriesToJson es hself hentries]
    have hrest := itemsOfJson_itemsToJson key (index + 1) cs hcs
    show (itemsOfJson key (index + 1) (itemsToJson cs) >>= fun rest => pure (ofEntries es :: rest)) = _
    rw [hrest]
    rfl

theorem entriesOfJson_entriesToJson (es : List (Text × Value)) (hkeys : ∀ key ∈ Keyed.keys es, Text.isWord key = true)
    (h : ∀ d ∈ contextsOfEntries es, ∀ key ∈ d.keys, Text.isWord key = true) :
    entriesOfJson (entriesToJson es) = .ok es := by
  match es with
  | [] => rfl
  | (key, v) :: es =>
    rw [contextsOfEntries, List.forall_mem_append] at h
    rw [Keyed.keys, List.map_cons, List.forall_mem_cons] at hkeys
    rw [entriesToJson, entriesOfJson, if_pos hkeys.1, valueOfJson_valueToJson key v h.1]
    have hrest := entriesOfJson_entriesToJson es hkeys.2 h.2
    show (entriesOfJson (entriesToJson es) >>= fun rest => pure ((key, v) :: rest)) = _
    rw [hrest]
    rfl

end

/-- **The JSON of a context stands for it.** -/
theorem ofJson_toJson {c : Context} (h : ∀ d ∈ c.contexts, ∀ key ∈ d.keys, Text.isWord key = true) :
    ofJson c.toJson = .ok c := by
  obtain ⟨es⟩ := c
  rw [contexts, List.forall_mem_cons] at h
  rw [toJson, ofJson, entriesOfJson_entriesToJson es h.1 h.2]
  rfl

/-! ## Files -/

theorem ofPath_json {path : Text} (h : ∀ ending ∈ (Files.fileName? path).bind Files.ending?, ending ≠ "yaml" ∧ ending ≠ "yml") :
    ContextFormat.ofPath path = .json := by
  unfold ContextFormat.ofPath
  split
  · rename_i ending hending
    obtain ⟨h1, h2⟩ := h ending hending
    rw [beq_false_of_ne h1, beq_false_of_ne h2]
    rfl
  · rfl

/-- **A context is read back from the file that it is written to.** -/
theorem ofFile_write {c : Context} (h : c.WellKeyed) (hdepth : c.toJson.depth ≤ Json.depthLimit) {path : Text}
    (hpath : ∀ ending ∈ (Files.fileName? path).bind Files.ending?, ending ≠ "yaml" ∧ ending ≠ "yml") (pretty : Bool)
    {space : Text} (hspace : ∀ c ∈ space, Json.isSpace c = true) :
    ofFile path (c.toJson.write pretty ++ space) = .ok c := by
  have hregular : c.toJson.Regular := regular_toJson c fun d hd => (h d hd).1
  have hallows : Json.Allows (some Json.depthLimit) c.toJson.depth := by
    intro n hn
    obtain rfl : Json.depthLimit = n := Option.some.inj hn
    exact hdepth
  have hread : Json.read? (some Json.depthLimit) (c.toJson.write pretty ++ space) = some c.toJson :=
    Json.read?_write pretty hregular hallows hspace
  rw [ofFile, ofPath_json hpath]
  simp only [ContextFormat.read?, hread]
  rw [ofJson_toJson fun d hd => (h d hd).2]
  rfl

end MarkupLens.Context
