/-
What extraction gives can be fed back to rendering. Whatever the page, the
records that are extracted bind words only, each once and in order, and no flag
that is off (`extracted_extractWith`); so the JSON in which a page is shown
holds a context that is read back as it is (`ofFile_extracted`).
-/
import MarkupLens.Proofs.Context.HostData
import MarkupLens.View.Format

namespace MarkupLens

open Extract (Mark marks ordered ownRecord ofNode ofEach mergeInto extractWith extract)

/-! ## Records that are extracted -/

/-- At every depth, a record stands in order, and binds nothing but words, and those to no flag that is off. -/
def Context.Extracted (c : Context) : Prop :=
  ∀ d ∈ c.contexts, d.Canonical ∧ ∀ e ∈ d.entries, Text.isWord e.1 = true ∧ e.2 ≠ .flag false

/-- The value is no flag that is off, and the records in it are extracted ones. -/
structure Value.Extracted (v : Value) : Prop where
  on : v ≠ .flag false
  contexts : ∀ d ∈ v.contexts, d.Canonical ∧ ∀ e ∈ d.entries, Text.isWord e.1 = true ∧ e.2 ≠ .flag false

namespace Context

variable {c d : Context}

theorem extracted_iff : c.Extracted ↔
    c.Canonical ∧ ∀ e ∈ c.entries, Text.isWord e.1 = true ∧ e.2.Extracted := by
  obtain ⟨es⟩ := c
  rw [Extracted, contexts, contextsOfEntries_eq, List.forall_mem_cons, List.forall_mem_flatMap]
  constructor
  · rintro ⟨⟨hsorted, hself⟩, hrest⟩
    exact ⟨hsorted, fun e he => ⟨(hself e he).1, (hself e he).2, hrest e he⟩⟩
  · rintro ⟨hsorted, hall⟩
    exact ⟨⟨hsorted, fun e he => ⟨(hall e he).1, (hall e he).2.on⟩⟩, fun e he => (hall e he).2.contexts⟩

theorem extracted_empty : empty.Extracted := extracted_iff.2 ⟨canonical_empty, by simp [empty, entries]⟩

theorem Extracted.insert (h : c.Extracted) {key : Text} (hkey : Text.isWord key = true) {v : Value} (hv : v.Extracted) :
    (c.insert key v).Extracted := by
  rw [extracted_iff] at h ⊢
  refine ⟨h.1.insert key v, fun e he => ?_⟩
  rcases Keyed.mem_insert he with rfl | he
  · exact ⟨hkey, hv⟩
  · exact h.2 e he

theorem Extracted.merge (h : c.Extracted) (hd : d.Extracted) : (c.merge d).Extracted := by
  obtain ⟨es⟩ := c
  refine List.foldlRecOn (motive := fun es => (Context.ofEntries es).Extracted) d.entries _ h fun es hes e he => ?_
  obtain ⟨hword, hv⟩ := (extracted_iff.1 hd).2 e he
  exact Extracted.insert hes hword hv

end Context

open Context (extracted_empty)

namespace Extract

variable {table : DirectiveTable}

/-- What a marker that is no container binds is a text, or a flag that is on. -/
theorem extracted_value (m : Mark) (attributes : Attributes) (children : List Node) :
    (m.value attributes children).Extracted := by
  have htext : ∀ t, (Value.text t).Extracted := fun t => ⟨by simp, by simp [Value.contexts]⟩
  have hflag : (Value.flag true).Extracted := ⟨by simp, by simp [Value.contexts]⟩
  unfold Mark.value
  split
  · exact htext _
  · split
    · exact hflag
    · exact htext _
  all_goals exact htext _

theorem extracted_ownRecord (attributes : Attributes) (children : List Node) :
    (ownRecord (marks table attributes) attributes children).Extracted := by
  refine List.foldlRecOn (motive := Context.Extracted) (ordered _) _ extracted_empty fun r hr m hm => ?_
  exact hr.insert (isWord_of_mem_marks (mem_ordered.1 hm).1) (extracted_value m attributes children)

mutual

/-- **The record that a node gives.** -/
theorem extracted_ofNode (n : Node) : (ofNode table n).Extracted := by
  match n with
  | .text s =>
    rw [ofNode]
    exact extracted_empty
  | .element tag attributes children =>
    have hown : (ownRecord (marks table attributes) attributes children).Extracted := extracted_ownRecord attributes children
    rw [ofNode]
    split
    · exact extracted_mergeInto children hown
    · rename_i m hm
      have hword := isWord_of_mem_marks (List.mem_of_find?_eq_some hm)
      split
      · refine hown.insert hword ⟨by simp, ?_⟩
        rw [Value.contexts, Context.contextsOfItems_eq, List.forall_mem_flatMap]
        exact extracted_ofEach children
      · refine hown.insert hword ⟨by simp, ?_⟩
        rw [Value.contexts]
        exact extracted_mergeInto children extracted_empty

theorem extracted_ofEach (ns : List Node) : ∀ d ∈ ofEach table ns, d.Extracted := by
  match ns with
  | [] => simp [ofEach]
  | .text s :: ns =>
    rw [ofEach]
    exact extracted_ofEach ns
  | .element tag attributes children :: ns =>
    rw [ofEach, List.forall_mem_cons]
    exact ⟨extracted_ofNode (.element tag attributes children), extracted_ofEach ns⟩

theorem extracted_mergeInto (ns : List Node) {r : Context} (hr : r.Extracted) : (mergeInto table r ns).Extracted := by
  match ns with
  | [] => rwa [mergeInto]
  | n :: ns =>
    rw [mergeInto]
    exact extracted_mergeInto ns (hr.merge (extracted_ofNode n))

end

/-- **The record that a page gives.** -/
theorem extracted_extractWith (page : Text) : (extractWith table page).Extracted :=
  extracted_mergeInto (Markup.parse page) extracted_empty

end Extract

theorem Context.Extracted.wellKeyed {c : Context} (h : c.Extracted) : c.WellKeyed := by
  intro d hd
  refine ⟨(h d hd).1, fun key hkey => ?_⟩
  obtain ⟨e, he, rfl⟩ := List.mem_map.1 hkey
  exact ((h d hd).2 e he).1

/-! ## Back to rendering -/

/-- **Extracted JSON is read back.** A context that binds words only, and nests no deeper than the reader allows, is
written to a file, compact or laid out, that gives it back unless it is named as YAML. Extraction gives such contexts,
without any flag that is off, so the JSON in which a page is shown gives the context of the page back. -/
theorem ofFile_extracted :
    (∀ (c : Context) (pretty : Bool) (path : Text), c.WellKeyed → c.toJson.depth ≤ 127 →
      (∀ ending ∈ (Files.fileName? path).bind Files.ending?, ending ≠ "yaml" ∧ ending ≠ "yml") →
      Context.ofFile path (c.toJson.write pretty) = .ok c) ∧
    (∀ page : Text, ∀ d ∈ (extract page).contexts,
      (∀ key ∈ d.keys, Text.isWord key = true) ∧ ∀ e ∈ d.entries, e.2 ≠ .flag false) ∧
    (∀ (page : Text) (pretty : Bool) (path : Text), (extract page).toJson.depth ≤ 127 →
      (∀ ending ∈ (Files.fileName? path).bind Files.ending?, ending ≠ "yaml" ∧ ending ≠ "yml") →
      (View.Format.ofName? "json").map (fun f => Context.ofFile path (f.write pretty page)) = some (.ok (extract page))) := by
  refine ⟨fun c pretty path hc hdepth hpath => ?_, fun page d hd => ?_, fun page pretty path hdepth hpath => ?_⟩
  · have h := Context.ofFile_write hc hdepth hpath pretty (List.forall_mem_nil _)
    rwa [List.append_nil] at h
  · have h : (extract page).Extracted := Extract.extracted_extractWith page
    exact ⟨(h.wellKeyed d hd).2, fun e he => ((h d hd).2 e he).2⟩
  · have hextracted : (extract page).Extracted := Extract.extracted_extractWith page
    have hname : View.Format.ofName? "json" = some .json := View.Format.ofName?_name .json
    rw [hname, Option.map_some]
    exact congrArg some (Context.ofFile_write hextracted.wellKeyed hdepth hpath pretty (List.forall_mem_singleton.2 rfl))

/-- Rooms of a house, one of them with a name that has to be escaped. -/
def houseContext : Context := .ofEntries [
  ("open", .flag false),
  ("rooms", .list [.ofEntries [("door", .record .empty), ("name", .text "\t\"hall\"")], .empty]),
  ("street", .text "")]

/-- A page that shows a flag and a list, one of whose records holds another. -/
def housePage : Text :=
  "<input data-nyanDoneChecked=open checked><ul data-nyanDoneLoop=rooms>" ++
    "<li data-nyanDoneHtml=door><b data-nyanDoneString=name>\"hall\"</b></li></ul>"

theorem ofFile_extracted_house :
    (houseContext.WellKeyed ∧ houseContext.toJson.depth ≤ 127) ∧ (extract housePage).toJson.depth ≤ 127 ∧
    Context.ofFile "data.json" (houseContext.toJson.write true) = .ok houseContext ∧
    (View.Format.ofName? "json").map (fun f => Context.ofFile "data" (f.write false housePage)) = some (.ok (extract housePage)) := by
  have hkeyed : houseContext.WellKeyed := by decide +kernel
  have hdepth : houseContext.toJson.depth ≤ 127 := by decide +kernel
  have hpage : (extract housePage).toJson.depth ≤ 127 := by decide +kernel
  exact ⟨⟨hkeyed, hdepth⟩, hpage, ofFile_extracted.1 houseContext true "data.json" hkeyed hdepth (by decide +kernel),
    ofFile_extracted.2.2 housePage false "data" hpage (by decide +kernel)⟩

end MarkupLens
