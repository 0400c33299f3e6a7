/-
The markers that rendering leaves are read back as the directives that they
came from (`mem_marks`), and what extraction binds for each is what the
directive was bound to (`value_mark`), if that is a value that the directive
can show (`Recovers`).
-/
import MarkupLens.Proofs.Extract.Records
import MarkupLens.Proofs.Render.Stability

namespace MarkupLens

open Extract (Mark mark? marks ordered ownRecord)

variable {table : DirectiveTable}

/-- Values that what a directive leaves in a page can be told by. -/
def Binding.Recovers : Binding → Value → Prop
  | .content, .text t => '<' ∉ t ∧ Text.trim t = t
  | .attribute _, .text t => '"' ∉ t ∧ '>' ∉ t
  | .boolean _, .flag _ => True
  | .boolean _, .text t => t = []
  | .loop, .list _ => True
  | .scope, .record _ => True
  | _, _ => False

instance (b : Binding) (v : Value) : Decidable (b.Recovers v) := by
  cases b <;> cases v <;> simp only [Binding.Recovers] <;> infer_instance

/-! ## Attributes by name -/

namespace Markup

theorem mem_attributesOf {tag : OpenTag} {a : Text × Option Text} :
    a ∈ attributesOf tag ↔ Keyed.lookup a.1 (tag.attributes.map fun a => (a.name, a.value)) = some a.2 := by
  rw [← lookup_attributesOf]
  exact (Keyed.lookup_eq_some_iff (sorted_attributesOf tag).nodup).symm

end Markup

namespace PlainTag

open Markup (attributesOf)

theorem lookup_attributesOf (t : PlainTag) (name : Text) :
    Keyed.lookup name (attributesOf t.opened) = Keyed.lookup name t.attributes := by
  have hpairs : (t.opened.attributes.map fun a => (a.name, a.value)) = t.attributes := by
    simp [opened, Function.comp_def]
  rw [Markup.lookup_attributesOf, hpairs]

theorem mem_attributesOf {t : PlainTag} (h : t.WellFormed) {a : Text × Option Text} :
    a ∈ attributesOf t.opened ↔ a ∈ t.attributes := by
  rw [Markup.mem_attributesOf, ← Markup.lookup_attributesOf, lookup_attributesOf]
  exact Keyed.lookup_eq_some_iff h.distinct

/-! ## Markers -/

/-- Whatever starts like a trigger is a directive. -/
def Directed (table : DirectiveTable) (t : PlainTag) : Prop :=
  ∀ a ∈ t.attributes, DirectiveKind.triggerStem <+: a.1 → (site? table a).isSome = true

instance (table : DirectiveTable) (t : PlainTag) : Decidable (t.Directed table) :=
  inferInstanceAs (Decidable (∀ a ∈ t.attributes, DirectiveKind.triggerStem <+: a.1 → (site? table a).isSome = true))

theorem Directed.unmarked {t : PlainTag} (h : t.Directed table) : t.Unmarked table := by
  intro s _ a ha he
  have hstem : DirectiveKind.triggerStem <+: a.1 := he ▸ ⟨String.toList "Done" ++ s.kind.word, rfl⟩
  obtain ⟨s', hs'⟩ := Option.isSome_iff_exists.1 (h a ha hstem)
  have hn : a.1 = s'.kind.trigger := by rw [(site?_eq_some.1 hs').2.1]
  exact DirectiveKind.marker_ne_trigger s.kind s'.kind (he.symm.trans hn)

/-- On a tag that asks for no more than can be done, every directive is carried out. -/
theorem Separate.carries {t : PlainTag} (h : t.Separate table) {s : Site} (hs : s ∈ t.sites table) :
    PlainTag.carries (t.container? table) s = true := by
  have hleft := h.sites_carriedOut .empty
  rw [PlainTag.sites_carriedOut, left, List.filter_eq_nil_iff] at hleft
  simpa using hleft s hs

def markOf (s : Site) : Mark := ⟨s.kind.binding, s.key⟩

theorem mark?_marker {s : Site} (hk : s.kind ∈ table) (hw : Text.isWord s.key = true) :
    mark? table s.kind.marker (some s.key) = some (markOf s) := by
  simp [mark?, DirectiveTable.byMarker?_marker hk, hw, markOf]

theorem mark?_eq_none {name : Text} (h : ¬ DirectiveKind.triggerStem <+: name) (value : Option Text) :
    mark? table name value = none := by
  simp [mark?, DirectiveTable.byMarker?_eq_none h]

/-- **The markers of a tag** once its directives are carried out. -/
theorem mem_marks {t : PlainTag} (hd : t.Directed table) (hs : t.Separate table) {c : Context}
    (hw : (t.carriedOut table c).WellFormed) {m : Mark} :
    m ∈ marks table (attributesOf (t.carriedOut table c).opened) ↔ ∃ s ∈ t.sites table, m = markOf s := by
  rw [marks, List.mem_filterMap]
  constructor
  · rintro ⟨a, ha, hm⟩
    rw [mem_attributesOf hw] at ha
    rcases mem_carriedOut ha with ⟨s, hmem, -, hr⟩ | ⟨ha, -, hn⟩
    · rcases mem_results hr with ⟨ht, -⟩ | rfl
      · rw [mark?_eq_none (DirectiveKind.stem_not_prefix_target ht)] at hm
        cases hm
      · obtain ⟨hk, -, hkey⟩ := mem_sites.1 hmem
        rw [mark?_marker hk hkey] at hm
        exact ⟨s, hmem, (Option.some.inj hm).symm⟩
    · -- what was left starts like no trigger
      by_cases hstem : DirectiveKind.triggerStem <+: a.1
      · obtain ⟨s, hs'⟩ := Option.isSome_iff_exists.1 (hd a ha hstem)
        have hcarried := hs.carries (List.mem_filterMap.2 ⟨a, ha, hs'⟩)
        rw [hn s hs'] at hcarried
        cases hcarried
      · rw [mark?_eq_none hstem] at hm
        cases hm
  · rintro ⟨s, hmem, rfl⟩
    obtain ⟨hk, -, hkey⟩ := mem_sites.1 hmem
    have hr : (s.kind.marker, some s.key) ∈ s.results c := List.mem_append_right _ (List.mem_singleton.2 rfl)
    refine ⟨_, (mem_attributesOf hw).2 (results_mem_carriedOut hmem (hs.carries hmem) hr), ?_⟩
    exact mark?_marker hk hkey

theorem container?_marks {t : PlainTag} (hd : t.Directed table) (hs : t.Separate table) {c : Context}
    (hw : (t.carriedOut table c).WellFormed) :
    Extract.container? (marks table (attributesOf (t.carriedOut table c).opened)) =
      (t.container? table).map markOf := by
  cases hc : t.container? table with
  | none =>
    refine List.find?_eq_none.2 fun m hm => ?_
    obtain ⟨s, hmem, rfl⟩ := (mem_marks hd hs hw).1 hm
    exact List.find?_eq_none.1 hc s hmem
  | some s =>
    obtain ⟨hmem, hcont⟩ := mem_of_container? hc
    have hm := (mem_marks hd hs hw).2 ⟨s, hmem, rfl⟩
    cases hf : Extract.container? (marks table (attributesOf (t.carriedOut table c).opened)) with
    | none => exact absurd hcont (List.find?_eq_none.1 hf _ hm)
    | some m =>
      have hfind : (marks table (attributesOf (t.carriedOut table c).opened)).find? (·.binding.isContainer) = some m := hf
      have hcont' : m.binding.isContainer = true := by simpa using List.find?_some hfind
      obtain ⟨s', hmem', rfl⟩ := (mem_marks hd hs hw).1 (List.mem_of_find?_eq_some hfind)
      rw [(hs s hmem hcont).2 s' hmem' (.inl hcont'), Option.map_some]

/-! ## Values -/

/-- What is written for a flag is there, and where nothing is written nothing else has its name. -/
theorem lookup_flag {t : PlainTag} (h : t.WellFormed) {c : Context} (hw : (t.carriedOut table c).WellFormed) {s : Site}
    (hs : s ∈ t.sites table) (hc : carries (t.container? table) s = true) {name : Text}
    (hb : s.kind.binding = .boolean name) :
    (Keyed.lookup name (attributesOf (t.carriedOut table c).opened)).isSome = (c.get? s.key).any (Value.asksFor name) := by
  have htarget : s.kind.binding.target? = some name := by rw [hb]; rfl
  have hlookup : ∀ v, Keyed.lookup name (t.carriedOut table c).attributes = some v ↔
      (name, v) ∈ (t.carriedOut table c).attributes := fun v => Keyed.lookup_eq_some_iff hw.distinct
  rw [lookup_attributesOf]
  cases ha : (c.get? s.key).any (Value.asksFor name) with
  | true =>
    have hr : (name, none) ∈ s.results c := by simp [Site.results, Site.writes, hb, ha]
    rw [(hlookup none).2 (results_mem_carriedOut hs hc hr)]
    rfl
  | false =>
    rw [Option.isSome_eq_false_iff, Option.isNone_iff_eq_none]
    cases hl : Keyed.lookup name (t.carriedOut table c).attributes with
    | none => rfl
    | some v =>
      rcases mem_carriedOut ((hlookup v).1 hl) with ⟨s', hs', -, hr⟩ | ⟨-, hd, -⟩
      · rcases mem_results hr with ⟨ht, hwrites⟩ | he
        · -- only the flag itself writes its name
          obtain rfl := h.unique_site hs' hs (DirectiveKind.target_inj ht htarget)
          simp [Site.writes, hb, ha] at hwrites
        · exact absurd (congrArg Prod.fst he).symm (DirectiveKind.marker_ne_target htarget _)
      · have hnot := List.any_eq_false.1 hd name (mem_driven hs htarget)
        exact absurd (Text.sameName_refl name) hnot

theorem lookup_target {t : PlainTag} {c : Context} (hw : (t.carriedOut table c).WellFormed) {s : Site}
    (hs : s ∈ t.sites table) (hc : carries (t.container? table) s = true) {name : Text}
    (hb : s.kind.binding = .attribute name) :
    Keyed.lookup name (attributesOf (t.carriedOut table c).opened) = some (some ((s.text? c).getD [])) := by
  have hr : (name, some ((s.text? c).getD [])) ∈ s.results c := by simp [Site.results, Site.writes, hb]
  rw [lookup_attributesOf]
  exact (Keyed.lookup_eq_some_iff hw.distinct).2 (results_mem_carriedOut hs hc hr)

/-- A trimmed text that fills an element is read off its nodes. -/
theorem trim_contents_ofText {u : Text} (h : Text.trim u = u) : Text.trim (Node.contents (Node.ofText u)) = u := by
  by_cases hblank : Text.allBlank u = true
  · have hnil : u = [] := h ▸ Text.trim_of_allBlank hblank
    subst hnil
    rfl
  · have hnodes : Node.ofText u = [.text u] := by simp [Node.ofText, hblank]
    rw [hnodes, Node.contents, Node.contents, Node.content, List.append_nil, h]

/-- **What extraction binds** for a directive is what the directive was bound to. -/
theorem value_mark {t : PlainTag} (h : t.WellFormed) {c : Context} (hw : (t.carriedOut table c).WellFormed) {s : Site}
    (hs : s ∈ t.sites table) (hc : carries (t.container? table) s = true) {v : Value} (hv : c.get? s.key = some v)
    (hr : s.kind.binding.Recovers v) (hcont : s.isContainer = false) {children : List Node}
    (hcontent : ∀ u, s.kind.binding = .content → v = .text u → children = Node.ofText u) :
    (markOf s).value (attributesOf (t.carriedOut table c).opened) children = v.recovered := by
  have hbinding : (markOf s).binding = s.kind.binding := rfl
  cases hb : s.kind.binding with
  | content =>
    rw [hb] at hr
    cases v with
    | text u =>
      obtain ⟨-, htrim⟩ := hr
      rw [Mark.value, hbinding, hb, hcontent u hb rfl]
      simp only [trim_contents_ofText htrim, Value.recovered]
    | flag on | list items | record r => cases hr
  | loop | scope =>
    rw [Site.isContainer, hb] at hcont
    cases hcont
  | «attribute» name =>
    rw [hb] at hr
    cases v with
    | text u =>
      have htext : s.text? c = some u := by
        rw [Site.text?, hv]
        rfl
      rw [Mark.value, hbinding, hb]
      simp only [lookup_target hw hs hc hb, htext, Option.getD_some, Value.recovered]
    | flag on | list items | record r => cases hr
  | boolean name =>
    rw [hb] at hr
    rw [Mark.value, hbinding, hb]
    simp only [lookup_flag h hw hs hc hb, hv, Option.any_some]
    cases v with
    | flag on => cases on <;> rfl
    | text u =>
      obtain rfl : u = [] := hr
      have hne : name ≠ [] := DirectiveKind.target_ne_nil (k := s.kind) (by rw [hb]; rfl)
      have hasks : Value.asksFor name (.text []) = false := by simpa [Value.asksFor] using hne.symm
      simp [hasks, Value.recovered]
    | list items | record r => cases hr

end PlainTag

/-! ## An element's own record -/

namespace Extract

/-- An element's own record shows the keys of its marks, containers apart, if each is bound to what it gives. -/
theorem shows_ownRecord {c : Context} (ms : List Mark) (attributes : Attributes) (children : List Node)
    (h : ∀ m ∈ ms, m.binding.isContainer = false → c.get? m.key = some (m.value attributes children)) :
    c.Shows ((ordered ms).map (·.key)) (ownRecord ms attributes children) := by
  have hfold : ∀ (l : List Mark) (keys : List Text) (r : Context),
      (∀ m ∈ l, c.get? m.key = some (m.value attributes children)) → c.Shows keys r →
      c.Shows (l.map (·.key) ++ keys) (l.foldl (fun record m => record.insert m.key (m.value attributes children)) r) := by
    intro l
    induction l with
    | nil => exact fun keys r _ hr => hr
    | cons m l ih =>
      intro keys r hl hr
      rw [List.forall_mem_cons] at hl
      have hnext := ih (m.key :: keys) _ hl.2 (hr.insert hl.1)
      refine hnext.congr fun key => ?_
      simp only [List.map_cons, List.cons_append, List.mem_cons, List.mem_append]
      exact or_left_comm
  have hall := hfold (ordered ms) [] .empty (fun m hm => h m (mem_ordered.1 hm).1 (mem_ordered.1 hm).2) .empty
  rwa [List.append_nil] at hall

end Extract

end MarkupLens
