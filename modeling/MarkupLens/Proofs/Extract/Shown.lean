/-
What a page shows: the markers of its elements, each with the value that is
read off its element, in the order in which extraction reads them. What is
under a container is shown in the records of the container and not beside
it, so the list is that of one scope.

Of the values shown under one key the last is what the page tells for it
(`get?_told`). A page that was rendered shows a record only where the record
that it was rendered against has one (`record_of_shown`).
-/
import MarkupLens.Proofs.Extract.Marks

namespace MarkupLens

open Extract (Mark mark? marks ordered ownRecord)
open Markup (attributesOf)

variable {table : DirectiveTable}

/-- A marker with the value that is read off its element. -/
structure Shown where
  mark : Mark
  value : Value
  /-- the directive was carried out: a loop that was left as written is read as well -/
  carried : Bool
  deriving DecidableEq

namespace Shown

/-- The value shown last under a key. -/
def last? (key : Text) (l : List Shown) : Option Value :=
  Keyed.lookup key (l.map fun x => (x.mark.key, x.value)).reverse

theorem mem_of_last? {key : Text} {l : List Shown} {v : Value} (h : last? key l = some v) :
    ∃ x ∈ l, x.mark.key = key ∧ x.value = v := by
  have hmem := List.mem_reverse.1 (Keyed.mem_of_lookup h)
  obtain ⟨x, hx, he⟩ := List.mem_map.1 hmem
  exact ⟨x, hx, congrArg Prod.fst he, congrArg Prod.snd he⟩

theorem last?_append (key : Text) (l m : List Shown) : last? key (l ++ m) = (last? key m).or (last? key l) := by
  rw [last?, List.map_append, List.reverse_append, Keyed.lookup_append]
  rfl

theorem last?_singleton (key : Text) (x : Shown) :
    last? key [x] = if key = x.mark.key then some x.value else none := rfl

theorem isSome_last? {l : List Shown} {x : Shown} (h : x ∈ l) : (last? x.mark.key l).isSome = true := by
  obtain ⟨a, b, rfl⟩ := List.append_of_mem h
  rw [List.append_cons, last?_append, last?_append, last?_singleton, if_pos rfl]
  cases last? x.mark.key b <;> rfl

end Shown

namespace Extract

/-- What the markers of an element show, containers apart. -/
def shownBy (ms : List Mark) (attributes : Attributes) (children : List Node) (carried : Bool) : List Shown :=
  (ordered ms).map fun m => ⟨m, m.value attributes children, carried⟩

theorem get?_ownRecord (ms : List Mark) (attributes : Attributes) (children : List Node) (carried : Bool) (key : Text) :
    (ownRecord ms attributes children).get? key = Shown.last? key (shownBy ms attributes children carried) := by
  have hfold : ∀ (l : List Mark) (r : Context),
      (l.foldl (fun record m => record.insert m.key (m.value attributes children)) r).get? key =
        (Shown.last? key (l.map fun m => ⟨m, m.value attributes children, carried⟩)).or (r.get? key) := by
    intro l
    induction l with
    | nil => exact fun r => rfl
    | cons m l ih =>
      intro r
      rw [List.foldl_cons, ih, Context.get?_insert, List.map_cons, ← List.singleton_append, Shown.last?_append,
        Shown.last?_singleton, Option.or_assoc]
      split <;> rfl
  exact (hfold (ordered ms) .empty).trans (Option.or_none ..)

theorem value_ne_record (m : Mark) (attributes : Attributes) (children : List Node) (r : Context) :
    m.value attributes children ≠ .record r := by
  rw [Mark.value]
  split
  · exact Value.noConfusion
  · split <;> exact Value.noConfusion
  all_goals exact Value.noConfusion

end Extract

namespace PlainTag

/-- On a tag that was not rendered loops alone are read. -/
theorem binding_of_mem_marks {t : PlainTag} (h : t.WellFormed) (hd : t.Directed table) {m : Mark}
    (hm : m ∈ marks table (attributesOf t.opened)) : m.binding = .loop := by
  obtain ⟨a, ha, hmark⟩ := List.mem_filterMap.1 hm
  by_cases hstem : DirectiveKind.triggerStem <+: a.1
  · obtain ⟨s, hs⟩ := Option.isSome_iff_exists.1 (hd a ((mem_attributesOf h).1 ha) hstem)
    have hname : a.1 = s.kind.trigger := by rw [(site?_eq_some.1 hs).2.1]
    cases hk : table.byMarker? a.1 with
    | none => simp [mark?, hk] at hmark
    | some k =>
      have hfind : table.find? (·.isMarkedBy a.1) = some k := hk
      have hmarked : k.isMarkedBy a.1 = true := by simpa using List.find?_some hfind
      have hloop : k = .loop := DirectiveKind.eq_loop_of_isMarkedBy_trigger (hname ▸ hmarked)
      unfold mark? at hmark
      rw [hk, hloop] at hmark
      split at hmark
      · rename_i he _
        cases he
        split at hmark
        · cases hmark
          rfl
        · cases hmark
      · cases hmark
  · rw [mark?_eq_none hstem] at hmark
    cases hmark

end PlainTag

namespace Forest

/-- The record that a forest tells. -/
def told (table : DirectiveTable) (f : Forest) : Context := (f.records table).foldl Context.merge .empty

/-- The value that a container shows. -/
def held (table : DirectiveTable) (m : Mark) (children : Forest) : Value :=
  if m.binding = .loop then .list (children.records table) else .record (children.told table)

/-- What a tag shows by itself. -/
def shownOn (table : DirectiveTable) (tag : PlainTag) (children : Forest) : List Shown :=
  Extract.shownBy (marks table (attributesOf tag.opened)) (attributesOf tag.opened) (children.nodesAfter [])
    (tag.sites table).isEmpty

/-- What the elements of a forest show, in the order in which it is read. -/
def shown (table : DirectiveTable) : Forest → List Shown
  | .nil => []
  | .text _ rest | .comment _ rest => shown table rest
  | .element tag children rest =>
    shownOn table tag children ++
      ((match Extract.container? (marks table (attributesOf tag.opened)) with
        | none => shown table children
        | some m => [⟨m, held table m children, (tag.sites table).isEmpty⟩]) ++ shown table rest)

/-- What the children of a tag add to what it shows by itself. -/
def shownBelow (table : DirectiveTable) (tag : PlainTag) (children : Forest) : List Shown :=
  match Extract.container? (marks table (attributesOf tag.opened)) with
  | none => children.shown table
  | some m => [⟨m, held table m children, (tag.sites table).isEmpty⟩]

theorem shown_element (tag : PlainTag) (children rest : Forest) : (element tag children rest).shown table =
    shownOn table tag children ++ (shownBelow table tag children ++ rest.shown table) := rfl

theorem get?_foldl_records (f : Forest) (r : Context) (key : Text) :
    ((f.records table).foldl Context.merge r).get? key = (Shown.last? key (f.shown table)).or (r.get? key) := by
  induction f generalizing r with
  | nil => rfl
  | text s rest ih | comment s rest ih => exact ih r
  | element tag children rest ihc ihr =>
    have hrecord : (record table tag children).get? key =
        (Shown.last? key (shownBelow table tag children)).or (Shown.last? key (shownOn table tag children)) := by
      rw [shownOn, ← Extract.get?_ownRecord, record, shownBelow]
      cases hc : Extract.container? (marks table (attributesOf tag.opened)) with
      | none => simp only [Extract.ofNode, hc, mergeInto_nodesAfter, ihc]
      | some m =>
        simp only [Extract.ofNode, hc, ofEach_nodesAfter, mergeInto_nodesAfter, ← apply_ite, Context.get?_insert,
          Shown.last?_singleton, held, told]
        by_cases hk : key = m.key <;> simp [hk]
    have hmerged : (r.merge (record table tag children)).get? key = ((record table tag children).get? key).or (r.get? key) :=
      Context.get?_merge r (Extract.canonical_ofNode _) key
    rw [records, List.foldl_cons, ihr, hmerged, hrecord, shown_element, Shown.last?_append, Shown.last?_append,
      Option.or_assoc, Option.or_assoc, Option.or_assoc]

/-- **What a forest tells for a key** is what it shows last under it. -/
theorem get?_told (f : Forest) (key : Text) : (f.told table).get? key = Shown.last? key (f.shown table) := by
  rw [told, get?_foldl_records, Context.get?_empty, Option.or_none]

/-! ## Records -/

theorem value_ne_record_of_mem_shownOn {tag : PlainTag} {children : Forest} {x : Shown}
    (hx : x ∈ shownOn table tag children) (r : Context) : x.value ≠ .record r := by
  obtain ⟨m, -, rfl⟩ := List.mem_map.1 hx
  exact Extract.value_ne_record m _ _ r

/-- Forests that were not rendered show no records. -/
theorem value_ne_record_of_directed {f : Forest} (h : f.WellFormed) (hd : ∀ t ∈ f.tags, t.Directed table) {x : Shown}
    (hx : x ∈ f.shown table) (r : Context) : x.value ≠ .record r := by
  induction f with
  | nil => cases hx
  | text s rest ih => exact ih h.2 hd hx
  | comment s rest ih => exact ih h.2.2 hd hx
  | element tag children rest ihc ihr =>
    rw [shown_element, List.mem_append, List.mem_append] at hx
    rcases hx with hx | hx | hx
    · exact value_ne_record_of_mem_shownOn hx r
    · rw [shownBelow] at hx
      cases hc : Extract.container? (marks table (attributesOf tag.opened)) with
      | none =>
        rw [hc] at hx
        exact ihc h.2.2.1 (fun t ht => hd t (by simp [tags, ht])) hx
      | some m =>
        rw [hc, List.mem_singleton] at hx
        have hloop : m.binding = .loop :=
          PlainTag.binding_of_mem_marks h.1 (hd tag (by simp [tags])) (List.mem_of_find?_eq_some hc)
        rw [hx, held, if_pos hloop]
        exact Value.noConfusion
    · exact ihr h.2.2.2 (fun t ht => hd t (by simp [tags, ht])) hx

theorem record_of_scopes? {c : Context} {s : Site} {scopes : List Context} (h : s.scopes? c = some scopes)
    (hb : s.kind.binding ≠ .loop) : ∃ d, c.get? s.key = some (.record d) := by
  unfold Site.scopes? at h
  split at h
  · rename_i hloop _
    exact absurd hloop hb
  · rename_i d _ hd
    exact ⟨d, hd⟩
  · cases h

/-- A tag whose container was carried out shows under its key what its children are. -/
theorem shownBelow_of_container {tag : PlainTag} (hd : tag.Directed table) (hs : tag.Separate table) {c : Context}
    (hw : (tag.carriedOut table c).WellFormed) {s : Site} (hc : tag.container? table = some s) (g : Forest) :
    shownBelow table (tag.carriedOut table c) g =
      [⟨PlainTag.markOf s, held table (PlainTag.markOf s) g, true⟩] := by
  rw [shownBelow, PlainTag.container?_marks hd hs hw, hc, hs.sites_carriedOut]
  rfl

theorem shownBelow_of_no_container {tag : PlainTag} (hd : tag.Directed table) (hs : tag.Separate table) {c : Context}
    (hw : (tag.carriedOut table c).WellFormed) (hc : tag.container? table = none) (g : Forest) :
    shownBelow table (tag.carriedOut table c) g = g.shown table := by
  rw [shownBelow, PlainTag.container?_marks hd hs hw, hc]
  rfl

/-- **A page shows a record** only for a key that was bound to one. -/
theorem record_of_shown {f : Forest} (h : f.WellFormed) (hd : ∀ t ∈ f.tags, t.Directed table)
    (hs : ∀ t ∈ f.tags, t.Separate table) {c : Context} (ha : f.Admits table c) {x : Shown}
    (hx : x ∈ (f.evaluate table c).shown table) {r : Context} (hr : x.value = .record r) :
    ∃ d, c.get? x.mark.key = some (.record d) := by
  induction f with
  | nil => cases hx
  | text s rest ih => exact ih h.2 hd hs ha hx
  | comment s rest ih => exact ih h.2.2 hd hs ha hx
  | element tag children rest ihc ihr =>
    have hhead : Visit.StaysInPlace table ⟨c, tag, children⟩ := ha _ self_mem_visits
    have hdt : tag.Directed table := hd tag (by simp [tags])
    have hst : tag.Separate table := hs tag (by simp [tags])
    have hrest : x ∈ (rest.evaluate table c).shown table → ∃ d, c.get? x.mark.key = some (.record d) :=
      ihr h.2.2.2 (fun t ht => hd t (by simp [tags, ht])) (fun t ht => hs t (by simp [tags, ht]))
        fun v hv => ha v (mem_visits_of_rest hv)
    have hwell : tag.StaysWhole table c → (tag.carriedOut table c).WellFormed :=
      PlainTag.wellFormed_carriedOut h.1 hdt.unmarked
    rcases fate_cases table c tag children with
      ⟨s, _, _, hf⟩ | ⟨s, scopes, hc, _, hscopes, hf⟩ | ⟨u, hc, _, hf⟩ | ⟨hc, _, hf⟩
    all_goals
      simp only [evaluate, hf, shown_element, List.mem_append] at hx
      rcases hx with hx | hx | hx
      · exact absurd hr (value_ne_record_of_mem_shownOn hx r)
      rotate_left
      · exact hrest hx
    · have hraw : (element tag children .nil).WellFormed := ⟨h.1, h.2.1, h.2.2.1, trivial⟩
      refine absurd hr (value_ne_record_of_directed hraw (fun t ht => hd t ?_) (x := x) ?_ r)
      · simp only [tags, List.append_nil, List.mem_cons, List.mem_append] at ht ⊢
        exact ht.imp_right .inl
      · rw [shown_element, shown, List.append_nil]
        exact List.mem_append_right _ hx
    · simp only [Visit.StaysInPlace, hf] at hhead
      rw [shownBelow_of_container hdt hst (hwell hhead) hc, List.mem_singleton] at hx
      have hscope : (PlainTag.markOf s).binding ≠ .loop := by
        intro hloop
        rw [hx, held, if_pos hloop] at hr
        cases hr
      obtain ⟨d, hd⟩ := record_of_scopes? hscopes hscope
      exact ⟨d, hx ▸ hd⟩
    · simp only [Visit.StaysInPlace, hf] at hhead
      rw [shownBelow_of_no_container hdt hst (hwell hhead.1) hc] at hx
      cases hx
    · simp only [Visit.StaysInPlace, hf] at hhead
      rw [shownBelow_of_no_container hdt hst (hwell hhead) hc] at hx
      exact ihc h.2.2.1 (fun t ht => hd t (by simp [tags, ht])) (fun t ht => hs t (by simp [tags, ht]))
        (fun v hv => ha v (mem_visits_of_walked hf hv)) hx

end Forest

end MarkupLens
