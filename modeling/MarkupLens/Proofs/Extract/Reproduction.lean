/-
A page is rendered again from what is read off it. What a directive falls
back on where nothing is bound to it (the text or the comment in its element,
an empty attribute, a flag that is not there) is read back as a value like
any other, and rendering the template against that value gives the same
bytes (`render_extracted`).

Three things stand in the way. A loop that was left as written is read as a
list and expanded the next time, so every loop that is reached has to
resolve. Directives of one scope that share a key are read into one value,
the one shown last, so this has to do for all of them (`Agrees`). And a text
that is put into an element is read back without the blanks at its ends.

The induction is over the template with two records, the one that it was
rendered against and the one that is read back (`Tells`), and goes from each
record of a container to what its part of the page tells.
-/
import MarkupLens.Proofs.Extract.Shown

namespace MarkupLens

open Extract (marks)
open Markup (attributesOf)
open PlainTag (markOf)

variable {table : DirectiveTable}

/-- A directive acts on both values alike. -/
def Binding.Alike : Binding → Value → Value → Prop
  | .content, v, w => v.asText? = w.asText?
  | .attribute _, v, w => v.asText?.getD [] = w.asText?.getD []
  | .boolean name, v, w => v.asksFor name = w.asksFor name
  | .loop, v, w | .scope, v, w => v = w

instance : (b : Binding) → (v w : Value) → Decidable (b.Alike v w)
  | .content, v, w => inferInstanceAs (Decidable (v.asText? = w.asText?))
  | .attribute _, v, w => inferInstanceAs (Decidable (v.asText?.getD [] = w.asText?.getD []))
  | .boolean name, v, w => inferInstanceAs (Decidable (v.asksFor name = w.asksFor name))
  | .loop, v, w | .scope, v, w => inferInstanceAs (Decidable (v = w))

theorem Site.binding_of_container {s : Site} (h : s.isContainer = true) (hb : s.kind.binding ≠ .loop) :
    s.kind.binding = .scope := by
  rw [Site.isContainer] at h
  cases hs : s.kind.binding with
  | scope => rfl
  | loop => exact absurd hs hb
  | content | «attribute» name | boolean name =>
    rw [hs] at h
    cases h

namespace Forest

/-! ## Bodies that are text -/

/-- Nothing but text, and maybe nothing. -/
def IsText : Forest → Prop
  | .nil => True
  | .text _ rest => IsText rest
  | .comment .. | .element .. => False

instance decidableIsText : (f : Forest) → Decidable f.IsText
  | .nil => isTrue trivial
  | .text _ rest => decidableIsText rest
  | .comment .. | .element .. => isFalse id

theorem IsText.evaluate {f : Forest} (h : f.IsText) (c : Context) : f.evaluate table c = f := by
  induction f with
  | nil => rfl
  | text s rest ih => rw [Forest.evaluate, ih h]
  | comment | element => cases h

theorem IsText.nodesAfter {f : Forest} (h : f.IsText) (pending : Text) :
    f.nodesAfter pending = Node.ofText (pending ++ f.written) := by
  induction f generalizing pending with
  | nil => rw [written_nil, List.append_nil, Forest.nodesAfter]
  | text s rest ih => rw [Forest.nodesAfter, ih h, written_text, List.append_assoc]
  | comment | element => cases h

theorem trim_placeholder? {f : Forest} {u : Text} (h : f.placeholder? = some u) : Text.trim u = u := by
  unfold placeholder? at h
  split at h
  · cases h
    exact Text.trim_trim _
  · cases h

/-! ## Templates that can be read back -/

/-- An element of which all that it falls back on can be read back: what starts like a trigger is a directive, a
container stands alone, content has a text without blanks at its ends or a lone comment in it, and what is repeated is
one element. -/
structure Reproducible (table : DirectiveTable) (tag : PlainTag) (children : Forest) : Prop where
  directed : tag.Directed table
  separate : tag.Separate table
  body : ∀ s ∈ tag.sites table, s.isContent = true → tag.hasBody = true ∧
    (children.IsText ∧ Text.trim children.written = children.written ∨ children.placeholder?.isSome = true)
  single : ∀ s ∈ tag.sites table, s.kind.binding = .loop → children.roots = 1

/-- The value that is shown last under the key of a directive does for it what the directive shows. -/
def Agrees (table : DirectiveTable) (page : Forest) : Prop :=
  ∀ x ∈ page.shown table, x.carried = true → ∀ w ∈ Shown.last? x.mark.key (page.shown table), x.mark.binding.Alike x.value w

/-- Directives that share no key agree. -/
theorem Agrees.of_nodup {page : Forest} (h : ((page.shown table).map (·.mark.key)).Nodup) : page.Agrees table := by
  intro x hx _ w hw
  have hkeys : (Keyed.keys ((page.shown table).map fun x => (x.mark.key, x.value))).Nodup := by
    rwa [Keyed.keys, List.map_map]
  rw [Option.mem_def, Shown.last?, Keyed.lookup_reverse hkeys,
    (Keyed.lookup_eq_some_iff hkeys).2 (List.mem_map.2 ⟨x, hx, rfl⟩)] at hw
  cases hw
  cases x.mark.binding <;> rfl

/-- What an element shows can be read back: the text that is put into it has no blanks at its ends, and the
directives of each record of a container agree. -/
structure Visit.Shows (table : DirectiveTable) (v : Visit) : Prop where
  trimmed : ∀ s ∈ v.tag.sites table, s.isContent = true → ∀ u ∈ s.text? v.scope, Text.trim u = u
  agrees : ∀ s ∈ v.tag.sites table, ∀ scopes ∈ s.scopes? v.scope, ∀ d ∈ scopes, (v.children.evaluate table d).Agrees table

/-- Every loop that is reached is bound to a list. -/
def LoopsResolve (table : DirectiveTable) (c : Context) (f : Forest) : Prop :=
  ∀ v ∈ f.visits table c, ∀ s ∈ v.tag.sites table, s.kind.binding = .loop → (s.scopes? v.scope).isSome = true

instance (tag : PlainTag) (children : Forest) : Decidable (Reproducible table tag children) :=
  decidable_of_iff (tag.Directed table ∧ tag.Separate table ∧
      (∀ s ∈ tag.sites table, s.isContent = true → tag.hasBody = true ∧
        (children.IsText ∧ Text.trim children.written = children.written ∨ children.placeholder?.isSome = true)) ∧
      ∀ s ∈ tag.sites table, s.kind.binding = .loop → children.roots = 1)
    ⟨fun ⟨h1, h2, h3, h4⟩ => ⟨h1, h2, h3, h4⟩, fun ⟨h1, h2, h3, h4⟩ => ⟨h1, h2, h3, h4⟩⟩

instance (page : Forest) : Decidable (page.Agrees table) :=
  inferInstanceAs (Decidable (∀ x ∈ page.shown table, x.carried = true →
    ∀ w ∈ Shown.last? x.mark.key (page.shown table), x.mark.binding.Alike x.value w))

instance (v : Visit) : Decidable (v.Shows table) :=
  decidable_of_iff ((∀ s ∈ v.tag.sites table, s.isContent = true → ∀ u ∈ s.text? v.scope, Text.trim u = u) ∧
      ∀ s ∈ v.tag.sites table, ∀ scopes ∈ s.scopes? v.scope, ∀ d ∈ scopes, (v.children.evaluate table d).Agrees table)
    ⟨fun ⟨h1, h2⟩ => ⟨h1, h2⟩, fun ⟨h1, h2⟩ => ⟨h1, h2⟩⟩

instance (table : DirectiveTable) (c : Context) (f : Forest) : Decidable (f.LoopsResolve table c) :=
  inferInstanceAs (Decidable (∀ v ∈ f.visits table c, ∀ s ∈ v.tag.sites table, s.kind.binding = .loop →
    (s.scopes? v.scope).isSome = true))

/-! ## Two records that directives act on alike -/

/-- The record does for each directive that was carried out what it shows. -/
def Answers (d : Context) (l : List Shown) : Prop :=
  ∀ x ∈ l, x.carried = true → ∃ w ∈ d.get? x.mark.key, x.mark.binding.Alike x.value w

theorem answers_append {d : Context} {l m : List Shown} : Answers d (l ++ m) ↔ Answers d l ∧ Answers d m :=
  List.forall_mem_append

/-- The record does for the directives of the page what they show, and binds records only where the other one does. -/
structure Tells (table : DirectiveTable) (d c : Context) (page : Forest) : Prop where
  answers : Answers d (page.shown table)
  record : ∀ key r, d.get? key = some (.record r) → ∃ r', c.get? key = some (.record r')

theorem tells_element {d c : Context} {tag : PlainTag} {g rest : Forest} :
    Tells table d c (element tag g rest) ↔
      Answers d (shownOn table tag g) ∧ Answers d (shownBelow table tag g) ∧ Tells table d c rest := by
  constructor
  · rintro ⟨h, hr⟩
    rw [shown_element, answers_append, answers_append] at h
    exact ⟨h.1, h.2.1, h.2.2, hr⟩
  · rintro ⟨h1, h2, h3, hr⟩
    refine ⟨?_, hr⟩
    rw [shown_element, answers_append, answers_append]
    exact ⟨h1, h2, h3⟩

/-- **What a page tells** does for its directives, if they agree. -/
theorem tells_told {f : Forest} (h : f.WellFormed) (hl : ∀ e ∈ f.elements, Reproducible table e.1 e.2) {c : Context}
    (ha : f.Admits table c) (hagrees : (f.evaluate table c).Agrees table) :
    Tells table ((f.evaluate table c).told table) c (f.evaluate table c) := by
  constructor
  · intro x hx hcarried
    obtain ⟨w, hw⟩ := Option.isSome_iff_exists.1 (Shown.isSome_last? hx)
    exact ⟨w, (get?_told _ _).trans hw, hagrees x hx hcarried w hw⟩
  · intro key r hr
    rw [get?_told] at hr
    obtain ⟨x, hx, rfl, hv⟩ := Shown.mem_of_last? hr
    exact record_of_shown h (forall_tags fun e he => (hl e he).directed) (forall_tags fun e he => (hl e he).separate) ha
      hx hv

/-! ## Tags -/

section tags

variable {tag : PlainTag} {children g : Forest} {c d : Context} {s : Site}

/-- A directive that is carried out is shown with the value that its marker gives. -/
theorem mem_shownOn (hd : tag.Directed table) (hs : tag.Separate table) (hw : (tag.carriedOut table c).WellFormed)
    (hmem : s ∈ tag.sites table) (hcont : s.isContainer = false) :
    ⟨markOf s, (markOf s).value (attributesOf (tag.carriedOut table c).opened) (g.nodesAfter []), true⟩ ∈
      shownOn table (tag.carriedOut table c) g := by
  have hmark : markOf s ∈ marks table (attributesOf (tag.carriedOut table c).opened) :=
    (PlainTag.mem_marks hd hs hw).2 ⟨s, hmem, rfl⟩
  have hsites : ((tag.carriedOut table c).sites table).isEmpty = true := by rw [hs.sites_carriedOut]; rfl
  rw [shownOn, hsites]
  exact List.mem_map.2 ⟨_, Extract.mem_ordered.2 ⟨hmark, hcont⟩, rfl⟩

/-- **A directive writes the same again** for a value that does what it shows. -/
theorem writes_eq (h : tag.WellFormed) (hw : (tag.carriedOut table c).WellFormed) (hmem : s ∈ tag.sites table)
    (hcarries : PlainTag.carries (tag.container? table) s = true) {nodes : List Node} {w : Value}
    (hget : d.get? s.key = some w) (halike : s.kind.binding.Alike
      ((markOf s).value (attributesOf (tag.carriedOut table c).opened) nodes) w) : s.writes d = s.writes c := by
  have hbinding : (markOf s).binding = s.kind.binding := rfl
  have htext : s.text? d = w.asText? := by rw [Site.text?, hget]; rfl
  cases hb : s.kind.binding with
  | content | loop | scope => simp only [Site.writes, hb]
  | «attribute» name =>
    rw [hb, Extract.Mark.value, hbinding, hb] at halike
    simp only [PlainTag.lookup_target hw hmem hcarries hb, Option.getD_some] at halike
    have hsame : (s.text? c).getD [] = (s.text? d).getD [] := htext ▸ halike
    simp only [Site.writes, hb, hsame]
  | boolean name =>
    have hne : name ≠ [] := DirectiveKind.target_ne_nil (k := s.kind) (by rw [hb]; rfl)
    have hasks : Value.asksFor name ((markOf s).value (attributesOf (tag.carriedOut table c).opened) nodes) =
        (c.get? s.key).any (Value.asksFor name) := by
      rw [Extract.Mark.value, hbinding, hb]
      simp only [PlainTag.lookup_flag h hw hmem hcarries hb]
      cases (c.get? s.key).any (Value.asksFor name) with
      | true => rfl
      | false => simpa [Value.asksFor] using hne.symm
    rw [hb] at halike
    have hsame : (c.get? s.key).any (Value.asksFor name) = Value.asksFor name w := hasks.symm.trans halike
    simp only [Site.writes, hb, hget, Option.any_some, hsame]

/-- **A tag is written the same again** if the record does for its directives what they show. -/
theorem carriedOut_eq (h : tag.WellFormed) (hl : Reproducible table tag children)
    (hw : (tag.carriedOut table c).WellFormed) (ht : Answers d (shownOn table (tag.carriedOut table c) g)) :
    tag.carriedOut table d = tag.carriedOut table c := by
  refine PlainTag.carriedOut_congr fun s hs => ?_
  cases hcont : s.isContainer with
  | true =>
    rw [Site.isContainer] at hcont
    cases hb : s.kind.binding with
    | loop | scope => simp only [Site.writes, hb]
    | content | «attribute» name | boolean name =>
      rw [hb] at hcont
      cases hcont
  | false =>
    obtain ⟨w, hget, halike⟩ := ht _ (mem_shownOn hl.directed hl.separate hw hs hcont) rfl
    exact writes_eq h hw hs (hl.separate.carries hs) hget halike

/-! ## Fates -/

/-- Content is bound to what stands in its element. -/
theorem text?_of_shownOn (hl : Reproducible table tag children) (hw : (tag.carriedOut table c).WellFormed)
    (ht : Answers d (shownOn table (tag.carriedOut table c) g))
    (hmem : s ∈ tag.sites table) (hcontent : s.isContent = true) :
    s.text? d = some (Text.trim (Node.contents (g.nodesAfter []))) := by
  have hb : s.kind.binding = .content := Site.isContent_iff.1 hcontent
  have hcont : s.isContainer = false := by rw [Site.isContainer, hb]; rfl
  obtain ⟨w, hget, halike⟩ := ht _ (mem_shownOn hl.directed hl.separate hw hmem hcont) rfl
  have hbinding : (markOf s).binding = .content := hb
  rw [hbinding, Extract.Mark.value, hbinding] at halike
  rw [Site.text?, show d.get? s.key = some w from hget]
  exact halike.symm

/-- **A container takes what its children tell,** once for each record that they were evaluated in. -/
theorem scopes?_of_shownBelow (hl : Reproducible table tag children) (hw : (tag.carriedOut table c).WellFormed)
    {scopes : List Context} (hc : tag.container? table = some s) (hs : s.scopes? c = some scopes)
    (ht : Answers d (shownBelow table (tag.carriedOut table c) (concat (scopes.map fun e => children.evaluate table e)))) :
    s.scopes? d = some (scopes.map fun e => (children.evaluate table e).told table) := by
  have hmem := (PlainTag.mem_of_container? hc).1
  rw [shownBelow_of_container hl.directed hl.separate hw hc] at ht
  obtain ⟨w, hget, halike⟩ := ht _ (List.mem_singleton.2 rfl) rfl
  have hbinding : (markOf s).binding = s.kind.binding := rfl
  have hget' : d.get? s.key = some w := hget
  unfold Site.scopes? at hs
  split at hs
  · rename_i items hb hv
    obtain rfl : items = scopes := Option.some.inj hs
    rw [hbinding, hb] at halike
    have hw' : held table (markOf s) (concat (items.map fun e => children.evaluate table e)) = w := halike
    rw [held, hbinding, if_pos hb, records_repeated (hl.single s hmem hb)] at hw'
    simp only [Site.scopes?, hb, hget', ← hw']
    rfl
  · rename_i r hb hv
    cases hs
    rw [hbinding, hb] at halike
    have hw' : held table (markOf s) (concat ([r].map fun e => children.evaluate table e)) = w := halike
    rw [held, hbinding, hb, if_neg Binding.noConfusion] at hw'
    have hone : concat ([r].map fun e => children.evaluate table e) = children.evaluate table r := by simp [concat]
    simp only [Site.scopes?, hb, hget', ← hw', hone]
    rfl
  · cases hs

/-- No loop keeps the element, and no record is read back for what does. -/
theorem fate_again_of_kept (hs : tag.Separate table) (hc : tag.container? table = some s)
    (hk : tag.hasBody = true → s.scopes? c = none) (hloop : s.kind.binding = .loop → (s.scopes? c).isSome = true)
    (hrecord : ∀ key r, d.get? key = some (.record r) → ∃ r', c.get? key = some (.record r')) :
    fate table d tag children = .kept := by
  obtain ⟨hmem, hcont⟩ := PlainTag.mem_of_container? hc
  have hnone : s.scopes? c = none := hk (hs s hmem hcont).1
  have hne : s.kind.binding ≠ .loop := fun hb => by simp [hnone] at hloop; exact hloop hb
  refine fate_kept hc fun _ => ?_
  cases hscopes : s.scopes? d with
  | none => rfl
  | some scopes =>
    obtain ⟨r, hr⟩ := record_of_scopes? hscopes hne
    obtain ⟨r', hr'⟩ := hrecord _ _ hr
    simp [Site.scopes?, Site.binding_of_container hcont hne, hr'] at hnone

theorem fate_again_of_filled (hl : Reproducible table tag children) (hw : (tag.carriedOut table c).WellFormed)
    (htrim : ∀ s ∈ tag.sites table, s.isContent = true → ∀ u ∈ s.text? c, Text.trim u = u)
    (hc : tag.container? table = none) {u : Text} (hfill : filling? table c tag children = some u)
    (ht : Answers d (shownOn table (tag.carriedOut table c) (.text u .nil))) :
    fate table d tag children = .filled u := by
  refine fate_filled hc ?_
  unfold filling? at hfill ⊢
  split at hfill
  · rename_i hb
    rw [if_pos hb]
    obtain ⟨s, hs, hu⟩ := Option.bind_eq_some_iff.1 hfill
    have hmem : s ∈ tag.sites table := List.mem_of_find?_eq_some hs
    have hcontent : s.isContent = true := List.find?_some hs
    have hu' : Text.trim u = u := by
      rcases Option.or_eq_some_iff.1 hu with hbound | ⟨-, hcomment⟩
      · exact htrim s hmem hcontent u hbound
      · exact trim_placeholder? hcomment
    have htext : s.text? d = some u := by
      rw [text?_of_shownOn hl hw ht hmem hcontent]
      exact congrArg some (PlainTag.trim_contents_ofText hu')
    rw [hs, Option.bind_some, htext, Option.some_or]
  · cases hfill

/-- The text of an element that was walked is read back, if it is content, and put in its own place. -/
theorem fate_again_of_walked (hl : Reproducible table tag children) (hw : (tag.carriedOut table c).WellFormed)
    (hc : tag.container? table = none) (hfill : filling? table c tag children = none)
    (ht : Answers d (shownOn table (tag.carriedOut table c) (children.evaluate table c))) :
    fate table d tag children = .walked ∨ children.IsText ∧ fate table d tag children = .filled children.written := by
  cases hs : tag.content? table with
  | none => exact .inl (fate_walked hc (by simp [filling?, hs]))
  | some s =>
    have hmem : s ∈ tag.sites table := List.mem_of_find?_eq_some hs
    have hcontent : s.isContent = true := List.find?_some hs
    obtain ⟨hb, hbody⟩ := hl.body s hmem hcontent
    simp only [filling?, hb, if_true, hs, Option.bind_some, Option.or_eq_none_iff] at hfill
    obtain ⟨htext, htrim⟩ : children.IsText ∧ Text.trim children.written = children.written := by
      rcases hbody with htext | hcomment
      · exact htext
      · rw [hfill.2] at hcomment
        cases hcomment
    have hread : s.text? d = some children.written := by
      rw [text?_of_shownOn hl hw ht hmem hcontent, htext.evaluate, htext.nodesAfter, List.nil_append]
      exact congrArg some (PlainTag.trim_contents_ofText htrim)
    exact .inr ⟨htext, fate_filled hc (by simp [filling?, hb, hs, hread])⟩

end tags

theorem written_element_congr {tag : PlainTag} {g g' rest rest' : Forest} (hg : g.written = g'.written)
    (hr : rest.written = rest'.written) : (element tag g rest).written = (element tag g' rest').written := by
  cases hb : tag.hasBody with
  | true => rw [written_element hb, written_element hb, hg, hr]
  | false => rw [written_childless hb, written_childless hb, hg, hr]

/-! ## The page again -/

/-- **A forest is evaluated to the same page** in a record that does for the directives of the page what they show. -/
theorem written_evaluate_of_tells {f : Forest} (h : f.WellFormed) (hl : ∀ e ∈ f.elements, Reproducible table e.1 e.2)
    {c : Context} (hv : ∀ v ∈ f.visits table c, v.Shows table) (hr : f.LoopsResolve table c) (ha : f.Admits table c)
    {d : Context} (ht : Tells table d c (f.evaluate table c)) :
    (f.evaluate table d).written = (f.evaluate table c).written := by
  induction f generalizing c d with
  | nil => rfl
  | text s rest ih => exact congrArg (s ++ ·) (ih h.2 hl hv hr ha ⟨ht.answers, ht.record⟩)
  | comment s rest ih => exact congrArg ("<!--" ++ s ++ "-->" ++ ·) (ih h.2.2 hl hv hr ha ⟨ht.answers, ht.record⟩)
  | element tag children rest ihc ihr =>
    obtain ⟨htag, -, hch, hrest⟩ := h
    simp only [elements, List.forall_mem_cons, List.forall_mem_append] at hl
    obtain ⟨hhead, hlc, hlr⟩ := hl
    have hplace : Visit.StaysInPlace table ⟨c, tag, children⟩ := ha _ self_mem_visits
    have hshows : Visit.Shows table ⟨c, tag, children⟩ := hv _ self_mem_visits
    have hwell : tag.StaysWhole table c → (tag.carriedOut table c).WellFormed :=
      PlainTag.wellFormed_carriedOut htag hhead.directed.unmarked
    have hagain : Tells table d c (rest.evaluate table c) →
        (rest.evaluate table d).written = (rest.evaluate table c).written :=
      ihr hrest hlr (fun v hm => hv v (mem_visits_of_rest hm)) (fun v hm => hr v (mem_visits_of_rest hm))
        (fun v hm => ha v (mem_visits_of_rest hm))
    rcases fate_cases table c tag children with
      ⟨s, hc, hk, hf⟩ | ⟨s, scopes, hc, hb, hscopes, hf⟩ | ⟨u, hc, hfill, hf⟩ | ⟨hc, hfill, hf⟩
    all_goals
      simp only [Visit.StaysInPlace, hf] at hplace
      simp only [evaluate, hf, tells_element] at ht
      obtain ⟨hon, hbelow, ht⟩ := ht
    · have hloop := hr _ self_mem_visits s (PlainTag.mem_of_container? hc).1
      have hf' : fate table d tag children = .kept := fate_again_of_kept hhead.separate hc hk hloop ht.record
      simp only [evaluate, hf, hf']
      exact written_element_congr rfl (hagain ht)
    · have hscopes' := scopes?_of_shownBelow hhead (hwell hplace) hc hscopes hbelow
      have hf' : fate table d tag children = .expanded _ := fate_expanded hc hb hscopes'
      simp only [evaluate, hf, hf', carriedOut_eq htag hhead (hwell hplace) hon, List.map_map]
      refine written_element_congr ?_ (hagain ht)
      rw [written_concat, written_concat, List.flatMap_map, List.flatMap_map, List.flatMap_def, List.flatMap_def]
      refine congrArg List.flatten (List.map_congr_left fun e he => ?_)
      have hbelow' : ∀ {v}, v ∈ children.visits table e → v ∈ (element tag children rest).visits table c :=
        mem_visits_of_scope hf he
      have hagrees := hshows.agrees s (PlainTag.mem_of_container? hc).1 scopes hscopes e he
      exact ihc hch hlc (fun v hm => hv v (hbelow' hm)) (fun v hm => hr v (hbelow' hm)) (fun v hm => ha v (hbelow' hm))
        (tells_told hch hlc (fun v hm => ha v (hbelow' hm)) hagrees)
    · have hf' := fate_again_of_filled hhead (hwell hplace.1) hshows.trimmed hc hfill hon
      simp only [evaluate, hf, hf', carriedOut_eq htag hhead (hwell hplace.1) hon]
      exact written_element_congr rfl (hagain ht)
    · have htag' := carriedOut_eq htag hhead (hwell hplace) hon
      rcases fate_again_of_walked hhead (hwell hplace) hc hfill hon with hf' | ⟨htext, hf'⟩
      · simp only [evaluate, hf, hf', htag']
        rw [shownBelow_of_no_container hhead.directed hhead.separate (hwell hplace) hc] at hbelow
        have hbelow' : ∀ {v}, v ∈ children.visits table c → v ∈ (element tag children rest).visits table c :=
          mem_visits_of_walked hf
        refine written_element_congr ?_ (hagain ht)
        exact ihc hch hlc (fun v hm => hv v (hbelow' hm)) (fun v hm => hr v (hbelow' hm)) (fun v hm => ha v (hbelow' hm))
          ⟨hbelow, ht.record⟩
      · simp only [evaluate, hf, hf', htag', htext.evaluate]
        exact written_element_congr (List.append_nil _) (hagain ht)

/-- **The context that is read off a page gives the page again,** whatever the context lacked that it was rendered
against, provided every loop that is reached resolves and the directives of each scope agree on what is read back. -/
theorem render_extracted (table : DirectiveTable) {f : Forest} (h : f.WellFormed)
    (hl : ∀ e ∈ f.elements, Reproducible table e.1 e.2) {c : Context} (ha : f.Admits table c)
    (hv : ∀ v ∈ f.visits table c, v.Shows table) (hr : f.LoopsResolve table c)
    (hagrees : (f.evaluate table c).Agrees table) :
    Render.renderWith table (Extract.extractWith table (Render.renderWith table c f.written)) f.written =
      Render.renderWith table c f.written := by
  have htidy : f.Tidy table := ⟨h, forall_tags fun e he => (hl e he).directed.unmarked⟩
  have hextract : Extract.extractWith table (f.evaluate table c).written = (f.evaluate table c).told table :=
    extractWith_written (htidy.evaluate ha).wellFormed
  rw [render_written h c, hextract, render_written h]
  exact written_evaluate_of_tells h hl hv hr ha (tells_told h hl ha hagrees)

/-- Entries with a label and a box to tick, a card with a name, and a note that is an element of its own. -/
def entryPage : Forest :=
  .element ⟨"div", [("class", some "plain"), ("data-nyanClass", some "look")], false⟩
    (.element ⟨"ul", [("data-nyanLoop", some "entries")], false⟩
      (.text " " (.element ⟨"li", [], false⟩
        (.element ⟨"b", [("data-nyanString", some "label")], false⟩ (.comment " no label " .nil)
          (.element ⟨"input", [("data-nyanChecked", some "done")], false⟩ .nil .nil)) .nil))
      (.element ⟨"p", [("data-nyanHtml", some "card")], false⟩
        (.element ⟨"i", [("data-nyanString", some "name")], false⟩ (.text "nobody" .nil) .nil)
        (.element ⟨"p", [("data-nyanHtml", some "note")], false⟩
          (.element ⟨"i", [("data-nyanString", some "name")], false⟩ (.text "nothing" .nil) .nil) .nil))) .nil

/-- Two entries, the second one empty, an empty card, and neither a look nor a note. -/
def twoEntries : Context :=
  .ofList [("card", .record .empty), ("entries", .list [.ofList [("label", .flag true), ("done", .text "checked")], .empty])]

theorem render_extracted_entryPage :
    (entryPage.WellFormed ∧ (∀ e ∈ entryPage.elements, Reproducible .standard e.1 e.2) ∧
      entryPage.Admits .standard twoEntries ∧ (∀ v ∈ entryPage.visits .standard twoEntries, v.Shows .standard) ∧
      entryPage.LoopsResolve .standard twoEntries ∧ (entryPage.evaluate .standard twoEntries).Agrees .standard) ∧
    Render.renderWith .standard (Extract.extractWith .standard (Render.renderWith .standard twoEntries entryPage.written))
        entryPage.written = Render.renderWith .standard twoEntries entryPage.written := by
  have hwell : entryPage.WellFormed := by decide +kernel
  have hreproducible : ∀ e ∈ entryPage.elements, Reproducible .standard e.1 e.2 := by decide +kernel
  have hplain : twoEntries.Plain := by decide +kernel
  have hadmits : entryPage.Admits .standard twoEntries := .of_plain hwell hplain
  have hshows : ∀ v ∈ entryPage.visits .standard twoEntries, v.Shows .standard := by decide +kernel
  have hresolve : entryPage.LoopsResolve .standard twoEntries := by decide +kernel
  have hagrees : (entryPage.evaluate .standard twoEntries).Agrees .standard := .of_nodup (by decide +kernel)
  exact ⟨⟨hwell, hreproducible, hadmits, hshows, hresolve, hagrees⟩,
    render_extracted .standard hwell hreproducible hadmits hshows hresolve hagrees⟩

/-- A list of entries that is left as written where nothing is bound to it. -/
def bareList : Forest :=
  .element ⟨"ul", [("data-nyanLoop", some "rows")], false⟩ (.element ⟨"li", [], false⟩ (.text "x" .nil) .nil) .nil

/-- An element with a text of its own and no class, both under one key. -/
def sharedKey : Forest :=
  .element ⟨"p", [("data-nyanString", some "k"), ("data-nyanClass", some "k")], false⟩ (.text "x" .nil) .nil

/-- An element with a label. -/
def labelled : Forest := .element ⟨"p", [("data-nyanString", some "k")], false⟩ (.text "x" .nil) .nil

/-- The list is read back as one entry and expanded; the class is read last and empties the element; a text comes back
without its blanks. -/
theorem render_extracted_bareList :
    (bareList.WellFormed ∧ (∀ e ∈ bareList.elements, Reproducible .standard e.1 e.2) ∧
      Render.render (Extract.extract (Render.render .empty bareList.written)) bareList.written ≠
        Render.render .empty bareList.written) ∧
    (sharedKey.WellFormed ∧ (∀ e ∈ sharedKey.elements, Reproducible .standard e.1 e.2) ∧
      Render.render (Extract.extract (Render.render .empty sharedKey.written)) sharedKey.written ≠
        Render.render .empty sharedKey.written) ∧
    (labelled.WellFormed ∧ (∀ e ∈ labelled.elements, Reproducible .standard e.1 e.2) ∧
      Render.render (Extract.extract (Render.render (.ofList [("k", .text " y ")]) labelled.written)) labelled.written ≠
        Render.render (.ofList [("k", .text " y ")]) labelled.written) := by
  decide +kernel

end Forest

end MarkupLens
