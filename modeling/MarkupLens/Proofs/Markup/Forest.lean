/-
Markup in the plain style as a sequence of trees: runs of text, comments and
elements. A forest is what it starts with and the rest, so every rule about
it is one recursion on its first tree and what follows.

A forest that is well formed is what its text is cut into: the tokens of the
written forest are its pieces, adjacent runs of text as one
(`tokens_written`).
-/
import MarkupLens.Proofs.Markup.PlainTag

namespace MarkupLens

/-- A sequence of trees, by its first one. -/
inductive Forest where
  | nil
  | text (text : Text) (rest : Forest)
  | comment (text : Text) (rest : Forest)
  | element (tag : PlainTag) (children rest : Forest)
  deriving DecidableEq, Repr

namespace Forest

def append : Forest → Forest → Forest
  | .nil, g => g
  | .text s rest, g => .text s (append rest g)
  | .comment s rest, g => .comment s (append rest g)
  | .element tag children rest, g => .element tag children (append rest g)

instance : Append Forest := ⟨append⟩

def concat : List Forest → Forest
  | [] => .nil
  | f :: fs => f ++ concat fs

/-- The trees as tokens. -/
def pieces : Forest → List Token
  | .nil => []
  | .text s rest => ⟨.text, s⟩ :: pieces rest
  | .comment s rest => ⟨.comment, "<!--" ++ s ++ "-->"⟩ :: pieces rest
  | .element tag children rest =>
    tag.openToken :: (pieces children ++ if tag.hasBody then tag.closeToken :: pieces rest else pieces rest)

def written (f : Forest) : Text := Token.source f.pieces

/-- The open tags, in the order of the text. -/
def tags : Forest → List PlainTag
  | .nil => []
  | .text _ rest | .comment _ rest => tags rest
  | .element tag children rest => tag :: (tags children ++ tags rest)

/-- The elements, each as its tag and its children, in the order of the text. -/
def elements : Forest → List (PlainTag × Forest)
  | .nil => []
  | .text _ rest | .comment _ rest => elements rest
  | .element tag children rest => (tag, children) :: (elements children ++ elements rest)

/-- Text holds no `<`, comments neither that nor their own ending, tags are well formed, and elements
without a body have no children. -/
def WellFormed : Forest → Prop
  | .nil => True
  | .text s rest => '<' ∉ s ∧ WellFormed rest
  | .comment s rest => '<' ∉ s ∧ Text.holds "-->" s = false ∧ WellFormed rest
  | .element tag children rest =>
    tag.WellFormed ∧ (tag.hasBody = false → children = .nil) ∧ WellFormed children ∧ WellFormed rest

instance decidableWellFormed : (f : Forest) → Decidable f.WellFormed
  | .nil => inferInstanceAs (Decidable True)
  | .text _ rest =>
    have := decidableWellFormed rest
    inferInstanceAs (Decidable (_ ∧ _))
  | .comment _ rest =>
    have := decidableWellFormed rest
    inferInstanceAs (Decidable (_ ∧ _ ∧ _))
  | .element _ children rest =>
    have := decidableWellFormed children
    have := decidableWellFormed rest
    inferInstanceAs (Decidable (_ ∧ (_ → _) ∧ _ ∧ _))

/-! ## Appending -/

@[simp] theorem nil_append (g : Forest) : nil ++ g = g := rfl

@[simp] theorem text_append (s : Text) (f g : Forest) : text s f ++ g = text s (f ++ g) := rfl

@[simp] theorem comment_append (s : Text) (f g : Forest) : comment s f ++ g = comment s (f ++ g) := rfl

@[simp] theorem element_append (t : PlainTag) (children f g : Forest) :
    element t children f ++ g = element t children (f ++ g) := rfl

@[simp] theorem append_nil (f : Forest) : f ++ nil = f := by
  induction f with
  | nil => rfl
  | text s rest ih | comment s rest ih => simp [ih]
  | element tag children rest _ ih => simp [ih]

@[simp] theorem pieces_append (f g : Forest) : (f ++ g).pieces = f.pieces ++ g.pieces := by
  induction f with
  | nil => rfl
  | text s rest ih | comment s rest ih => simp [pieces, ih]
  | element tag children rest _ ih => cases h : tag.hasBody <;> simp [pieces, h, ih]

@[simp] theorem tags_append (f g : Forest) : (f ++ g).tags = f.tags ++ g.tags := by
  induction f with
  | nil => rfl
  | text s rest ih | comment s rest ih => simp [tags, ih]
  | element tag children rest _ ih => simp [tags, ih]

theorem tags_concat (fs : List Forest) : (concat fs).tags = fs.flatMap tags := by
  induction fs with
  | nil => rfl
  | cons f fs ih => simp [concat, ih]

theorem WellFormed.append {f g : Forest} (hf : f.WellFormed) (hg : g.WellFormed) : (f ++ g).WellFormed := by
  induction f with
  | nil => exact hg
  | text s rest ih => exact ⟨hf.1, ih hf.2⟩
  | comment s rest ih => exact ⟨hf.1, hf.2.1, ih hf.2.2⟩
  | element tag children rest _ ih => exact ⟨hf.1, hf.2.1, hf.2.2.1, ih hf.2.2.2⟩

theorem WellFormed.concat {fs : List Forest} (h : ∀ f ∈ fs, f.WellFormed) : (concat fs).WellFormed := by
  induction fs with
  | nil => trivial
  | cons f fs ih => exact (h f (by simp)).append (ih fun g hg => h g (by simp [hg]))

theorem map_elements (f : Forest) : f.elements.map (·.1) = f.tags := by
  induction f with
  | nil => rfl
  | text s rest ih | comment s rest ih => exact ih
  | element tag children rest ihc ihr => simp [elements, tags, ihc, ihr]

theorem forall_tags {P : PlainTag → Prop} {f : Forest} (h : ∀ e ∈ f.elements, P e.1) : ∀ t ∈ f.tags, P t := by
  intro t ht
  rw [← map_elements] at ht
  obtain ⟨e, he, rfl⟩ := List.mem_map.1 ht
  exact h e he

theorem WellFormed.element {f : Forest} (h : f.WellFormed) {e : PlainTag × Forest} (he : e ∈ f.elements) :
    e.1.WellFormed ∧ (e.1.hasBody = false → e.2 = .nil) ∧ e.2.WellFormed := by
  induction f with
  | nil => cases he
  | text s rest ih => exact ih h.2 he
  | comment s rest ih => exact ih h.2.2 he
  | element tag children rest ihc ihr =>
    obtain ⟨htag, hnil, hc, hr⟩ := h
    simp only [elements, List.mem_cons, List.mem_append] at he
    rcases he with rfl | he | he
    · exact ⟨htag, hnil, hc⟩
    · exact ihc hc he
    · exact ihr hr he

theorem WellFormed.tag {f : Forest} (h : f.WellFormed) {t : PlainTag} (ht : t ∈ f.tags) : t.WellFormed := by
  rw [← map_elements] at ht
  obtain ⟨e, he, rfl⟩ := List.mem_map.1 ht
  exact (h.element he).1

/-! ## The text of a forest -/

@[simp] theorem written_nil : nil.written = [] := rfl

@[simp] theorem written_text (s : Text) (f : Forest) : (text s f).written = s ++ f.written := rfl

@[simp] theorem written_comment (s : Text) (f : Forest) :
    (comment s f).written = "<!--" ++ s ++ "-->" ++ f.written := rfl

theorem written_element {tag : PlainTag} (h : tag.hasBody = true) (children rest : Forest) :
    (element tag children rest).written =
      tag.written ++ children.written ++ tag.closeToken.text ++ rest.written := by
  simp [written, pieces, h, PlainTag.openToken]

theorem written_childless {tag : PlainTag} (h : tag.hasBody = false) (children rest : Forest) :
    (element tag children rest).written = tag.written ++ children.written ++ rest.written := by
  simp [written, pieces, h, PlainTag.openToken]

@[simp] theorem written_append (f g : Forest) : (f ++ g).written = f.written ++ g.written := by
  simp [written]

theorem written_concat (fs : List Forest) : (concat fs).written = fs.flatMap written := by
  induction fs with
  | nil => rfl
  | cons f fs ih => simp [concat, ih]

/-! ## The tokens of a forest -/

theorem whole_of_mem_pieces {f : Forest} (h : f.WellFormed) {t : Token} (ht : t ∈ f.pieces) : t.Whole := by
  induction f with
  | nil => cases ht
  | text s rest ih =>
    rcases List.mem_cons.1 ht with rfl | ht
    · exact h.1
    · exact ih h.2 ht
  | comment s rest ih =>
    rcases List.mem_cons.1 ht with rfl | ht
    · intro r
      have hb := Markup.commentBody_append_ending h.2.1 r
      have ha : Text.after? "!--" ("!--" ++ (s ++ ("-->" ++ r))) = some (s ++ ("-->" ++ r)) := Text.after?_append _ _
      have he : "<!--" ++ s ++ "-->" ++ r = '<' :: ("!--" ++ (s ++ ("-->" ++ r))) := by simp
      simp only [he, Markup.next?, if_true, ha, hb]
      simp
    · exact ih h.2.2 ht
  | element tag children rest ihc ihr =>
    obtain ⟨htag, -, hc, hr⟩ := h
    simp only [pieces, List.mem_cons, List.mem_append] at ht
    rcases ht with rfl | ht | ht
    · exact tag.whole_openToken htag
    · exact ihc hc ht
    · split at ht
      · rcases List.mem_cons.1 ht with rfl | ht
        · exact tag.whole_closeToken htag
        · exact ihr hr ht
      · exact ihr hr ht

/-- **A written forest is cut into its pieces,** adjacent runs of text as one. -/
theorem tokens_written {f : Forest} (h : f.WellFormed) : Markup.tokens f.written = Token.join f.pieces :=
  Markup.tokens_source fun _ ht => whole_of_mem_pieces h ht

/-! ## The tags of a page -/

theorem filter_pieces (f : Forest) : f.pieces.filter (·.kind == .openTag) = f.tags.map PlainTag.openToken := by
  have hopen : ∀ t : PlainTag, (t.openToken.kind == TokenKind.openTag) = true := fun _ => rfl
  have hclose : ∀ t : PlainTag, (t.closeToken.kind == TokenKind.openTag) = false := fun _ => rfl
  induction f with
  | nil => rfl
  | text s rest ih | comment s rest ih => exact ih
  | element tag children rest ihc ihr =>
    cases hb : tag.hasBody <;> simp [pieces, tags, hb, hopen, hclose, ihc, ihr]

theorem openTags_written {f : Forest} (h : f.WellFormed) :
    (Markup.tokens f.written).filter (·.kind == .openTag) = f.tags.map PlainTag.openToken := by
  rw [tokens_written h, Token.filter_join fun _ => rfl, filter_pieces]

/-- The tags of a page can be read off its text. -/
theorem tags_of_written {f g : Forest} (hf : f.WellFormed) (hg : g.WellFormed) (h : f.written = g.written) :
    f.tags = g.tags := by
  have hscan : ∀ {f : Forest}, f.WellFormed →
      (f.tags.map PlainTag.openToken).map (fun t => OpenTag.scan t.text) = f.tags.map PlainTag.opened := by
    intro f hf
    rw [List.map_map]
    exact List.map_congr_left fun t ht => PlainTag.scan_written (hf.tag ht)
  have htags : f.tags.map PlainTag.opened = g.tags.map PlainTag.opened := by
    rw [← hscan hf, ← hscan hg, ← openTags_written hf, ← openTags_written hg, h]
  exact List.map_inj_right (fun _ _ he => PlainTag.opened_inj he) |>.1 htags

end Forest

end MarkupLens
