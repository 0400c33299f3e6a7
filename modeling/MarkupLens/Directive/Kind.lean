/-
The directives. A directive stands in a template as an attribute, its
trigger, whose value is a key of the context; its kind says what the bound
value drives. Rendering leaves a marker where a trigger was, and extraction
reads markers.
-/
import MarkupLens.Text.Word

namespace MarkupLens

/-- What a bound value drives on its element. -/
inductive Binding where
  /-- the content is the bound text -/
  | content
  /-- the content is repeated for each record of the bound list -/
  | loop
  /-- the content is read against the bound record -/
  | scope
  /-- the attribute of that name has the bound text -/
  | attribute (name : Text)
  /-- the attribute of that name is there, without a value, when the bound value says so -/
  | boolean (name : Text)
  deriving DecidableEq, Repr

namespace Binding

/-- What is bound inside the element is bound in another record. -/
def isContainer : Binding → Bool
  | .loop | .scope => true
  | _ => false

/-- The attribute that is written. -/
def target? : Binding → Option Text
  | .attribute name | .boolean name => some name
  | _ => none

/-- The name of the way of binding, as listings show it. -/
def label : Binding → Text
  | .content => "content"
  | .loop => "loop"
  | .scope => "scope"
  | .attribute _ => "attribute"
  | .boolean _ => "boolean"

end Binding

/-- The kinds of directives. -/
inductive DirectiveKind where
  | content
  | loop
  | scope
  | cssClass
  | style
  | href
  | id
  | checked
  | selected
  | disabled
  | value
  | name
  | src
  | alt
  | forControl
  deriving DecidableEq, Repr

namespace DirectiveKind

/-- Every kind, in the order of the standard table. -/
def all : List DirectiveKind :=
  [.content, .loop, .scope, .cssClass, .style, .href, .id, .checked, .selected, .disabled, .value, .name, .src,
    .alt, .forControl]

theorem mem_all (kind : DirectiveKind) : kind ∈ all := by cases kind <;> decide

/-- The word that names a kind in its attribute and its marker. -/
def word : DirectiveKind → Text
  | .content => "String"
  | .loop => "Loop"
  | .scope => "Html"
  | .cssClass => "Class"
  | .style => "Style"
  | .href => "Href"
  | .id => "Id"
  | .checked => "Checked"
  | .selected => "Selected"
  | .disabled => "Disabled"
  | .value => "Value"
  | .name => "Name"
  | .src => "Src"
  | .alt => "Alt"
  | .forControl => "For"

/-- The kind that a word names. -/
def ofWord? (w : Text) : Option DirectiveKind := all.find? (·.word == w)

/-- What a kind binds. -/
def binding : DirectiveKind → Binding
  | .content => .content
  | .loop => .loop
  | .scope => .scope
  | .cssClass => .attribute "class"
  | .style => .attribute "style"
  | .href => .attribute "href"
  | .id => .attribute "id"
  | .value => .attribute "value"
  | .name => .attribute "name"
  | .src => .attribute "src"
  | .alt => .attribute "alt"
  | .forControl => .attribute "for"
  | .checked => .boolean "checked"
  | .selected => .boolean "selected"
  | .disabled => .boolean "disabled"

/-- What every trigger starts with. -/
def triggerStem : Text := "data-nyan"

/-- What every marker starts with. -/
def markerStem : Text := "data-nyanDone"

/-- The attribute that asks for a directive in a template. -/
def trigger (kind : DirectiveKind) : Text := triggerStem ++ kind.word

/-- The attribute that is left once the directive has been carried out. -/
def marker (kind : DirectiveKind) : Text := markerStem ++ kind.word

/-- Other attributes that are read as the marker. A loop that was left as written still delimits records. -/
def aliases : DirectiveKind → List Text
  | .content => ["data-nyanDoneNyanString"]
  | .loop => ["data-nyanLoop"]
  | .scope => ["data-nyanDoneNyanHtml"]
  | _ => []

/-- The marker with its key, as it is written into a tag. -/
def markerFor (kind : DirectiveKind) (key : Text) : Text := kind.marker ++ "=\"" ++ key ++ "\""

/-- Whether an attribute of that name marks the kind. -/
def isMarkedBy (kind : DirectiveKind) (name : Text) : Bool := kind.marker == name || kind.aliases.contains name

theorem ofWord?_word (kind : DirectiveKind) : ofWord? kind.word = some kind := by cases kind <;> decide

theorem word_inj {a b : DirectiveKind} (h : a.word = b.word) : a = b := by
  have := ofWord?_word a
  rw [h, ofWord?_word b, Option.some.injEq] at this
  exact this.symm

theorem trigger_inj {a b : DirectiveKind} (h : a.trigger = b.trigger) : a = b :=
  word_inj (List.append_cancel_left h)

end DirectiveKind

/-- The directives in force, in order. -/
abbrev DirectiveTable := List DirectiveKind

namespace DirectiveTable

/-- All directives. -/
def standard : DirectiveTable := DirectiveKind.all

/-- The directive that an attribute of that name asks for. -/
def byTrigger? (table : DirectiveTable) (name : Text) : Option DirectiveKind := table.find? (·.trigger == name)

/-- The directive that an attribute of that name marks. -/
def byMarker? (table : DirectiveTable) (name : Text) : Option DirectiveKind := table.find? (·.isMarkedBy name)

theorem byTrigger?_eq_some {table : DirectiveTable} {name : Text} {kind : DirectiveKind} :
    table.byTrigger? name = some kind ↔ kind ∈ table ∧ kind.trigger = name := by
  constructor
  · intro h
    exact ⟨List.mem_of_find?_eq_some h, by simpa using List.find?_some h⟩
  · rintro ⟨hm, rfl⟩
    unfold byTrigger?
    induction table with
    | nil => cases hm
    | cons k table ih =>
      rw [List.find?_cons]
      by_cases hk : k.trigger = kind.trigger
      · simp [DirectiveKind.trigger_inj hk]
      · have hne : k ≠ kind := fun he => hk (he ▸ rfl)
        have : kind ∈ table := by
          rcases List.mem_cons.1 hm with h | h
          · exact absurd h.symm hne
          · exact h
        have hb : (k.trigger == kind.trigger) = false := by simpa using hk
        rw [hb]
        exact ih this

end DirectiveTable

end MarkupLens
