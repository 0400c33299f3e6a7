/-
The names that directives put into tags: triggers, markers and the attributes
that are written. A name of one sort is none of another, and of each sort it
tells the kind; so what a directive gives way to is never taken for a
directive again, nor for what another one wrote.
-/
import MarkupLens.Directive.Kind
import MarkupLens.Proofs.Text.Basic

namespace MarkupLens.DirectiveKind

theorem marker_inj {a b : DirectiveKind} (h : a.marker = b.marker) : a = b := word_inj (List.append_cancel_left h)

theorem target_inj {a b : DirectiveKind} {name : Text} (ha : a.binding.target? = some name)
    (hb : b.binding.target? = some name) : a = b := by
  have hfind : ∀ k : DirectiveKind, k.binding.target? = some name →
      all.find? (fun d => d.binding.target? == some name) = some k := by
    intro k hk
    cases k <;> cases hk <;> rfl
  have h := hfind a ha
  rw [hfind b hb, Option.some.injEq] at h
  exact h.symm

theorem eq_content {k : DirectiveKind} (h : k.binding = .content) : k = .content := by
  cases k <;> first | rfl | cases h

/-- A name that is written is shorter than what triggers start with. -/
theorem length_target {k : DirectiveKind} {name : Text} (h : k.binding.target? = some name) :
    name.length < triggerStem.length := by
  cases k <;> cases h <;> decide

theorem length_trigger (k : DirectiveKind) : triggerStem.length ≤ k.trigger.length := by
  rw [trigger, List.length_append]
  exact Nat.le_add_right _ _

theorem length_marker (k : DirectiveKind) : triggerStem.length ≤ k.marker.length := by
  have h : triggerStem.length ≤ markerStem.length := by decide
  rw [marker, List.length_append]
  omega

theorem marker_ne_trigger (a b : DirectiveKind) : a.marker ≠ b.trigger := by
  intro h
  have hs : triggerStem ++ (String.toList "Done" ++ a.word) = triggerStem ++ b.word := h
  have hw : String.toList "Done" ++ a.word = b.word := List.append_cancel_left hs
  have hd : b.word.take 2 = ['D', 'o'] := by rw [← hw]; rfl
  revert hd
  cases b <;> decide

theorem marker_ne_target {k : DirectiveKind} {name : Text} (h : k.binding.target? = some name) (a : DirectiveKind) :
    a.marker ≠ name := by
  have h1 := length_target h
  have h2 := a.length_marker
  rintro rfl
  omega

theorem stem_not_prefix_target {k : DirectiveKind} {name : Text} (h : k.binding.target? = some name) :
    ¬ triggerStem <+: name := by
  intro hp
  have h1 := length_target h
  have h2 := hp.length_le
  omega

theorem target_ne_nil {k : DirectiveKind} {name : Text} (h : k.binding.target? = some name) : name ≠ [] := by
  cases k <;> cases h <;> decide

/-- No name as long as what triggers start with is taken for an attribute that is written, whatever its case. -/
theorem sameName_target {k : DirectiveKind} {name : Text} (h : k.binding.target? = some name) {long : Text}
    (hl : triggerStem.length ≤ long.length) : Text.sameName long name = false := by
  have h1 := length_target h
  cases hs : Text.sameName long name with
  | false => rfl
  | true =>
    have h2 := Text.length_eq_of_sameName hs
    omega

theorem sameName_trigger_target {k : DirectiveKind} {name : Text} (h : k.binding.target? = some name)
    (a : DirectiveKind) : Text.sameName a.trigger name = false := sameName_target h a.length_trigger

theorem sameName_marker_target {k : DirectiveKind} {name : Text} (h : k.binding.target? = some name)
    (a : DirectiveKind) : Text.sameName a.marker name = false := sameName_target h a.length_marker

theorem toLower_target {k : DirectiveKind} {name : Text} (h : k.binding.target? = some name) :
    name.map Char.toLower = name := by
  cases k <;> cases h <;> decide

/-- A name that is written tells its kind, whatever its case. -/
theorem eq_of_sameName_target {a b : DirectiveKind} {m n : Text} (ha : a.binding.target? = some m)
    (hb : b.binding.target? = some n) (h : Text.sameName m n = true) : a = b := by
  have he : m = n := by simpa [Text.sameName, toLower_target ha, toLower_target hb] using h
  exact target_inj ha (he ▸ hb)

/-! ## Reading markers -/

/-- Whatever is read as a marker starts like a trigger. -/
theorem stem_prefix_of_isMarkedBy {k : DirectiveKind} {name : Text} (h : k.isMarkedBy name = true) :
    triggerStem <+: name := by
  rw [isMarkedBy, Bool.or_eq_true, beq_iff_eq] at h
  rcases h with rfl | h
  · exact ⟨String.toList "Done" ++ k.word, rfl⟩
  · have hmem : name ∈ k.aliases := List.contains_iff_mem.1 h
    revert hmem
    cases k <;> simp only [aliases, List.not_mem_nil, List.mem_singleton, false_implies]
    all_goals
      rintro rfl
      decide

theorem isMarkedBy_marker {a b : DirectiveKind} : a.isMarkedBy b.marker = true ↔ a = b := by
  constructor
  · intro h
    rw [isMarkedBy, Bool.or_eq_true, beq_iff_eq] at h
    rcases h with h | h
    · exact marker_inj h
    · have hmem : b.marker ∈ a.aliases := List.contains_iff_mem.1 h
      -- an alias is the marker of no kind
      revert hmem
      cases a <;> simp only [aliases, List.not_mem_nil, List.mem_singleton, false_implies]
      · cases b <;> decide
      · exact fun he => absurd he (marker_ne_trigger b .loop)
      · cases b <;> decide
  · rintro rfl
    simp [isMarkedBy]

/-- No trigger is read as a marker but that of a loop. -/
theorem eq_loop_of_isMarkedBy_trigger {a b : DirectiveKind} (h : a.isMarkedBy b.trigger = true) : a = .loop := by
  rw [isMarkedBy, Bool.or_eq_true, beq_iff_eq] at h
  rcases h with h | h
  · exact absurd h (marker_ne_trigger a b)
  · have hmem : b.trigger ∈ a.aliases := List.contains_iff_mem.1 h
    revert hmem
    cases a <;> simp only [aliases, List.not_mem_nil, List.mem_singleton, false_implies, implies_true]
    all_goals cases b <;> decide

end MarkupLens.DirectiveKind

namespace MarkupLens.DirectiveTable

theorem byMarker?_marker {table : DirectiveTable} {k : DirectiveKind} (h : k ∈ table) :
    table.byMarker? k.marker = some k := by
  cases hf : table.byMarker? k.marker with
  | some a =>
    have hfind : table.find? (fun d => d.isMarkedBy k.marker) = some a := hf
    have ha : a.isMarkedBy k.marker = true := by simpa using List.find?_some hfind
    rw [DirectiveKind.isMarkedBy_marker.1 ha]
  | none => exact absurd (DirectiveKind.isMarkedBy_marker.2 rfl) (List.find?_eq_none.1 hf k h)

theorem byMarker?_eq_none {table : DirectiveTable} {name : Text} (h : ¬ DirectiveKind.triggerStem <+: name) :
    table.byMarker? name = none :=
  List.find?_eq_none.2 fun _ _ hk => h (DirectiveKind.stem_prefix_of_isMarkedBy hk)

end MarkupLens.DirectiveTable
