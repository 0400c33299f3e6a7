/-
Host data read from YAML. Scalars hold no other values, and the members of a
mapping are put in at their places, so the members of every object in what is
read ascend (`ordered_read?`), whatever aliases are followed on the way.
-/
import MarkupLens.Proofs.Json.Parts
import MarkupLens.Yaml.Reader

namespace MarkupLens.Yaml

open Json (ordered_of_parts_eq)

/-! ## Scalars -/

theorem Resolved.ordered {r : Resolved} {text : Text} {v : Json} (h : r.toJson? text = some v) : v.Ordered := by
  cases r with
  | wideInteger => cases h
  | null | notFinite | bool | integer | double | text =>
    cases h
    exact ordered_of_parts_eq rfl trivial

theorem ordered_of_untagged? {text : Text} {plain : Bool} {v : Json} (h : untagged? text plain = some v) :
    v.Ordered := by
  unfold untagged? at h
  split at h
  · exact Resolved.ordered h
  · cases h
    exact ordered_of_parts_eq rfl trivial

theorem ordered_of_fraction? {text : Text} {v : Json} (h : fraction? text = some v) : v.Ordered := by
  unfold fraction? at h
  split at h
  · cases h
  · exact Resolved.ordered h

theorem ordered_of_scalar? {tag : Option TagBytes} {text : Text} {plain : Bool} {v : Json}
    (h : scalar? tag text plain = some v) : v.Ordered := by
  cases tag with
  | none => exact ordered_of_untagged? h
  | some tag =>
    rw [scalar?, tagged?] at h
    split at h
    · cases h
    split at h
    · exact ordered_of_untagged? h
    split at h
    · split at h <;> cases h
      exact ordered_of_parts_eq rfl trivial
    split at h
    · obtain ⟨on, -, rfl⟩ := Option.map_eq_some_iff.1 h
      exact ordered_of_parts_eq rfl trivial
    split at h
    · obtain ⟨r, -, hr⟩ := Option.bind_eq_some_iff.1 h
      exact Resolved.ordered hr
    split at h
    · exact ordered_of_fraction? h
    · cases h
      exact ordered_of_parts_eq rfl trivial

/-! ## Conversions -/

namespace Converts

/-- What a conversion gives, if it gives something, is as said. -/
def Gives {α : Type} (x : Converts α) (P : α → Prop) : Prop := ∀ k a k', x.run k = some (a, k') → P a

variable {α β : Type} {P : α → Prop} {Q : β → Prop}

theorem Gives.bind {x : Converts α} {f : α → Converts β} (hx : x.Gives P) (hf : ∀ a, P a → (f a).Gives Q) :
    (x >>= f).Gives Q := by
  intro k b k' h
  rw [StateT.run_bind] at h
  obtain ⟨⟨a, k₁⟩, ha, hb⟩ := Option.bind_eq_some_iff.1 h
  exact hf a (hx k a k₁ ha) k₁ b k' hb

theorem gives_true (x : Converts α) : x.Gives fun _ => True := fun _ _ _ _ => trivial

theorem gives_pure {a : α} (h : P a) : Gives (pure a : Converts α) P := by
  intro k a' k' heq
  cases heq
  exact h

theorem gives_lift {o : Option α} (h : ∀ a, o = some a → P a) : Gives (liftM o : Converts α) P := by
  intro k a k' heq
  obtain ⟨a', ha, hrest⟩ := Option.bind_eq_some_iff.1 heq
  cases hrest
  exact h a ha

theorem gives_failure : Gives (failure : Converts α) P := by
  intro k a k' heq
  cases heq

theorem gives_mapM {f : α → Converts β} {l : List α} (h : ∀ a ∈ l, (f a).Gives Q) :
    (l.mapM f).Gives fun bs => ∀ b ∈ bs, Q b := by
  induction l with
  | nil =>
    rw [List.mapM_nil]
    exact gives_pure (List.forall_mem_nil _)
  | cons a l ih =>
    rw [List.forall_mem_cons] at h
    rw [List.mapM_cons]
    exact h.1.bind fun b hb => (ih h.2).bind fun bs hbs => gives_pure (List.forall_mem_cons.2 ⟨hb, hbs⟩)

theorem gives_value (table : List (Nat × Node)) (depth : Nat) (n : Node) :
    (value table depth n).Gives Json.Ordered := by
  induction depth generalizing n with
  | zero =>
    rw [value]
    refine (gives_true _).bind fun m _ => ?_
    split
    · exact gives_lift fun v hv => ordered_of_scalar? hv
    · exact gives_failure
  | succ depth ih =>
    rw [value]
    refine (gives_true _).bind fun m _ => ?_
    split
    · exact gives_lift fun v hv => ordered_of_scalar? hv
    · refine (gives_true _).bind fun _ _ => (gives_mapM fun item _ => ih item).bind fun items hitems => ?_
      exact gives_pure (Json.ordered_array.2 hitems)
    · have hmember : ∀ m : Node × Node, Gives (do return (← key table m.1, ← value table depth m.2))
          fun p : Text × Json => p.2.Ordered :=
        fun m => (gives_true _).bind fun _ _ => (ih m.2).bind fun v hv => gives_pure hv
      refine (gives_true _).bind fun _ _ => (gives_mapM fun m _ => hmember m).bind fun members hmembers => ?_
      exact gives_pure (Json.ordered_nil.2.insertAll hmembers)
    · exact gives_failure

end Converts

/-- **The members of what was read** ascend. -/
theorem ordered_read? {s : Text} {v : Json} (h : read? s = some v) : v.Ordered := by
  rw [read?] at h
  split at h
  · obtain ⟨root, -, hroot⟩ := Option.bind_eq_some_iff.1 h
    cases root with
    | none =>
      cases hroot
      exact ordered_of_parts_eq rfl trivial
    | some root =>
      obtain ⟨⟨v', k⟩, hrun, rfl⟩ := Option.map_eq_some_iff.1 hroot
      exact Converts.gives_value _ _ _ _ _ _ hrun
  · cases h

end MarkupLens.Yaml
