/-
Contexts at every depth: the records in a context are the context itself and
those in the lists and records that it binds (`contexts`). A demand on the
texts of all of them is met by each record that can be reached by reading
keys (`Plain.item`, `Plain.record`).
-/
import MarkupLens.Context.Basic

namespace MarkupLens

mutual

/-- The records in a value. -/
def Value.contexts : Value → List Context
  | .flag _ | .text _ => []
  | .list items => Context.contextsOfItems items
  | .record r => Context.contexts r

/-- The context and the records in it. -/
def Context.contexts : Context → List Context
  | .ofEntries es => .ofEntries es :: Context.contextsOfEntries es

def Context.contextsOfItems : List Context → List Context
  | [] => []
  | c :: cs => Context.contexts c ++ Context.contextsOfItems cs

def Context.contextsOfEntries : List (Text × Value) → List Context
  | [] => []
  | (_, v) :: es => Value.contexts v ++ Context.contextsOfEntries es

end

theorem Keyed.mem_of_lookup {α : Type} {key : Text} {value : α} {entries : Keyed α}
    (h : Keyed.lookup key entries = some value) : (key, value) ∈ entries := by
  induction entries with
  | nil => cases h
  | cons e rest ih =>
    obtain ⟨k, v⟩ := e
    simp only [Keyed.lookup] at h
    split at h
    · rename_i hk
      cases h
      simp [hk]
    · exact List.mem_cons_of_mem _ (ih h)

namespace Context

theorem contextsOfItems_eq (items : List Context) : contextsOfItems items = items.flatMap contexts := by
  induction items with
  | nil => rfl
  | cons c cs ih => rw [contextsOfItems, ih, List.flatMap_cons]

theorem contextsOfEntries_eq (es : List (Text × Value)) :
    contextsOfEntries es = es.flatMap fun e => e.2.contexts := by
  induction es with
  | nil => rfl
  | cons e es ih =>
    obtain ⟨k, v⟩ := e
    rw [contextsOfEntries, ih, List.flatMap_cons]

theorem self_mem_contexts (c : Context) : c ∈ c.contexts := by
  cases c
  rw [contexts]
  exact List.mem_cons_self

theorem contexts_of_get? {c d : Context} {key : Text} {v : Value} (h : c.get? key = some v) (hd : d ∈ v.contexts) :
    d ∈ c.contexts := by
  obtain ⟨es⟩ := c
  have hmem : (key, v) ∈ es := Keyed.mem_of_lookup h
  rw [contexts, contextsOfEntries_eq]
  exact List.mem_cons_of_mem _ (List.mem_flatMap.2 ⟨_, hmem, hd⟩)

/-- No text, at any depth, holds a character that markup is made of. -/
def Plain (c : Context) : Prop :=
  ∀ d ∈ c.contexts, ∀ e ∈ d.entries, ∀ t ∈ e.2.asText?, '<' ∉ t ∧ '>' ∉ t ∧ '"' ∉ t

instance (c : Context) : Decidable c.Plain :=
  inferInstanceAs (Decidable (∀ d ∈ c.contexts, ∀ e ∈ d.entries, ∀ t ∈ e.2.asText?, '<' ∉ t ∧ '>' ∉ t ∧ '"' ∉ t))

theorem Plain.text {c : Context} (h : c.Plain) {key t : Text} (ht : (c.get? key).bind Value.asText? = some t) :
    '<' ∉ t ∧ '>' ∉ t ∧ '"' ∉ t := by
  obtain ⟨v, hv, hvt⟩ := Option.bind_eq_some_iff.1 ht
  exact h c c.self_mem_contexts (key, v) (Keyed.mem_of_lookup hv) t hvt

theorem Plain.item {c : Context} (h : c.Plain) {key : Text} {items : List Context}
    (hi : c.get? key = some (.list items)) {d : Context} (hd : d ∈ items) : d.Plain := by
  intro e he
  refine h e (contexts_of_get? hi ?_)
  rw [Value.contexts, contextsOfItems_eq]
  exact List.mem_flatMap.2 ⟨d, hd, he⟩

theorem Plain.record {c : Context} (h : c.Plain) {key : Text} {d : Context}
    (hr : c.get? key = some (.record d)) : d.Plain := by
  intro e he
  exact h e (contexts_of_get? hr he)

end Context

end MarkupLens
