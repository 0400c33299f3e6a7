/-
What extraction can bring back of a context: all of it, but for flags that
are off, which leave no trace in a page and come back as empty text
(`recovered`).

A record that was put together by inserting and merging is told by its
keys: it shows some keys of a context if it binds each of them to what the
context does, and nothing else (`Shows`). Inserting and merging add keys, and
a record that shows all keys is the context (`Shows.eq`).
-/
import MarkupLens.Proofs.Context.Depth

namespace MarkupLens

mutual

/-- The value as extraction brings it back. -/
def Value.recovered : Value → Value
  | .flag on => if on then .flag true else .text []
  | .text t => .text t
  | .list items => .list (Context.recoveredItems items)
  | .record r => .record (Context.recovered r)

/-- The context as extraction brings it back. -/
def Context.recovered : Context → Context
  | .ofEntries es => .ofEntries (Context.recoveredEntries es)

def Context.recoveredItems : List Context → List Context
  | [] => []
  | c :: cs => Context.recovered c :: Context.recoveredItems cs

def Context.recoveredEntries : List (Text × Value) → List (Text × Value)
  | [] => []
  | (k, v) :: es => (k, Value.recovered v) :: Context.recoveredEntries es

end

namespace Keyed

variable {α : Type}

theorem lookup_eq_some_iff {entries : Keyed α} (h : (keys entries).Nodup) {key : Text} {value : α} :
    lookup key entries = some value ↔ (key, value) ∈ entries := by
  refine ⟨mem_of_lookup, fun hm => ?_⟩
  induction entries with
  | nil => cases hm
  | cons e rest ih =>
    obtain ⟨k, v⟩ := e
    simp only [keys, List.map_cons, List.nodup_cons] at h
    simp only [lookup]
    rcases List.mem_cons.1 hm with he | hm
    · cases he
      rw [if_pos rfl]
    · have hkey : key ∈ rest.map (·.1) := List.mem_map.2 ⟨(key, value), hm, rfl⟩
      have hk : key ≠ k := fun he => h.1 (he ▸ hkey)
      rw [if_neg hk]
      exact ih h.2 hm

theorem Sorted.nodup {entries : Keyed α} (h : Sorted entries) : (keys entries).Nodup := by
  refine List.Pairwise.imp (fun {a b} hlt => ?_) h
  rintro rfl
  exact List.lt_irrefl a hlt

theorem lookup_reverse {entries : Keyed α} (h : (keys entries).Nodup) (key : Text) :
    lookup key entries.reverse = lookup key entries := by
  have hr : (keys entries.reverse).Nodup := by
    rw [keys, List.map_reverse]
    exact List.pairwise_reverse.2 (List.Pairwise.imp Ne.symm h)
  refine Option.ext fun value => ?_
  rw [lookup_eq_some_iff hr, lookup_eq_some_iff h, List.mem_reverse]

end Keyed

namespace Context

theorem recoveredItems_eq (items : List Context) : recoveredItems items = items.map recovered := by
  induction items with
  | nil => rfl
  | cons c cs ih => rw [recoveredItems, ih, List.map_cons]

theorem recoveredEntries_eq (es : List (Text × Value)) :
    recoveredEntries es = es.map fun e => (e.1, e.2.recovered) := by
  induction es with
  | nil => rfl
  | cons e es ih => rw [recoveredEntries, ih, List.map_cons]

theorem get?_recovered (c : Context) (key : Text) : c.recovered.get? key = (c.get? key).map Value.recovered := by
  obtain ⟨es⟩ := c
  induction es with
  | nil => rfl
  | cons e es ih =>
    simp only [recovered, get?, entries, recoveredEntries, Keyed.lookup] at ih ⊢
    split
    · rfl
    · exact ih

theorem keys_recovered (c : Context) : c.recovered.keys = c.keys := by
  obtain ⟨es⟩ := c
  simp only [recovered, recoveredEntries_eq, keys, entries, Keyed.keys, List.map_map]
  rfl

theorem Canonical.recovered {c : Context} (h : c.Canonical) : c.recovered.Canonical := by
  have hk := keys_recovered c
  simp only [Canonical, Keyed.Sorted, keys] at h hk ⊢
  rw [hk]
  exact h

theorem get?_merge (c : Context) {other : Context} (h : other.Canonical) (key : Text) :
    (c.merge other).get? key = (other.get? key).or (c.get? key) := by
  have hn : (Keyed.keys other.entries).Nodup := Keyed.Sorted.nodup h
  have hl := Keyed.lookup_insertAll key c.entries other.entries
  rw [Keyed.lookup_reverse hn] at hl
  exact hl

theorem merge_empty (c : Context) : c.merge .empty = c := by
  cases c
  rfl

theorem empty_merge {c : Context} (h : c.Canonical) : empty.merge c = c := by
  refine (canonical_empty.merge c).ext h fun key => ?_
  rw [get?_merge empty h, get?_empty, Option.or_none]

/-- Merging is associative: what is merged into a record may be merged before. -/
theorem Canonical.merge_assoc {a b c : Context} (ha : a.Canonical) (hb : b.Canonical) (hc : c.Canonical) :
    (a.merge b).merge c = a.merge (b.merge c) := by
  refine ((ha.merge b).merge c).ext (ha.merge (b.merge c)) fun key => ?_
  rw [get?_merge _ hc, get?_merge _ hb, get?_merge _ (hb.merge c), get?_merge _ hc, Option.or_assoc]

/-! ## Showing some keys -/

/-- Binds those keys to what the context binds them to, and nothing else. -/
def Shows (c : Context) (keys : List Text) (page : Context) : Prop :=
  page.Canonical ∧ ∀ key, page.get? key = if key ∈ keys then c.get? key else none

variable {c page : Context} {keys : List Text}

theorem Shows.empty : c.Shows [] .empty := ⟨canonical_empty, fun _ => rfl⟩

theorem Shows.congr (h : c.Shows keys page) {more : List Text} (hk : ∀ key, key ∈ more ↔ key ∈ keys) :
    c.Shows more page := by
  refine ⟨h.1, fun key => ?_⟩
  rw [h.2, ite_congr (propext (hk key)) (fun _ => rfl) (fun _ => rfl)]

theorem Shows.insert (h : c.Shows keys page) {key : Text} {value : Value} (hv : c.get? key = some value) :
    c.Shows (key :: keys) (page.insert key value) := by
  refine ⟨h.1.insert _ _, fun other => ?_⟩
  rw [get?_insert, h.2]
  by_cases he : other = key
  · subst he
    simp [hv]
  · simp [he]

theorem Shows.merge {more : List Text} {other : Context} (h : c.Shows keys page) (ho : c.Shows more other) :
    c.Shows (keys ++ more) (page.merge other) := by
  refine ⟨h.1.merge _, fun key => ?_⟩
  rw [get?_merge _ ho.1, h.2, ho.2]
  by_cases h1 : key ∈ keys <;> by_cases h2 : key ∈ more <;> simp [h1, h2]

/-- **A record that shows every key** is the context. -/
theorem Shows.eq (h : c.Shows keys page) (hc : c.Canonical) (hk : ∀ key ∈ c.keys, key ∈ keys) : page = c := by
  refine h.1.ext hc fun key => ?_
  rw [h.2]
  split
  · rfl
  · rename_i hn
    cases hg : c.get? key with
    | none => rfl
    | some value =>
      have hmem : (key, value) ∈ c.entries := Keyed.mem_of_lookup hg
      exact absurd (hk key (List.mem_map.2 ⟨_, hmem, rfl⟩)) hn

end Context

end MarkupLens
