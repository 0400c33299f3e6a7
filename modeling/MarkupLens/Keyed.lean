/-
Lists of entries kept in ascending order of their keys. Texts are compared
character by character, which is also the order of their UTF-8 bytes.

`lookup` is the view of such a list; each operation has one equation through
it. `Sorted` is kept by every operation, and two sorted lists with the same
view are equal (`Sorted.ext`), so a list shows nothing of how it was built.
-/
import MarkupLens.Text.Basic

namespace MarkupLens

/-- Entries of a map from texts, in the order of the list. -/
abbrev Keyed (α : Type) := List (Text × α)

namespace Keyed

variable {α : Type}

/-- The value at `key`. -/
def lookup (key : Text) : Keyed α → Option α
  | [] => none
  | (k, v) :: rest => if key = k then some v else lookup key rest

/-- The entries with `value` at `key`, in place of a value already there. -/
def insert (key : Text) (value : α) : Keyed α → Keyed α
  | [] => [(key, value)]
  | (k, v) :: rest =>
    if key < k then (key, value) :: (k, v) :: rest
    else if key = k then (key, value) :: rest
    else (k, v) :: insert key value rest

/-- The value that was at `key`, and the entries with `value` there. -/
def exchange (key : Text) (value : α) : Keyed α → Option α × Keyed α
  | [] => (none, [(key, value)])
  | (k, v) :: rest =>
    if key < k then (none, (key, value) :: (k, v) :: rest)
    else if key = k then (some v, (key, value) :: rest)
    else (exchange key value rest).map id ((k, v) :: ·)

/-- The entries with `value` at `key` unless the key already has a value. -/
def insertNew (key : Text) (value : α) (entries : Keyed α) : Keyed α :=
  if (lookup key entries).isSome then entries else insert key value entries

/-- The entries of `more` put in, one after the other. -/
def insertAll (entries more : Keyed α) : Keyed α := more.foldl (fun es e => insert e.1 e.2 es) entries

/-- The entries put in one after the other: the last value of a key stays. -/
def ofList (more : List (Text × α)) : Keyed α := insertAll [] more

/-- The keys, in order. -/
def keys (entries : Keyed α) : List Text := entries.map (·.1)

/-- The keys ascend, so none occurs twice. -/
def Sorted (entries : Keyed α) : Prop := (keys entries).Pairwise (· < ·)

instance (entries : Keyed α) : Decidable (Sorted entries) :=
  inferInstanceAs (Decidable ((keys entries).Pairwise (· < ·)))

@[simp] theorem lookup_nil (key : Text) : lookup key ([] : Keyed α) = none := rfl

/-- What is looked up in entries put together is looked up in the first ones first. -/
theorem lookup_append (key : Text) (entries more : Keyed α) :
    lookup key (entries ++ more) = (lookup key entries).or (lookup key more) := by
  induction entries with
  | nil => rfl
  | cons e rest ih =>
    rw [List.cons_append, lookup, lookup]
    split
    · rfl
    · exact ih

theorem lookup_insert_self (key : Text) (value : α) (entries : Keyed α) :
    lookup key (insert key value entries) = some value := by
  induction entries with
  | nil => simp [insert, lookup]
  | cons e rest ih =>
    obtain ⟨k, v⟩ := e
    simp only [insert]
    split
    · simp [lookup]
    · split
      · simp [lookup]
      · rename_i h; simp [lookup, h, ih]

theorem lookup_insert_other {key other : Text} (h : other ≠ key) (value : α) (entries : Keyed α) :
    lookup other (insert key value entries) = lookup other entries := by
  induction entries with
  | nil => simp [insert, lookup, h]
  | cons e rest ih =>
    obtain ⟨k, v⟩ := e
    simp only [insert]
    split
    · simp [lookup, h]
    · split
      · rename_i hk; subst hk; simp [lookup, h]
      · simp only [lookup, ih]

/-- Reading after a write gives the value written, or what was there under another key. -/
theorem lookup_insert (key other : Text) (value : α) (entries : Keyed α) :
    lookup other (insert key value entries) = if other = key then some value else lookup other entries := by
  split
  · rename_i h; subst h; exact lookup_insert_self _ _ _
  · rename_i h; exact lookup_insert_other h _ _

/-- Putting in what may be there already leaves what is there. -/
theorem lookup_insertNew (key other : Text) (value : α) (entries : Keyed α) :
    lookup other (insertNew key value entries) =
      (lookup other entries).or (if other = key then some value else none) := by
  unfold insertNew
  by_cases he : other = key
  · subst he
    split
    · rename_i hs
      obtain ⟨v, hv⟩ := Option.isSome_iff_exists.1 hs
      simp [hv]
    · rename_i hs
      have hn : lookup other entries = none := by simpa using hs
      simp [hn, lookup_insert_self]
  · rw [if_neg he, Option.or_none]
    split
    · rfl
    · exact lookup_insert_other he value entries

theorem mem_keys_insert {key other : Text} {value : α} {entries : Keyed α} :
    other ∈ keys (insert key value entries) ↔ other = key ∨ other ∈ keys entries := by
  induction entries with
  | nil => simp [insert, keys]
  | cons e rest ih =>
    obtain ⟨k, v⟩ := e
    simp only [insert]
    split
    · simp [keys]
    · split
      · rename_i hk; subst hk; simp [keys]
      · simp only [keys, List.map_cons, List.mem_cons] at ih ⊢
        rw [ih]
        constructor
        · rintro (h | h | h) <;> simp [h]
        · rintro (h | h | h) <;> simp [h]

/-- What is there after an entry was put in was put in or was there before. -/
theorem mem_insert {key : Text} {value : α} {entries : Keyed α} {e : Text × α} (h : e ∈ insert key value entries) :
    e = (key, value) ∨ e ∈ entries := by
  induction entries with
  | nil => exact .inl (List.mem_singleton.1 h)
  | cons e' rest ih =>
    obtain ⟨k, v⟩ := e'
    simp only [insert] at h
    split at h
    · exact List.mem_cons.1 h
    · split at h
      · exact (List.mem_cons.1 h).imp_right (List.mem_cons_of_mem _)
      · rcases List.mem_cons.1 h with rfl | h
        · exact .inr List.mem_cons_self
        · exact (ih h).imp_right (List.mem_cons_of_mem _)

theorem sorted_nil : Sorted ([] : Keyed α) := List.Pairwise.nil

theorem Sorted.insert {entries : Keyed α} (h : Sorted entries) (key : Text) (value : α) :
    Sorted (insert key value entries) := by
  induction entries with
  | nil => simp [Sorted, keys, Keyed.insert]
  | cons e rest ih =>
    obtain ⟨k, v⟩ := e
    simp only [Sorted, keys, List.map_cons, List.pairwise_cons] at h
    obtain ⟨hk, hrest⟩ := h
    simp only [Keyed.insert]
    split
    · rename_i hlt
      simp only [Sorted, keys, List.map_cons, List.pairwise_cons, List.mem_cons]
      refine ⟨?_, hk, hrest⟩
      rintro a (rfl | ha)
      · exact hlt
      · exact List.lt_trans hlt (hk a ha)
    · split
      · rename_i he
        subst he
        simp only [Sorted, keys, List.map_cons, List.pairwise_cons]
        exact ⟨hk, hrest⟩
      · rename_i hnlt hne
        simp only [Sorted, keys, List.map_cons, List.pairwise_cons]
        refine ⟨fun a ha => ?_, ih hrest⟩
        have := mem_keys_insert.1 ha
        rcases this with rfl | h
        · exact Classical.byContradiction fun hcon => hne (List.le_antisymm hcon hnlt)
        · exact hk a h

theorem Sorted.insertNew {entries : Keyed α} (h : Sorted entries) (key : Text) (value : α) :
    Sorted (insertNew key value entries) := by
  unfold Keyed.insertNew
  split
  · exact h
  · exact h.insert key value

theorem Sorted.insertAll {entries : Keyed α} (h : Sorted entries) (more : Keyed α) :
    Sorted (insertAll entries more) := by
  induction more generalizing entries with
  | nil => exact h
  | cons e more ih => exact ih (h.insert e.1 e.2)

theorem sorted_ofList (more : List (Text × α)) : Sorted (ofList more) := sorted_nil.insertAll more

theorem lookup_eq_none_iff {key : Text} {entries : Keyed α} :
    lookup key entries = none ↔ key ∉ keys entries := by
  induction entries with
  | nil => simp [keys]
  | cons e rest ih =>
    obtain ⟨k, v⟩ := e
    simp only [lookup, keys, List.map_cons, List.mem_cons]
    by_cases h : key = k
    · simp [h]
    · simp only [h, if_false, false_or]; exact ih

/-- Sorted entries are determined by their view. -/
theorem Sorted.ext {a b : Keyed α} (ha : Sorted a) (hb : Sorted b)
    (h : ∀ key, lookup key a = lookup key b) : a = b := by
  induction a generalizing b with
  | nil =>
    cases b with
    | nil => rfl
    | cons e b => have := h e.1; simp [lookup] at this
  | cons e a ih =>
    obtain ⟨k, v⟩ := e
    cases b with
    | nil => have := h k; simp [lookup] at this
    | cons e' b =>
      obtain ⟨k', v'⟩ := e'
      simp only [Sorted, keys, List.map_cons, List.pairwise_cons] at ha hb
      have hkk : k = k' := by
        apply Classical.byContradiction
        intro hne
        have h1 : k ∈ keys b := by
          have := h k
          simp only [lookup, if_true, hne, if_false] at this
          exact Classical.byContradiction fun hn => by rw [lookup_eq_none_iff.2 hn] at this; cases this
        have h2 : k' ∈ keys a := by
          have := h k'
          simp only [lookup, if_true, Ne.symm hne, if_false] at this
          exact Classical.byContradiction fun hn => by rw [lookup_eq_none_iff.2 hn] at this; cases this
        exact List.lt_irrefl k (List.lt_trans (ha.1 k' h2) (hb.1 k h1))
      subst hkk
      have hvv := h k
      simp only [lookup, if_true, Option.some.injEq] at hvv
      subst hvv
      refine congrArg _ (ih ha.2 hb.2 fun key => ?_)
      have := h key
      by_cases he : key = k
      · subst he
        rw [lookup_eq_none_iff.2 fun hm => List.lt_irrefl _ (ha.1 _ hm),
          lookup_eq_none_iff.2 fun hm => List.lt_irrefl _ (hb.1 _ hm)]
      · simpa [lookup, he] using this

/-- Putting entries in gives each key its last value, or leaves what was there. -/
theorem lookup_insertAll (key : Text) (entries more : Keyed α) :
    lookup key (insertAll entries more) = (lookup key more.reverse).or (lookup key entries) := by
  induction more generalizing entries with
  | nil => simp [insertAll]
  | cons e more ih =>
    obtain ⟨k, v⟩ := e
    show lookup key (insertAll (insert k v entries) more) = _
    rw [ih, lookup_insert, List.reverse_cons, lookup_append]
    cases lookup key more.reverse <;> by_cases h : key = k <;> simp [lookup, h]

/-! ## Giving back what was there -/

theorem exchange_snd (key : Text) (value : α) (entries : Keyed α) :
    (exchange key value entries).2 = insert key value entries := by
  induction entries with
  | nil => rfl
  | cons e rest ih =>
    obtain ⟨k, v⟩ := e
    rw [exchange, insert]
    split
    · rfl
    · split
      · rfl
      · rw [Prod.map_snd, ih]

/-- Where the keys ascend, the place of a key is where its value stands. -/
theorem Sorted.exchange_fst {entries : Keyed α} (h : Sorted entries) (key : Text) (value : α) :
    (exchange key value entries).1 = lookup key entries := by
  induction entries with
  | nil => rfl
  | cons e rest ih =>
    obtain ⟨k, v⟩ := e
    simp only [Sorted, keys, List.map_cons, List.pairwise_cons] at h
    obtain ⟨hk, hrest⟩ := h
    rw [exchange, lookup]
    split
    · rename_i hlt
      have hne : key ≠ k := fun he => List.lt_irrefl k (he ▸ hlt)
      have hnone : lookup key rest = none :=
        lookup_eq_none_iff.2 fun hm => List.lt_irrefl key (List.lt_trans hlt (hk key hm))
      rw [if_neg hne, hnone]
    · split
      · rfl
      · rw [Prod.map_fst, ih hrest]
        rfl

end Keyed

end MarkupLens
