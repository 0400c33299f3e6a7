/-
Contexts: records of keys bound to values. A value is a text, a flag, a
list of records, or a record. This is what templates are rendered against
and what extraction gives back.

The entries of a context stand in the order of their keys, and every
operation keeps them so (`Canonical`); a context is therefore determined by
what `get?` finds in it (`Canonical.ext`), whatever its history.
-/
import MarkupLens.Keyed

namespace MarkupLens

mutual

/-- A bound value. -/
inductive Value where
  | flag (on : Bool)
  | text (text : Text)
  | list (items : List Context)
  | record (record : Context)

/-- A record of bound values. -/
inductive Context where
  | ofEntries (entries : List (Text × Value))

end

namespace Value

/-- The text that a value shows as, if it is no list and no record. -/
def asText? : Value → Option Text
  | .text t => some t
  | .flag true => some "true"
  | .flag false => some "false"
  | .list _ | .record _ => none

/-- The records of a list. -/
def asList? : Value → Option (List Context)
  | .list items => some items
  | _ => none

/-- The record, if the value is one. -/
def asRecord? : Value → Option Context
  | .record r => some r
  | _ => none

/-- Whether the value asks for the attribute of that name to be there: the flag is on, or the text is the
attribute's name. -/
def asksFor (name : Text) : Value → Bool
  | .flag on => on
  | .text t => t == name
  | .list _ | .record _ => false

/-- What a value is, as listings name it. -/
def kind : Value → Text
  | .flag _ => "bool"
  | .text _ => "text"
  | .list _ => "list"
  | .record _ => "record"

end Value

namespace Context

/-- The keys and values, in the order of the keys. -/
def entries : Context → Keyed Value
  | .ofEntries es => es

/-- The record that binds nothing. -/
def empty : Context := .ofEntries []

/-- The value bound at a key. -/
def get? (c : Context) (key : Text) : Option Value := Keyed.lookup key c.entries

/-- Binds a key, in place of what was bound to it. -/
def insert (c : Context) (key : Text) (value : Value) : Context := .ofEntries (c.entries.insert key value)

/-- Binds a key, and gives back what was bound to it. -/
def exchange (c : Context) (key : Text) (value : Value) : Option Value × Context :=
  (c.entries.exchange key value).map id .ofEntries

/-- Binds all that another context binds. -/
def merge (c other : Context) : Context := .ofEntries (c.entries.insertAll other.entries)

/-- The context that binds each key to its last value in the list. -/
def ofList (entries : List (Text × Value)) : Context := .ofEntries (Keyed.ofList entries)

/-- The keys, in order. -/
def keys (c : Context) : List Text := c.entries.keys

/-- The number of keys. -/
def size (c : Context) : Nat := c.entries.length

/-- The keys ascend. -/
def Canonical (c : Context) : Prop := c.entries.Sorted

instance (c : Context) : Decidable c.Canonical := inferInstanceAs (Decidable c.entries.Sorted)

@[simp] theorem get?_empty (key : Text) : empty.get? key = none := rfl

theorem get?_insert (c : Context) (key other : Text) (value : Value) :
    (c.insert key value).get? other = if other = key then some value else c.get? other :=
  Keyed.lookup_insert ..

theorem get?_insert_self (c : Context) (key : Text) (value : Value) :
    (c.insert key value).get? key = some value := by simp [get?_insert]

theorem exchange_snd (c : Context) (key : Text) (value : Value) : (c.exchange key value).2 = c.insert key value :=
  congrArg ofEntries (Keyed.exchange_snd key value c.entries)

theorem canonical_empty : empty.Canonical := Keyed.sorted_nil

theorem Canonical.insert {c : Context} (h : c.Canonical) (key : Text) (value : Value) :
    (c.insert key value).Canonical := Keyed.Sorted.insert h key value

/-- What is given back is what was found before. -/
theorem Canonical.exchange_fst {c : Context} (h : c.Canonical) (key : Text) (value : Value) :
    (c.exchange key value).1 = c.get? key := Keyed.Sorted.exchange_fst h key value

theorem Canonical.merge {c : Context} (h : c.Canonical) (other : Context) : (c.merge other).Canonical :=
  Keyed.Sorted.insertAll h other.entries

theorem canonical_ofList (entries : List (Text × Value)) : (ofList entries).Canonical :=
  Keyed.sorted_ofList entries

/-- A context shows nothing but what is bound in it. -/
theorem Canonical.ext {c d : Context} (hc : c.Canonical) (hd : d.Canonical) (h : ∀ key, c.get? key = d.get? key) :
    c = d := by
  cases c; cases d
  exact congrArg _ (Keyed.Sorted.ext hc hd h)

end Context

/-! ## Equality -/

mutual

/-- Equality of values, part by part. -/
def Value.same : Value → Value → Bool
  | .flag a, .flag b => a == b
  | .text a, .text b => a == b
  | .list a, .list b => Context.sameItems a b
  | .record a, .record b => Context.same a b
  | _, _ => false

/-- Equality of contexts, entry by entry. -/
def Context.same : Context → Context → Bool
  | .ofEntries a, .ofEntries b => Context.sameEntries a b

/-- Equality of lists of contexts. -/
def Context.sameItems : List Context → List Context → Bool
  | [], [] => true
  | a :: as, b :: bs => Context.same a b && Context.sameItems as bs
  | _, _ => false

/-- Equality of lists of entries. -/
def Context.sameEntries : List (Text × Value) → List (Text × Value) → Bool
  | [], [] => true
  | (k, v) :: es, (l, w) :: fs => k == l && (Value.same v w && Context.sameEntries es fs)
  | _, _ => false

end

mutual

theorem Value.same_iff : ∀ a b : Value, Value.same a b = true ↔ a = b
  | .flag a, b => by cases b <;> simp [Value.same]
  | .text a, b => by cases b <;> simp [Value.same]
  | .list a, b => by
    cases b with
    | list b => have h := Context.sameItems_iff a b; simp [Value.same, h]
    | _ => simp [Value.same]
  | .record a, b => by
    cases b with
    | record b => have h := Context.same_iff a b; simp [Value.same, h]
    | _ => simp [Value.same]

theorem Context.same_iff : ∀ a b : Context, Context.same a b = true ↔ a = b
  | .ofEntries a, .ofEntries b => by have h := Context.sameEntries_iff a b; simp [Context.same, h]

theorem Context.sameItems_iff : ∀ a b : List Context, Context.sameItems a b = true ↔ a = b
  | [], b => by cases b <;> simp [Context.sameItems]
  | a :: as, b => by
    cases b with
    | nil => simp [Context.sameItems]
    | cons b bs =>
      have h := Context.same_iff a b
      have hs := Context.sameItems_iff as bs
      simp [Context.sameItems, h, hs]

theorem Context.sameEntries_iff : ∀ a b : List (Text × Value), Context.sameEntries a b = true ↔ a = b
  | [], b => by cases b <;> simp [Context.sameEntries]
  | (k, v) :: es, b => by
    cases b with
    | nil => simp [Context.sameEntries]
    | cons f fs =>
      obtain ⟨l, w⟩ := f
      have h := Value.same_iff v w
      have hs := Context.sameEntries_iff es fs
      simp [Context.sameEntries, h, hs, and_assoc]

end

instance : DecidableEq Context := fun a b => decidable_of_iff _ (Context.same_iff a b)

instance : DecidableEq Value := fun a b => decidable_of_iff _ (Value.same_iff a b)

end MarkupLens
