/-
Host data as a context, and a context as JSON.

An object becomes a record: every key must be a word, `null` binds nothing,
numbers become their text, and the items of an array must be objects. The
first offence, in the order of the members and a key before its value, is
the one reported.
-/
import MarkupLens.Context.Basic
import MarkupLens.Json.Reader
import MarkupLens.Text.Word

namespace MarkupLens

/-- Why host data is no context. -/
inductive ContextError where
  /-- the text is not JSON -/
  | unreadable
  /-- the whole is no object, but `found` -/
  | notAnObject (found : Text)
  /-- an item of the list at `key` is no object, but `found` -/
  | itemNotAnObject (key : Text) (index : Nat) (found : Text)
  /-- a key is not a word -/
  | invalidKey (key : Text)
  deriving DecidableEq, Repr

/-- The wording of an error. -/
def ContextError.message : ContextError → Text
  | .unreadable => "Parse error"
  | .notAnObject found => "Context must be an object, found " ++ found
  | .itemNotAnObject key index found =>
    "List '" ++ key ++ "' item " ++ Text.ofNat index ++ " must be an object, found " ++ found
  | .invalidKey key => "Invalid key '" ++ key ++ "': keys must match \\w+"

namespace Context

mutual

/-- The value that a member stands for; `null` stands for none. -/
def valueOfJson (key : Text) : Json → Except ContextError (Option Value)
  | .null => .ok none
  | .bool on => .ok (some (.flag on))
  | .number n => .ok (some (.text n.text))
  | .string s => .ok (some (.text s))
  | .array items => do return some (.list (← itemsOfJson key 0 items))
  | .object members => do return some (.record (.ofEntries (← entriesOfJson members)))

/-- The records that the items of the list at `key` stand for, from an index on. -/
def itemsOfJson (key : Text) (index : Nat) : List Json → Except ContextError (List Context)
  | [] => .ok []
  | .object members :: items => do
    let record := .ofEntries (← entriesOfJson members)
    let rest ← itemsOfJson key (index + 1) items
    return record :: rest
  | item :: _ => .error (.itemNotAnObject key index item.kind)

/-- The entries that members stand for. -/
def entriesOfJson : List (Text × Json) → Except ContextError (List (Text × Value))
  | [] => .ok []
  | (key, value) :: members =>
    if Text.isWord key then do
      let bound ← valueOfJson key value
      let rest ← entriesOfJson members
      return match bound with
        | none => rest
        | some v => (key, v) :: rest
    else .error (.invalidKey key)

end

/-- The context that host data stands for. -/
def ofJson : Json → Except ContextError Context
  | .object members => do return .ofEntries (← entriesOfJson members)
  | other => .error (.notAnObject other.kind)

/-- The context that a JSON text stands for. -/
def ofJsonText (s : Text) : Except ContextError Context :=
  match Json.read? (some Json.depthLimit) s with
  | none => .error .unreadable
  | some value => ofJson value

mutual

/-- A value as JSON. -/
def valueToJson : Value → Json
  | .flag on => .bool on
  | .text t => .string t
  | .list items => .array (itemsToJson items)
  | .record r => toJson r

/-- A context as a JSON object. -/
def toJson : Context → Json
  | .ofEntries entries => .object (entriesToJson entries)

/-- Records as JSON objects. -/
def itemsToJson : List Context → List Json
  | [] => []
  | c :: cs => toJson c :: itemsToJson cs

/-- Entries as members. -/
def entriesToJson : List (Text × Value) → List (Text × Json)
  | [] => []
  | (key, value) :: entries => (key, valueToJson value) :: entriesToJson entries

end

end Context

end MarkupLens
