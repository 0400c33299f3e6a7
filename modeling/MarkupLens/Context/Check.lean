/-
Checks on a context: what a context is expected to bind, down into its lists
and records. Checks are made in order, and the first that fails is reported
with the path to where it failed.
-/
import MarkupLens.Context.Basic
import MarkupLens.Text.Quoted

namespace MarkupLens

/-- An expectation. -/
inductive Check where
  | keyCount (expected : Nat)
  | hasKey (key : Text)
  | lacksKey (key : Text)
  | text (key : Text) (expected : Text)
  | flag (key : Text) (expected : Bool)
  | listLength (key : Text) (expected : Nat)
  /-- the list at `key` has an item at `index`, and that item passes -/
  | item (key : Text) (index : Nat) (checks : List Check)
  /-- the record at `key` passes -/
  | record (key : Text) (checks : List Check)

/-- How an expectation fails. -/
inductive CheckFault where
  | missingKey (key : Text) (found : Context)
  | wrongKeyCount (expected : Nat) (found : Context)
  | unexpectedKey (key : Text)
  | wrongKind (key : Text) (expected : Text) (found : Value)
  | wrongText (key : Text) (expected found : Text)
  | wrongFlag (key : Text) (expected found : Bool)
  | wrongLength (key : Text) (expected found : Nat)
  | noItem (key : Text) (index : Nat) (length : Nat)

/-- A failed expectation and the path to the context it was about. -/
structure CheckFailure where
  path : Text
  fault : CheckFault

namespace CheckFailure

/-- The keys of a context with the kinds of their values. -/
def summary (c : Context) : Text :=
  "[" ++ Text.joinWith ", " (c.entries.map fun e => e.1 ++ ": " ++ e.2.kind) ++ "]"

/-- The text of a flag. -/
def flagText (on : Bool) : Text := if on then "true" else "false"

/-- The wording of a failure. -/
def message (f : CheckFailure) : Text :=
  let at_ (key : Text) : Text := f.path ++ '.' :: key ++ ": "
  match f.fault with
  | .missingKey key found => f.path ++ ": expected key '" ++ key ++ "', found " ++ summary found
  | .wrongKeyCount expected found =>
    f.path ++ ": expected " ++ Text.ofNat expected ++ " keys, found " ++ summary found
  | .unexpectedKey key => f.path ++ ": expected no key '" ++ key ++ "'"
  | .wrongKind key expected found => at_ key ++ "expected " ++ expected ++ ", found " ++ found.kind
  | .wrongText key expected found =>
    at_ key ++ "expected text " ++ Text.quoted expected ++ ", found " ++ Text.quoted found
  | .wrongFlag key expected found => at_ key ++ "expected " ++ flagText expected ++ ", found " ++ flagText found
  | .wrongLength key expected found =>
    at_ key ++ "expected " ++ Text.ofNat expected ++ " items, found " ++ Text.ofNat found
  | .noItem key index length =>
    at_ key ++ "item index " ++ Text.ofNat index ++ " out of bounds (" ++ Text.ofNat length ++ " items)"

end CheckFailure

namespace Context

/-- The value at a key that must be bound. -/
def expect (path : Text) (c : Context) (key : Text) : Except CheckFailure Value :=
  match c.get? key with
  | some v => .ok v
  | none => .error ⟨path, .missingKey key c⟩

/-- The list at a key that must hold one. -/
def expectList (path : Text) (c : Context) (key : Text) : Except CheckFailure (List Context) := do
  match ← c.expect path key with
  | .list items => return items
  | other => .error ⟨path, .wrongKind key "list" other⟩

/-- The record at a key that must hold one. -/
def expectRecord (path : Text) (c : Context) (key : Text) : Except CheckFailure Context := do
  match ← c.expect path key with
  | .record r => return r
  | other => .error ⟨path, .wrongKind key "record" other⟩

mutual

/-- Makes one check. -/
def check (path : Text) (c : Context) : Check → Except CheckFailure Unit
  | .keyCount expected => if c.size = expected then .ok () else .error ⟨path, .wrongKeyCount expected c⟩
  | .hasKey key => (c.expect path key).map fun _ => ()
  | .lacksKey key => if (c.get? key).isNone then .ok () else .error ⟨path, .unexpectedKey key⟩
  | .text key expected => do
    match ← c.expect path key with
    | .text found => if found = expected then return else .error ⟨path, .wrongText key expected found⟩
    | other => .error ⟨path, .wrongKind key "text" other⟩
  | .flag key expected => do
    match ← c.expect path key with
    | .flag found => if found = expected then return else .error ⟨path, .wrongFlag key expected found⟩
    | other => .error ⟨path, .wrongKind key "bool" other⟩
  | .listLength key expected => do
    let items ← c.expectList path key
    if items.length = expected then return else .error ⟨path, .wrongLength key expected items.length⟩
  | .item key index checks => do
    let items ← c.expectList path key
    match items[index]? with
    | none => .error ⟨path, .noItem key index items.length⟩
    | some item => checkAll (path ++ '.' :: key ++ '[' :: Text.ofNat index ++ "]") item checks
  | .record key checks => do
    let r ← c.expectRecord path key
    checkAll (path ++ '.' :: key) r checks

/-- Makes some checks in order, up to the first that fails. -/
def checkAll (path : Text) (c : Context) : List Check → Except CheckFailure Unit
  | [] => .ok ()
  | k :: ks => do
    check path c k
    checkAll path c ks

end

end Context

end MarkupLens
