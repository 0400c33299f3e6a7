/-
Reading a JSON text. Lexemes are taken one by one by a machine with a stack
of the containers that are open (`step`), so nesting costs no recursion and
its depth is the height of the stack. A text is read whole or not at all:
one value, with nothing but space around it.

Members come out in the order of their keys, the last one of each key.
-/
import MarkupLens.Json.Lexeme

namespace MarkupLens.Json

/-- A container that is open around the value being read. -/
inductive Frame where
  /-- an array with the items before the value -/
  | array (items : List Json)
  /-- an object with the members before the value, and the value's key -/
  | object (members : Keyed Json) (key : Text)

/-- What may come next. -/
inductive Awaiting where
  | value
  | valueOrEnd
  | keyOrEnd
  | key (members : Keyed Json)
  | colon (members : Keyed Json) (key : Text)
  /-- a value is complete -/
  | next (value : Json)

/-- The state of the reader: the open containers, the innermost first, and what may come next. -/
structure State where
  stack : List Frame
  awaiting : Awaiting

/-- Before the first lexeme. -/
def State.start : State := ⟨[], .value⟩

/-- A lexeme where a value may start. Containers nest at most `limit` deep, if there is a limit. -/
def beginValue (limit : Option Nat) (stack : List Frame) (l : Lexeme) : Option State :=
  let deep : Bool := limit.any (· ≤ stack.length)
  match l with
  | .atom v => some ⟨stack, .next v⟩
  | .string s => some ⟨stack, .next (.string s)⟩
  | .openBracket => if deep then none else some ⟨.array [] :: stack, .valueOrEnd⟩
  | .openBrace => if deep then none else some ⟨stack, .keyOrEnd⟩
  | _ => none

/-- What one lexeme does. -/
def step (limit : Option Nat) (s : State) (l : Lexeme) : Option State :=
  match s.awaiting, l with
  | .value, l => beginValue limit s.stack l
  | .valueOrEnd, .closeBracket =>
    match s.stack with
    | .array items :: stack => some ⟨stack, .next (.array items)⟩
    | _ => none
  | .valueOrEnd, l => beginValue limit s.stack l
  | .keyOrEnd, .closeBrace => some ⟨s.stack, .next (.object [])⟩
  | .keyOrEnd, .string key => some { s with awaiting := .colon [] key }
  | .key members, .string key => some { s with awaiting := .colon members key }
  | .colon members key, .colon => some ⟨.object members key :: s.stack, .value⟩
  | .next v, .comma =>
    match s.stack with
    | .array items :: stack => some ⟨.array (items ++ [v]) :: stack, .value⟩
    | .object members key :: stack => some ⟨stack, .key (members.insert key v)⟩
    | [] => none
  | .next v, .closeBracket =>
    match s.stack with
    | .array items :: stack => some ⟨stack, .next (.array (items ++ [v]))⟩
    | _ => none
  | .next v, .closeBrace =>
    match s.stack with
    | .object members key :: stack => some ⟨stack, .next (.object (members.insert key v))⟩
    | _ => none
  | _, _ => none

/-- The value, if it is complete. -/
def State.value? (s : State) : Option Json :=
  match s.stack, s.awaiting with
  | [], .next v => some v
  | _, _ => none

/-- Reads lexemes to the end of the text. Each takes one character or more. -/
def run (limit : Option Nat) (state : State) : Text → Option State
  | [] => some state
  | c :: s =>
    if isSpace c then run limit state s
    else
      match _h : lexeme? c s with
      | none => none
      | some (l, rest) =>
        match step limit state l with
        | none => none
        | some state => run limit state rest
termination_by s => s.length
decreasing_by
  · simp
  · have := lexeme?_rest _h
    simp only [List.length_cons]; omega

/-- The value that a text holds, with containers nested at most `limit` deep. -/
def read? (limit : Option Nat) (s : Text) : Option Json := (run limit .start s).bind State.value?

/-- The depth to which containers nest in host data. -/
def depthLimit : Nat := 127

end MarkupLens.Json
