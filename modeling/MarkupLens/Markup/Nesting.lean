/-
Which close tag ends an element. Only tags of the element's own name count,
without regard to case: each one that opens a body raises the depth, each
close tag lowers it. `splitAtClose` hands out what lies on both sides of the
close tag; nothing is lost (`splitAtClose_eq`).
-/
import MarkupLens.Markup.Tag

namespace MarkupLens

/-- The tokens after an open tag, split at its close tag. -/
structure Enclosed where
  inner : List Token
  close : Token
  after : List Token

namespace Markup

/-- The token opens an element of that name that has content. -/
def opens (name : Text) (t : Token) : Bool :=
  t.kind == .openTag && Text.sameName (openTagName t.text) name && opensBody t.text

/-- The token closes an element of that name. -/
def closes (name : Text) (t : Token) : Bool :=
  t.kind == .closeTag && Text.sameName (closeTagName t.text) name

/-- The tokens split at the close tag that brings the depth down from `depth + 1` to zero. -/
def splitAtClose (name : Text) : (depth : Nat) → List Token → Option Enclosed
  | _, [] => none
  | depth, t :: rest =>
    if closes name t then
      match depth with
      | 0 => some ⟨[], t, rest⟩
      | depth + 1 => (splitAtClose name depth rest).map fun e => { e with inner := t :: e.inner }
    else
      (splitAtClose name (if opens name t then depth + 1 else depth) rest).map
        fun e => { e with inner := t :: e.inner }

theorem splitAtClose_eq {name : Text} {depth : Nat} {tokens : List Token} {e : Enclosed}
    (h : splitAtClose name depth tokens = some e) : tokens = e.inner ++ e.close :: e.after := by
  induction tokens generalizing depth e with
  | nil => simp [splitAtClose] at h
  | cons t rest ih =>
    simp only [splitAtClose] at h
    split at h
    · cases depth with
      | zero =>
        simp only [Option.some.injEq] at h
        subst h; rfl
      | succ depth =>
        simp only [Option.map_eq_some_iff] at h
        obtain ⟨e', h, rfl⟩ := h
        simp only [List.cons_append, ← ih h]
    · simp only [Option.map_eq_some_iff] at h
      obtain ⟨e', h, rfl⟩ := h
      simp only [List.cons_append, ← ih h]

theorem splitAtClose_close {name : Text} {depth : Nat} {tokens : List Token} {e : Enclosed}
    (h : splitAtClose name depth tokens = some e) : closes name e.close = true := by
  induction tokens generalizing depth e with
  | nil => simp [splitAtClose] at h
  | cons t rest ih =>
    simp only [splitAtClose] at h
    split at h
    · rename_i hc
      cases depth with
      | zero =>
        simp only [Option.some.injEq] at h
        subst h; exact hc
      | succ depth =>
        simp only [Option.map_eq_some_iff] at h
        obtain ⟨e', h, rfl⟩ := h
        have := ih h
        exact this
    · simp only [Option.map_eq_some_iff] at h
      obtain ⟨e', h, rfl⟩ := h
      have := ih h
      exact this

/-- The tokens on both sides of the close tag are fewer than all of them. -/
theorem splitAtClose_shorter {name : Text} {depth : Nat} {tokens : List Token} {e : Enclosed}
    (h : splitAtClose name depth tokens = some e) :
    e.inner.length < tokens.length ∧ e.after.length < tokens.length := by
  have := congrArg List.length (splitAtClose_eq h)
  simp only [List.length_append, List.length_cons] at this
  omega

/-- The place of the close tag that matches the open tag at place `i`. -/
def matchingClose? (tokens : List Token) (i : Nat) : Option Nat :=
  match tokens.drop i with
  | [] => none
  | t :: rest =>
    if t.kind = .openTag then
      (splitAtClose (openTagName t.text) 0 rest).map fun e => i + 1 + e.inner.length
    else none

end Markup

end MarkupLens
