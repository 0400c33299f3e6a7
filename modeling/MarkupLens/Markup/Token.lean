/-
Markup cut into tokens: tags, comments, declarations and text runs. A token
carries its own text, and the texts of the tokens put together are the
source again, up to a tail (`source_tokens_append_tail`): a tag or
declaration that never meets its `>` is no token and ends the cutting.

The bytes a token covers are not stored; they are measured on the texts in
front of it (`spansFrom`).
-/
import MarkupLens.Text.Blank
import MarkupLens.Text.Utf8

namespace MarkupLens

/-- What a stretch of markup is. -/
inductive TokenKind where
  /-- `<!--` through the first `-->` after it, or to the end of the source -/
  | comment
  /-- `<!` and a letter, or `<?`, through the first `>` -/
  | declaration
  /-- `</` through the first `>` -/
  | closeTag
  /-- `<` and a letter, through the first `>` -/
  | openTag
  /-- a `<` that starts none of these -/
  | strayAngle
  /-- a run without `<`, as long as possible -/
  | text
  deriving DecidableEq, Repr

/-- The name of a kind, as listings show it. -/
def TokenKind.name : TokenKind → Text
  | .comment => "Comment"
  | .declaration => "Declaration"
  | .closeTag => "CloseTag"
  | .openTag => "OpenTag"
  | .strayAngle => "StrayAngle"
  | .text => "Text"

/-- A stretch of markup and what it is. -/
structure Token where
  kind : TokenKind
  text : Text
  deriving DecidableEq, Repr

namespace Token

/-- The markup that a list of tokens was cut from. -/
def source (tokens : List Token) : Text := tokens.flatMap (·.text)

@[simp] theorem source_nil : source [] = [] := rfl

@[simp] theorem source_cons (t : Token) (ts : List Token) : source (t :: ts) = t.text ++ source ts := rfl

@[simp] theorem source_append (ts us : List Token) : source (ts ++ us) = source ts ++ source us := by
  simp [source]

/-- The bytes each token covers, from first to one past the last, when the first one starts at `start`. -/
def spansFrom (start : Nat) : List Token → List (Nat × Nat)
  | [] => []
  | t :: ts => (start, start + t.text.byteLength) :: spansFrom (start + t.text.byteLength) ts

end Token

namespace Markup

open Text (after?)

/-- The text through the first `stop`, and what follows. -/
def through? (stop : Char) : Text → Option (Text × Text)
  | [] => none
  | c :: s => if c = stop then some ([c], s) else (through? stop s).map fun p => (c :: p.1, p.2)

/-- The text through the first `-->`, or all of it, and what follows. -/
def commentBody : Text → Text × Text
  | [] => ([], [])
  | c :: s =>
    match after? "-->" (c :: s) with
    | some rest => ("-->", rest)
    | none => (c :: (commentBody s).1, (commentBody s).2)

/-- What a `<` followed by `s` starts, comments apart; such a token ends at the first `>`. -/
def tagKind? : Text → Option TokenKind
  | '?' :: _ => some .declaration
  | '/' :: _ => some .closeTag
  | '!' :: c :: _ => if c.isAlpha then some .declaration else none
  | c :: _ => if c.isAlpha then some .openTag else none
  | [] => none

/-- The token at the head of the markup and what follows it. There is none in the empty text, nor where a
tag or declaration starts that has no `>`. -/
def next? : Text → Option (Token × Text)
  | [] => none
  | c :: s =>
    if c = '<' then
      match after? "!--" s with
      | some body => some (⟨.comment, "<!--" ++ (commentBody body).1⟩, (commentBody body).2)
      | none =>
        match tagKind? s with
        | some kind => (through? '>' s).map fun p => (⟨kind, '<' :: p.1⟩, p.2)
        | none => some (⟨.strayAngle, ['<']⟩, s)
    else some (⟨.text, c :: s.takeWhile (· != '<')⟩, s.dropWhile (· != '<'))

theorem through?_eq {stop : Char} {s a b : Text} (h : through? stop s = some (a, b)) : s = a ++ b := by
  induction s generalizing a with
  | nil => simp [through?] at h
  | cons c s ih =>
    simp only [through?] at h
    split at h
    · simp only [Option.some.injEq, Prod.mk.injEq] at h
      obtain ⟨rfl, rfl⟩ := h; rfl
    · simp only [Option.map_eq_some_iff, Prod.mk.injEq] at h
      obtain ⟨⟨a', b'⟩, h, rfl, rfl⟩ := h
      simp [ih h]

theorem commentBody_append (s : Text) : (commentBody s).1 ++ (commentBody s).2 = s := by
  induction s with
  | nil => rfl
  | cons c s ih =>
    simp only [commentBody]
    split
    · rename_i rest h; exact (Text.after?_eq_some.1 h).symm
    · simp [ih]

theorem next?_eq {s rest : Text} {t : Token} (h : next? s = some (t, rest)) : s = t.text ++ rest := by
  cases s with
  | nil => simp [next?] at h
  | cons c s =>
    simp only [next?] at h
    split at h
    · rename_i hc
      subst hc
      split at h
      · rename_i body hb
        simp only [Option.some.injEq, Prod.mk.injEq] at h
        obtain ⟨rfl, rfl⟩ := h
        rw [Text.after?_eq_some.1 hb, List.append_assoc, commentBody_append]
        rfl
      · split at h
        · simp only [Option.map_eq_some_iff, Prod.mk.injEq] at h
          obtain ⟨⟨a, b⟩, hp, rfl, rfl⟩ := h
          simp [through?_eq hp]
        · simp only [Option.some.injEq, Prod.mk.injEq] at h
          obtain ⟨rfl, rfl⟩ := h; rfl
    · simp only [Option.some.injEq, Prod.mk.injEq] at h
      obtain ⟨rfl, rfl⟩ := h
      simp [List.takeWhile_append_dropWhile]

theorem next?_text_ne_nil {s rest : Text} {t : Token} (h : next? s = some (t, rest)) : t.text ≠ [] := by
  cases s with
  | nil => simp [next?] at h
  | cons c s =>
    simp only [next?] at h
    split at h
    · split at h
      · simp only [Option.some.injEq, Prod.mk.injEq] at h
        obtain ⟨rfl, -⟩ := h; simp
      · split at h
        · simp only [Option.map_eq_some_iff, Prod.mk.injEq] at h
          obtain ⟨_, _, rfl, _⟩ := h; simp
        · simp only [Option.some.injEq, Prod.mk.injEq] at h
          obtain ⟨rfl, -⟩ := h; simp
    · simp only [Option.some.injEq, Prod.mk.injEq] at h
      obtain ⟨rfl, -⟩ := h; simp

theorem next?_shorter {s rest : Text} {t : Token} (h : next? s = some (t, rest)) : rest.length < s.length := by
  have hl := congrArg List.length (next?_eq h)
  have := List.length_pos_iff.2 (next?_text_ne_nil h)
  simp only [List.length_append] at hl
  omega

/-- The tokens of the markup, in order. -/
def tokens (s : Text) : List Token :=
  match _h : next? s with
  | none => []
  | some (t, rest) => t :: tokens rest
termination_by s.length
decreasing_by exact next?_shorter _h

/-- What is left where no further token can be cut. -/
def tail (s : Text) : Text :=
  match _h : next? s with
  | none => s
  | some (_, rest) => tail rest
termination_by s.length
decreasing_by exact next?_shorter _h

theorem tokens_of_next? {s rest : Text} {t : Token} (h : next? s = some (t, rest)) :
    tokens s = t :: tokens rest := by
  rw [tokens]; split <;> simp_all

theorem tokens_of_next?_none {s : Text} (h : next? s = none) : tokens s = [] := by
  rw [tokens]; split <;> simp_all

theorem tail_of_next? {s rest : Text} {t : Token} (h : next? s = some (t, rest)) : tail s = tail rest := by
  rw [tail]; split <;> simp_all

theorem tail_of_next?_none {s : Text} (h : next? s = none) : tail s = s := by
  rw [tail]; split <;> simp_all

/-- **Nothing but the tail is lost:** the tokens put together, and the tail, are the markup. -/
theorem source_tokens_append_tail (s : Text) : Token.source (tokens s) ++ tail s = s := by
  generalize hn : s.length = n
  induction n using Nat.strongRecOn generalizing s with
  | _ n ih =>
    cases h : next? s with
    | none => simp [tokens_of_next?_none h, tail_of_next?_none h]
    | some p =>
      obtain ⟨t, rest⟩ := p
      have hlt := next?_shorter h
      rw [tokens_of_next? h, tail_of_next? h, Token.source_cons, List.append_assoc,
        ih rest.length (hn ▸ hlt) rest rfl]
      exact (next?_eq h).symm

end Markup

end MarkupLens
