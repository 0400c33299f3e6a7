/-
Parts of a page cut on their own. What a token is depends on what follows it,
yet on nothing that a boundary keeps out: the tokens between two boundaries of
a page are those of the text between them, moved by the bytes in front of it,
and nothing of that text is left over (`spanned_excerpt`). So a body can be
walked over as the tokens it has in the page, or cut anew.

A boundary has some of the tokens in front of it and the others behind it
(`IsBoundary.exists_split`). Of two boundaries the later one has more of them in
front, since every token covers a byte (`exists_between`), so what lies between
them is a run of the tokens, which `tokens_source_between` is about.
-/
import MarkupLens.Proofs.Markup.Grammar
import MarkupLens.Proofs.Text.Slices

namespace MarkupLens

open Text (byteLength slice?)

namespace Token

theorem spansFrom_append (first : Nat) (ts us : List Token) :
    spansFrom first (ts ++ us) = spansFrom first ts ++ spansFrom (first + byteLength (source ts)) us := by
  induction ts generalizing first with
  | nil => rfl
  | cons t ts ih =>
    rw [List.cons_append, spansFrom, spansFrom, ih, List.cons_append, source_cons, Text.byteLength_append,
      Nat.add_assoc]

/-- The bytes that tokens cover when they start so many bytes further on. -/
theorem spansFrom_add (n first : Nat) (ts : List Token) :
    spansFrom (n + first) ts = (spansFrom first ts).map fun span => (n + span.1, n + span.2) := by
  induction ts generalizing first with
  | nil => rfl
  | cons t ts ih => rw [spansFrom, spansFrom, List.map_cons, Nat.add_assoc, ih]

/-- A token covers the bytes of its text, which lie among those of all the tokens. -/
theorem bounds_of_mem_zip {first : Nat} {ts : List Token} {p : Token × (Nat × Nat)}
    (h : p ∈ ts.zip (spansFrom first ts)) :
    first ≤ p.2.1 ∧ p.2.2 = p.2.1 + byteLength p.1.text ∧ p.2.2 ≤ first + byteLength (source ts) := by
  induction ts generalizing first with
  | nil => cases h
  | cons t ts ih =>
    rw [spansFrom, List.zip_cons_cons, List.mem_cons] at h
    rw [source_cons, Text.byteLength_append]
    rcases h with rfl | h
    · dsimp only
      omega
    · obtain ⟨h1, h2, h3⟩ := ih h
      omega

end Token

namespace Markup

/-! ## Boundaries -/

/-- A byte of the page at which a token starts or ends, or at which the page starts. -/
def IsBoundary (page : Text) (n : Nat) : Prop := n = 0 ∨ ∃ p ∈ spanned page, n = p.2.1 ∨ n = p.2.2

instance (page : Text) (n : Nat) : Decidable (IsBoundary page n) :=
  inferInstanceAs (Decidable (n = 0 ∨ ∃ p ∈ spanned page, n = p.2.1 ∨ n = p.2.2))

/-- **A boundary** has some of the tokens in front of it and the others behind it. -/
theorem IsBoundary.exists_split {page : Text} {n : Nat} (h : IsBoundary page n) :
    ∃ ts us, tokens page = ts ++ us ∧ byteLength (Token.source ts) = n := by
  rcases h with rfl | ⟨⟨t, span⟩, hmem, hn⟩
  · exact ⟨[], tokens page, rfl, rfl⟩
  · obtain ⟨before, after, hsplit⟩ := List.append_of_mem hmem
    have htokens : tokens page = before.map (·.1) ++ t :: after.map (·.1) := by
      rw [← map_fst_spanned, hsplit, List.map_append, List.map_cons]
    obtain ⟨hstart, hstop⟩ := span_of_zip hsplit
    rw [Nat.zero_add] at hstart
    rcases hn with rfl | rfl
    · exact ⟨_, _, htokens, hstart.symm⟩
    · refine ⟨before.map (·.1) ++ [t], after.map (·.1), by rw [htokens, List.append_cons], ?_⟩
      rw [hstop, hstart, Token.source_append, Text.byteLength_append, Token.source_cons, Token.source_nil,
        List.append_nil]

/-- Of two boundaries, the later one has the tokens between them in front of it as well. -/
theorem exists_between {page : Text} {a b : Nat} (ha : IsBoundary page a) (hb : IsBoundary page b) (hle : a ≤ b) :
    ∃ ts us vs, tokens page = ts ++ us ++ vs ∧ byteLength (Token.source ts) = a ∧
      byteLength (Token.source (ts ++ us)) = b := by
  obtain ⟨ts, rest, hts, rfl⟩ := ha.exists_split
  obtain ⟨ts', vs, hts', rfl⟩ := hb.exists_split
  rcases List.append_eq_append_iff.1 (hts.symm.trans hts') with ⟨us, rfl, -⟩ | ⟨more, rfl, -⟩
  · exact ⟨ts, us, vs, hts', rfl, rfl⟩
  · -- tokens in front of the first boundary alone would cover no byte
    have hmore : more = [] := by
      cases more with
      | nil => rfl
      | cons t more =>
        have hmem : t ∈ tokens page := by
          rw [hts]
          simp
        have hpos := Text.byteLength_pos (text_ne_nil_of_mem hmem)
        rw [Token.source_append, Token.source_cons, Text.byteLength_append, Text.byteLength_append] at hle
        omega
    subst hmore
    refine ⟨ts', [], vs, ?_, ?_, ?_⟩
    · rw [List.append_nil, hts']
    · rw [List.append_nil]
    · rw [List.append_nil]

/-! ## What lies between them -/

/-- The tokens of a page between two bytes, each with the bytes it covers. -/
def spannedBetween (a b : Nat) (page : Text) : List (Token × (Nat × Nat)) :=
  (spanned page).filter fun p => a ≤ p.2.1 && p.2.2 ≤ b

/-- A token that starts so many bytes further on. -/
def moved (n : Nat) (p : Token × (Nat × Nat)) : Token × (Nat × Nat) := (p.1, (n + p.2.1, n + p.2.2))

theorem zip_spansFrom_moved (n : Nat) (ts : List Token) :
    ts.zip (Token.spansFrom n ts) = (ts.zip (Token.spansFrom 0 ts)).map (moved n) := by
  have h := Token.spansFrom_add n 0 ts
  rw [Nat.add_zero] at h
  rw [h, List.zip_map_right]
  rfl

/-- The tokens between two boundaries are those that cover bytes between them. -/
theorem spannedBetween_eq {page : Text} {ts us vs : List Token} (h : tokens page = ts ++ us ++ vs) :
    spannedBetween (byteLength (Token.source ts)) (byteLength (Token.source (ts ++ us))) page =
      us.zip (Token.spansFrom (byteLength (Token.source ts)) us) := by
  have hpos : ∀ t ∈ ts ++ us ++ vs, 0 < byteLength t.text := by
    intro t ht
    exact Text.byteLength_pos (text_ne_nil_of_mem (h ▸ ht))
  have hparts : spanned page = ts.zip (Token.spansFrom 0 ts) ++
      us.zip (Token.spansFrom (byteLength (Token.source ts)) us) ++
      vs.zip (Token.spansFrom (byteLength (Token.source (ts ++ us))) vs) := by
    rw [spanned, h, Token.spansFrom_append, Token.spansFrom_append, Nat.zero_add, Nat.zero_add,
      List.zip_append (by simp), List.zip_append (by simp)]
  rw [spannedBetween, hparts, List.filter_append, List.filter_append, List.filter_eq_nil_iff.2, List.filter_eq_self.2,
    List.filter_eq_nil_iff.2, List.nil_append, List.append_nil]
  · intro p hp
    have hbounds := Token.bounds_of_mem_zip hp
    have hbyte := hpos p.1 (by simp [(List.of_mem_zip hp).1])
    simp only [Bool.and_eq_true, decide_eq_true_eq]
    omega
  · intro p hp
    have hbounds := Token.bounds_of_mem_zip hp
    rw [Token.source_append, Text.byteLength_append]
    simp only [Bool.and_eq_true, decide_eq_true_eq]
    omega
  · intro p hp
    have hbounds := Token.bounds_of_mem_zip hp
    have hbyte := hpos p.1 (by simp [(List.of_mem_zip hp).1])
    simp only [Bool.and_eq_true, decide_eq_true_eq]
    omega

/-- **A part of a page between two boundaries** is cut, on its own, into the tokens that it has in the page: of the same
kinds and in the same order, each so many bytes further on as stand in front of the part, and with nothing left over. -/
theorem spanned_excerpt {page : Text} {a b : Nat} (ha : IsBoundary page a) (hb : IsBoundary page b) (hle : a ≤ b) :
    ∃ part, slice? a b page = some part ∧ spannedBetween a b page = (spanned part).map (moved a) ∧
      (spannedBetween a b page).map (·.1.kind) = kinds part ∧ Token.source (tokens part) = part := by
  obtain ⟨ts, us, vs, htokens, rfl, rfl⟩ := exists_between ha hb hle
  have hpart : tokens (Token.source us) = us := tokens_source_between htokens
  have hmoved : spannedBetween (byteLength (Token.source ts)) (byteLength (Token.source (ts ++ us))) page =
      (spanned (Token.source us)).map (moved (byteLength (Token.source ts))) := by
    rw [spannedBetween_eq htokens, zip_spansFrom_moved, spanned, hpart]
  refine ⟨Token.source us, ?_, hmoved, ?_, by rw [hpart]⟩
  · have hpage := source_tokens_append_tail page
    rw [htokens, Token.source_append, Token.source_append, List.append_assoc] at hpage
    refine Text.slice?_eq_some.2 ⟨Token.source ts, Token.source vs ++ tail page, hpage.symm, rfl, ?_⟩
    rw [Token.source_append, Text.byteLength_append]
  · calc (spannedBetween (byteLength (Token.source ts)) (byteLength (Token.source (ts ++ us))) page).map (·.1.kind)
        = ((spanned (Token.source us)).map (·.1)).map (·.kind) := by rw [hmoved, List.map_map, List.map_map]; rfl
      _ = kinds (Token.source us) := by rw [map_fst_spanned, kinds_eq]

/-- A page with a `<` that starts nothing in front of a tag, and a comment that is not closed. -/
def loosePage : Text := "a<p>é <<b>x<!-- y"

theorem spanned_excerpt_loosePage :
    IsBoundary loosePage 4 ∧ IsBoundary loosePage 8 ∧ slice? 4 8 loosePage = some "é <".toList ∧
      (spanned "é <").map (moved 4) = [(⟨.text, "é "⟩, (4, 7)), (⟨.strayAngle, "<"⟩, (7, 8))] ∧
      spannedBetween 4 8 loosePage = (spanned "é <").map (moved 4) := by
  have ha : IsBoundary loosePage 4 := by decide +kernel
  have hb : IsBoundary loosePage 8 := by decide +kernel
  have hslice : slice? 4 8 loosePage = some "é <".toList := by decide +kernel
  obtain ⟨part, hpart, hbetween, -⟩ := spanned_excerpt ha hb (by decide)
  obtain rfl : "é <".toList = part := Option.some.inj (hslice.symm.trans hpart)
  exact ⟨ha, hb, hslice, by decide +kernel, hbetween⟩

end Markup

end MarkupLens
