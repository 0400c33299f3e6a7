/-
Fillers: the blank text and the closed comments that a page is formatted with.
They can be put in between any two tokens (`Filled`), and the tokens around
them stay what they are. What could change is a `<` that starts nothing, but
only letters, slashes, question and exclamation marks make it start something,
and none of these comes closer to it (`solid_filled`); a run of text, which
may now go on, but the tree does not see where a run is cut (`foldl_filler`);
and a comment that is not closed, which takes up what is put in behind it and
is then closed by the first comment there (`Keeps.openComment`).

So any relation between the trees of two pages that each token keeps, and each
filler of the second page alone, holds between a page and the same page with
fillers put in (`Keeps.run`).
-/
import MarkupLens.Proofs.Markup.Closing

namespace MarkupLens

/-- A comment that starts with `>` or `->`: put in behind a comment that is not closed, it ends that one with its own
start. -/
def Token.isAbrupt (t : Token) : Bool :=
  t.kind == .comment && (List.isPrefixOf "<!-->".toList t.text || List.isPrefixOf "<!--->".toList t.text)

namespace Markup

open Text (allBlank isBlank)

/-- Blank text, or a comment that is closed. -/
inductive IsFiller : Token → Prop where
  | blank {s : Text} (h : allBlank s = true) : IsFiller ⟨.text, s⟩
  | comment {v : Text} (h : ¬ "-->".toList <:+: v) : IsFiller ⟨.comment, "<!--" ++ v ++ "-->"⟩

/-- Fillers have been put in among the tokens of a page, read from a state, each one in a state of that page in which it
is allowed. -/
inductive Filled (allowed : Builder → Token → Prop) : Builder → List Token → List Token → Prop where
  | nil {b : Builder} : Filled allowed b [] []
  | keep {b : Builder} {t : Token} {ts us : List Token} (h : Filled allowed (b.step t) ts us) :
      Filled allowed b (t :: ts) (t :: us)
  | fill {b : Builder} {u : Token} {ts us : List Token} (hu : IsFiller u) (hb : allowed b u)
      (h : Filled allowed b ts us) : Filled allowed b ts (u :: us)

/-- The first comment behind one that is not closed closes it with its own end. -/
def closable : List Token → Bool
  | [] => true
  | t :: us => (!t.isOpenComment || (us.find? (·.kind == .comment)).all (!·.isAbrupt)) && closable us

variable {allowed : Builder → Token → Prop}

/-! ## What stands behind a stray angle -/

/-- The text up to the first `<` or blank. -/
def solid (s : Text) : Text := s.takeWhile fun c => c != '<' && !isBlank c

@[simp] theorem solid_angle (s : Text) : solid ('<' :: s) = [] := by simp [solid]

theorem isBlank_of_isAlpha {c : Char} (h : c.isAlpha = true) : isBlank c = false := by
  have hletter : (65 ≤ c.toNat ∧ c.toNat ≤ 90) ∨ (97 ≤ c.toNat ∧ c.toNat ≤ 122) := by
    rcases Bool.or_eq_true_iff.1 h with hupper | hlower
    · exact .inl (of_decide_eq_true hupper)
    · have hbounds := Bool.and_eq_true_iff.1 hlower
      exact .inr ⟨of_decide_eq_true hbounds.1, of_decide_eq_true hbounds.2⟩
  have hblank : ¬ isBlank c = true := by
    simp only [isBlank, Bool.or_eq_true, Bool.and_eq_true, decide_eq_true_eq, beq_iff_eq]
    omega
  exact Bool.not_eq_true _ ▸ hblank

theorem solid_of_isAlpha {c : Char} (h : c.isAlpha = true) (s : Text) : solid (c :: s) = c :: solid s := by
  have hangle : c ≠ '<' := by
    rintro rfl
    exact absurd h (by decide)
  simp [solid, hangle, isBlank_of_isAlpha h]

theorem Begins.solid {s : Text} (h : Begins s) : Begins (solid s) := by
  rcases h with ⟨r, rfl⟩ | ⟨hc⟩ | _ | _ | ⟨hc⟩
  · exact .inl ⟨Markup.solid r, rfl⟩
  · rw [solid_of_isAlpha hc]
    exact .inr (.letter hc)
  · exact .inr .slash
  · exact .inr .question
  · rename_i c s
    have hs : Markup.solid ('!' :: c :: s) = '!' :: c :: Markup.solid s := by
      rw [← solid_of_isAlpha hc]
      rfl
    rw [hs]
    exact .inr (.exclamation hc)

theorem Begins.of_isPrefix {p s : Text} (h : Begins p) (hp : p <+: s) : Begins s := by
  obtain ⟨r, rfl⟩ := hp
  rcases h with h | ⟨hc⟩ | _ | _ | ⟨hc⟩
  · exact .inl (h.trans (List.prefix_append _ r))
  · exact .inr (.letter hc)
  · exact .inr .slash
  · exact .inr .question
  · exact .inr (.exclamation hc)

theorem Begins.of_solid {s s' : Text} (h : Begins s') (hs : Markup.solid s' = Markup.solid s ∨ Markup.solid s' = []) :
    Begins s := by
  have hsolid := h.solid
  rcases hs with hs | hs
  · exact (hs ▸ hsolid).of_isPrefix (List.takeWhile_prefix _)
  · rw [hs] at hsolid
    exact absurd hsolid (not_begins_of_run rfl)

/-- **In front of the first token** comes to stand a filler or nothing. -/
theorem solid_filled {b : Builder} {ts us : List Token} (h : Filled allowed b ts us) {s : Text} (hs : tokens s = ts) :
    solid (Token.source us ++ tail s) = solid s ∨ solid (Token.source us ++ tail s) = [] := by
  induction h generalizing s with
  | nil =>
    rw [Token.source_nil, List.nil_append, tail_of_tokens_nil hs]
    exact .inl rfl
  | keep h ih =>
    obtain ⟨r, hnext, hr⟩ := exists_next?_of_tokens_eq_cons hs
    rw [tail_of_next? hnext, Token.source_cons, List.append_assoc]
    exact takeWhile_of_next? rfl hnext (ih hr)
  | fill hu hb h ih =>
    cases hu with
    | @blank v hv =>
      cases v with
      | nil => exact ih hs
      | cons c v =>
        have hc : isBlank c = true := List.all_eq_true.1 hv c List.mem_cons_self
        exact .inr (by simp [solid, hc])
    | comment => exact .inr (solid_angle _)

/-! ## Fillers behind a comment that is not closed -/

theorem not_infix_append_cons {p v s : Text} {c : Char} (hp : p ≠ []) (hc : c ∉ p) (hv : ¬ p <:+: v)
    (hs : ¬ p <:+: s) : ¬ p <:+: v ++ c :: s := by
  induction v with
  | nil =>
    rw [List.nil_append, List.infix_cons_iff]
    rintro (hstart | hi)
    · exact hp (List.prefix_nil.1 (prefix_of_not_mem (u := []) hstart hc))
    · exact hs hi
  | cons d v ih =>
    rw [List.cons_append, List.infix_cons_iff]
    rintro (hstart | hi)
    · exact hv (prefix_of_not_mem (u := d :: v) hstart hc).isInfix
    · exact ih (fun hi => hv (hi.trans (List.suffix_cons d v).isInfix)) hi

/-- Blank text does not close a comment. -/
theorem not_infix_append_blank {v s : Text} (hv : ¬ "-->".toList <:+: v) (hs : allBlank s = true) :
    ¬ "-->".toList <:+: v ++ s := by
  have hblank : ∀ c ∈ s, c ∉ "-->".toList := by
    intro c hc hmem
    have hall : ∀ d ∈ "-->".toList, isBlank d = false := by simp [isBlank]
    exact Bool.false_ne_true ((hall c hmem).symm.trans (List.all_eq_true.1 hs c hc))
  cases s with
  | nil => rwa [List.append_nil]
  | cons c s =>
    refine not_infix_append_cons (by decide) (hblank c List.mem_cons_self) hv fun hi => ?_
    exact hblank '>' (List.mem_cons_of_mem c (hi.subset (by decide))) (by decide)

/-- Nor does the start of a comment that is not abrupt. -/
theorem not_infix_append_comment {v w : Text} (hv : ¬ "-->".toList <:+: v) (hw : ¬ "-->".toList <:+: w)
    (h : Token.isAbrupt ⟨.comment, "<!--" ++ w ++ "-->"⟩ = false) : ¬ "-->".toList <:+: v ++ ("<!--" ++ w) := by
  refine not_infix_append_cons (c := '<') (s := "!--" ++ w) (by decide) (by decide) hv fun hi => ?_
  -- an ending that reaches into the two dashes goes on with what makes the comment abrupt
  have hcases : ['>'] <+: w ∨ ['-', '>'] <+: w ∨ "-->".toList <:+: w := by
    simpa [List.infix_cons_iff] using hi
  rcases hcases with ⟨r, rfl⟩ | ⟨r, rfl⟩ | hi
  · simp [Token.isAbrupt] at h
  · simp [Token.isAbrupt] at h
  · exact hw hi

/-! ## Two pages side by side -/

theorem angle_not_mem_of_allBlank {s : Text} (h : allBlank s = true) : '<' ∉ s := fun hmem =>
  absurd (List.all_eq_true.1 h '<' hmem) (by decide)

/-- **A filler in front of any markup** is one step of the builder. -/
theorem foldl_filler {u : Token} (hu : IsFiller u) (s : Text) (b : Builder) :
    (tokens (u.text ++ s)).foldl Builder.step b = (tokens s).foldl Builder.step (b.step u) := by
  cases hu with
  | blank h => rw [tokens_append_text (angle_not_mem_of_allBlank h), Builder.foldl_glue, Builder.step_text]
  | comment h => rw [tokens_of_next? (next?_of_isToken (.comment h)), List.foldl_cons]

/-- Nothing but fillers has been put in where there are no tokens. -/
theorem Filled.fillers {b : Builder} {ts us : List Token} (h : Filled allowed b ts us) (hts : ts = []) :
    ∀ u ∈ us, IsFiller u ∧ allowed b u := by
  induction h with
  | nil => simp
  | keep => cases hts
  | fill hu hb _ ih => exact List.forall_mem_cons.2 ⟨⟨hu, hb⟩, ih hts⟩

/-- A relation between the trees of two pages under construction that each token of both pages keeps, and so does a
filler of the second page alone where it is allowed. -/
structure Keeps (allowed : Builder → Token → Prop) (R : Builder → Builder → Prop) : Prop where
  step {b b' : Builder} (t : Token) (h : R b b') : R (b.step t) (b'.step t)
  filler {b b' : Builder} {u : Token} (hu : IsFiller u) (hb : allowed b u) (h : R b b') : R b (b'.step u)

namespace Keeps

variable {R : Builder → Builder → Prop} {b b' : Builder} {us : List Token}

theorem fillers (hR : Keeps allowed R) (hus : ∀ u ∈ us, IsFiller u ∧ allowed b u) (h : R b b') :
    R b ((tokens (Token.source us)).foldl Builder.step b') := by
  induction us generalizing b' with
  | nil => rwa [Token.source_nil, tokens_of_next?_none rfl]
  | cons u us ih =>
    obtain ⟨⟨hu, hb⟩, hrest⟩ := List.forall_mem_cons.1 hus
    rw [Token.source_cons, foldl_filler hu]
    exact ih hrest (hR.filler hu hb h)

/-- **A comment that is not closed** takes up the fillers behind it through the first comment. -/
theorem openComment (hR : Keeps allowed R) {v : Text} (hv : ¬ "-->".toList <:+: v)
    (hus : ∀ u ∈ us, IsFiller u ∧ allowed b u) (hfirst : (us.find? (·.kind == .comment)).all (!·.isAbrupt) = true)
    (h : R b b') : R b ((tokens ("<!--" ++ v ++ Token.source us)).foldl Builder.step b') := by
  induction us generalizing v with
  | nil =>
    rw [Token.source_nil, tokens_of_next? (next?_of_isToken (.openComment hv)), tokens_of_next?_none rfl]
    exact h
  | cons u us ih =>
    obtain ⟨⟨hu, hb⟩, hrest⟩ := List.forall_mem_cons.1 hus
    cases hu with
    | @blank s hs =>
      have hsource : "<!--" ++ v ++ Token.source (⟨.text, s⟩ :: us) = "<!--" ++ (v ++ s) ++ Token.source us := by
        rw [Token.source_cons, ← List.append_assoc, List.append_assoc _ v s]
      rw [hsource]
      exact ih (not_infix_append_blank hv hs) hrest hfirst
    | @comment w hw =>
      have hsource : "<!--" ++ v ++ Token.source (⟨.comment, "<!--" ++ w ++ "-->"⟩ :: us) =
          "<!--" ++ (v ++ ("<!--" ++ w)) ++ "-->" ++ Token.source us := by
        simp only [Token.source_cons, List.append_assoc]
      have habrupt : Token.isAbrupt ⟨.comment, "<!--" ++ w ++ "-->"⟩ = false := by simpa using hfirst
      rw [hsource, tokens_of_next? (next?_of_isToken (.comment (not_infix_append_comment hv hw habrupt)))]
      exact hR.fillers hrest h

/-- **A page and the same page with fillers put in** stay in the relation, token by token. -/
theorem run (hR : Keeps allowed R) {ts : List Token} (hfilled : Filled allowed b ts us) (hus : closable us = true)
    (h : R b b') {s : Text} (hs : tokens s = ts) :
    R (ts.foldl Builder.step b) ((tokens (Token.source us ++ tail s)).foldl Builder.step b') := by
  induction hfilled generalizing b' s with
  | nil =>
    rw [Token.source_nil, List.nil_append, tail_of_tokens_nil hs, hs]
    exact h
  | fill hu hb _ ih =>
    rw [closable, Bool.and_eq_true] at hus
    rw [Token.source_cons, List.append_assoc, foldl_filler hu]
    exact ih hus.2 (hR.filler hu hb h) hs
  | @keep b t ts us hrest ih =>
    obtain ⟨r, hnext, hr⟩ := exists_next?_of_tokens_eq_cons hs
    obtain ⟨rfl, htoken⟩ := next?_eq_some_iff.1 hnext
    rw [closable, Bool.and_eq_true] at hus
    have hnew := ih hus.2 (hR.step t h) hr
    rw [tail_of_next? hnext, Token.source_cons, List.append_assoc, List.foldl_cons]
    rcases htoken.of_begins fun hb => hb.of_solid (solid_filled hrest hr) with
      hkeep | ⟨hkind, hno⟩ | ⟨hkind, rfl, v, hv, hno⟩
    · rwa [tokens_of_next? (next?_of_isToken hkeep), List.foldl_cons]
    · obtain ⟨kind, text⟩ := t
      obtain rfl : kind = .text := hkind
      rwa [tokens_append_text hno, Builder.foldl_glue, ← Builder.step_text]
    · -- nothing stands behind the comment but fillers
      obtain rfl : ts = [] := by rw [← hr, tokens_of_next?_none rfl]
      obtain ⟨kind, text⟩ := t
      obtain rfl : kind = .comment := hkind
      obtain rfl : text = "<!--" ++ v := hv
      have hfirst : (us.find? (·.kind == .comment)).all (!·.isAbrupt) = true := by
        have hopen : Token.isOpenComment ⟨.comment, "<!--" ++ v⟩ = true := by
          rw [Token.isOpenComment_comment, Bool.not_eq_true', ← Bool.not_eq_true, Text.holds_iff]
          exact hno
        rw [hopen] at hus
        exact hus.1
      rw [tail_of_next?_none (s := []) rfl, List.append_nil]
      exact hR.openComment hno (hrest.fillers rfl) hfirst h

end Keeps

end Markup

end MarkupLens
