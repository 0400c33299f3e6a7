/-
Two ways of finding the close tag of an element. The tree builder keeps a
stack and never looks at the name of a close tag; the search for a close tag
counts the tags of one name and never looks at any other. Where every close
tag has the name of the innermost open element, and every element is closed,
they find the same one (`matchingClose?_iff_popsAt`).

What ties them is the stack above the element: the count of the search is the
number of elements of the same name that are open above it
(`exists_splitAtClose`).
-/
import MarkupLens.Markup.Nesting
import MarkupLens.Markup.Tree

namespace MarkupLens.Markup

open Text (sameName)

theorem sameName_congr {a b : Text} (h : sameName a b = true) (c : Text) : sameName a c = sameName b c := by
  simp only [sameName, beq_iff_eq] at h ⊢
  rw [h]

/-! ## The stack of the tree builder -/

/-- The name and the attributes of an element. -/
structure Head where
  tag : Text
  attributes : Attributes
  deriving DecidableEq

/-- The name and the attributes of an open element. -/
def OpenElement.head (e : OpenElement) : Head := ⟨e.tag, e.attributes⟩

/-- The name and the attributes of the element that an open tag makes. -/
def headOf (t : Token) : Head := ⟨(OpenTag.scan t.text).name, attributesOf (OpenTag.scan t.text)⟩

namespace Builder

/-- The names and the attributes of the open elements, the innermost first. -/
def heads (b : Builder) : List Head := b.opened.map (·.head)

/-- The names of the open elements, the innermost first. -/
def names (b : Builder) : List Text := b.opened.map (·.tag)

variable (b : Builder)

theorem names_eq : b.names = b.heads.map (·.tag) := by
  rw [heads, List.map_map]
  rfl

@[simp] theorem heads_add (n : Node) : (b.add n).heads = b.heads := by
  obtain ⟨done, opened, pending⟩ := b
  cases opened <;> rfl

@[simp] theorem heads_flush : b.flush.heads = b.heads := by
  unfold flush
  split
  · rfl
  · exact heads_add b (.text b.pending)

@[simp] theorem heads_close : b.close.heads = b.heads.tail := by
  obtain ⟨done, opened, pending⟩ := b
  cases opened with
  | nil => rfl
  | cons e outer => exact heads_add ⟨done, outer, pending⟩ e.node

/-- **What one token does to the stack.** -/
theorem heads_step (t : Token) : (b.step t).heads =
    if t.kind = .openTag ∧ (OpenTag.scan t.text).hasBody = true then headOf t :: b.heads
    else if t.kind = .closeTag then b.heads.tail
    else b.heads := by
  unfold step
  split
  case h_5 hk =>
    dsimp only
    split
    · rename_i hb
      rw [if_pos ⟨hk, hb⟩, ← heads_flush b]
      rfl
    · rename_i hb
      simp [hk, hb]
  case h_6 hk => simp [hk]
  all_goals
    rename_i hk
    simp [hk, heads]

@[simp] theorem length_names : b.names.length = b.opened.length := List.length_map ..

@[simp] theorem names_flush : b.flush.names = b.names := by rw [names_eq, heads_flush, names_eq]

@[simp] theorem names_close : b.close.names = b.names.tail := by rw [names_eq, heads_close, names_eq, List.map_tail]

theorem names_step (t : Token) : (b.step t).names =
    if t.kind = .openTag ∧ (OpenTag.scan t.text).hasBody = true then (OpenTag.scan t.text).name :: b.names
    else if t.kind = .closeTag then b.names.tail
    else b.names := by
  rw [names_eq, heads_step, names_eq]
  split
  · rfl
  · split
    · exact List.map_tail
    · rfl

/-- Read from a state, every close tag has the name of the innermost open element, whatever the case of its letters, and
nothing is left open. -/
def ClosesInOrder : Builder → List Token → Prop
  | b, [] => b.opened = []
  | b, t :: ts =>
    (t.kind = .closeTag → ∃ name ∈ b.names.head?, sameName (closeTagName t.text) name = true) ∧
      ClosesInOrder (b.step t) ts

instance decidableClosesInOrder : (b : Builder) → (ts : List Token) → Decidable (b.ClosesInOrder ts)
  | b, [] => inferInstanceAs (Decidable (b.opened = []))
  | b, t :: ts =>
    have := decidableClosesInOrder (b.step t) ts
    inferInstanceAs (Decidable
      ((t.kind = .closeTag → ∃ name ∈ b.names.head?, sameName (closeTagName t.text) name = true) ∧
        ClosesInOrder (b.step t) ts))

/-- The stack is higher than `n` up to the token at place `k`, which takes it down to `n`. -/
structure DropsAt (n : Nat) (b : Builder) (ts : List Token) (k : Nat) : Prop where
  higher : ∀ j ≤ k, n < ((ts.take j).foldl step b).opened.length
  level : ((ts.take (k + 1)).foldl step b).opened.length = n

variable {b}

theorem ClosesInOrder.behind {ts us : List Token} (h : b.ClosesInOrder (ts ++ us)) :
    (ts.foldl step b).ClosesInOrder us := by
  induction ts generalizing b with
  | nil => exact h
  | cons t ts ih => exact ih h.2

theorem DropsAt.cons {n k : Nat} {t : Token} {ts : List Token} (hb : n < b.opened.length)
    (h : DropsAt n (b.step t) ts k) : DropsAt n b (t :: ts) (k + 1) := by
  refine ⟨fun j hj => ?_, h.level⟩
  cases j with
  | zero => exact hb
  | succ j => exact h.higher j (by omega)

end Builder

/-! ## The count of the search -/

theorem splitAtClose_cons_of_not_closes {name : Text} {depth : Nat} {t : Token} {ts : List Token}
    (h : closes name t = false) : splitAtClose name depth (t :: ts) =
      (splitAtClose name (if opens name t then depth + 1 else depth) ts).map
        fun e => { e with inner := t :: e.inner } := by
  simp [splitAtClose, h]

section

variable {t : Token} (hbody : t.kind = .openTag → opensBody t.text = (OpenTag.scan t.text).hasBody)

include hbody

/-- A token that pushes an element raises the count if the element has the name. -/
theorem opens_of_hasBody (hopen : t.kind = .openTag ∧ (OpenTag.scan t.text).hasBody = true) (name : Text) :
    opens name t = sameName (OpenTag.scan t.text).name name := by
  have hbody' : opensBody t.text = true := (hbody hopen.1).trans hopen.2
  simp only [opens, hopen.1, hbody', BEq.rfl, Bool.true_and, Bool.and_true]
  rfl

/-- A token that pushes no element leaves the count as it is. -/
theorem opens_eq_false (hopen : ¬ (t.kind = .openTag ∧ (OpenTag.scan t.text).hasBody = true)) (name : Text) :
    opens name t = false := by
  by_cases hk : t.kind = .openTag
  · have hb : opensBody t.text = false := by
      rw [hbody hk]
      simpa [hk] using hopen
    simp [opens, hb]
  · simp [opens, hk]

end

/-- A close tag with the name of an element lowers the count if the element has the name. -/
theorem closes_of_sameName {t : Token} {top : Text} (hk : t.kind = .closeTag)
    (hsame : sameName (closeTagName t.text) top = true) (name : Text) : closes name t = sameName top name := by
  simp [closes, hk, sameName_congr hsame]

/-- **The search finds where the element is popped.** Of the open elements above it, those of its name are counted. -/
theorem exists_splitAtClose {name : Text} (above : List Text) {below : List Text} {b : Builder} {ts : List Token}
    (hbody : ∀ t ∈ ts, t.kind = .openTag → opensBody t.text = (OpenTag.scan t.text).hasBody)
    (hclose : b.ClosesInOrder ts) (hb : b.names = above ++ name :: below) :
    ∃ e, splitAtClose name (above.countP (sameName · name)) ts = some e ∧
      Builder.DropsAt below.length b ts e.inner.length := by
  induction ts generalizing b above with
  | nil =>
    have hnil : b.names = [] := List.map_eq_nil_iff.2 hclose
    rw [hb] at hnil
    simp at hnil
  | cons t ts ih =>
    obtain ⟨hname, hclose⟩ := hclose
    rw [List.forall_mem_cons] at hbody
    have hlen : below.length < b.opened.length := by
      rw [← Builder.length_names, hb, List.length_append, List.length_cons]
      omega
    have hstep := Builder.names_step b t
    -- what is found behind the token is found with the token in front
    have hbehind : ∀ above' : List Text, (b.step t).names = above' ++ name :: below →
        splitAtClose name (above.countP (sameName · name)) (t :: ts) =
          (splitAtClose name (above'.countP (sameName · name)) ts).map (fun e => { e with inner := t :: e.inner }) →
        ∃ e, splitAtClose name (above.countP (sameName · name)) (t :: ts) = some e ∧
          Builder.DropsAt below.length b (t :: ts) e.inner.length := by
      intro above' hnames hsplit
      obtain ⟨e, he, hdrops⟩ := ih above' hbody.2 hclose hnames
      exact ⟨{ e with inner := t :: e.inner }, by rw [hsplit, he, Option.map_some], hdrops.cons hlen⟩
    by_cases hk : t.kind = .closeTag
    · obtain ⟨top, htop, hsame⟩ := hname hk
      have hcloses := closes_of_sameName hk hsame name
      rw [if_neg (by simp [hk]), if_pos hk, hb] at hstep
      rw [hb] at htop
      cases above with
      | nil =>
        obtain rfl : name = top := by simpa using htop
        have hfound : splitAtClose name 0 (t :: ts) = some ⟨[], t, ts⟩ := by
          simp [splitAtClose, hcloses, Text.sameName_refl]
        refine ⟨_, hfound, ⟨fun j hj => ?_, ?_⟩⟩
        · obtain rfl : j = 0 := by simpa using hj
          exact hlen
        · show (b.step t).opened.length = below.length
          rw [← Builder.length_names, hstep]
          rfl
      | cons a above =>
        obtain rfl : a = top := by simpa using htop
        refine hbehind above hstep ?_
        cases ha : sameName a name with
        | true => simp [splitAtClose, hcloses, ha]
        | false =>
          rw [splitAtClose_cons_of_not_closes (hcloses.trans ha)]
          simp [opens, hk, ha]
    · have hnot : closes name t = false := by simp [closes, hk]
      by_cases hopen : t.kind = .openTag ∧ (OpenTag.scan t.text).hasBody = true
      · rw [if_pos hopen, hb, ← List.cons_append] at hstep
        refine hbehind _ hstep ?_
        rw [splitAtClose_cons_of_not_closes hnot, opens_of_hasBody hbody.1 hopen, List.countP_cons]
        split <;> rfl
      · rw [if_neg hopen, if_neg hk, hb] at hstep
        refine hbehind above hstep ?_
        rw [splitAtClose_cons_of_not_closes hnot, opens_eq_false hbody.1 hopen]
        rfl

/-! ## Places on a page -/

/-- The number of elements that are open behind the first `k` tokens. -/
def height (ts : List Token) (k : Nat) : Nat := ((ts.take k).foldl Builder.step .empty).opened.length

/-- The token at place `j` is the close tag that pops the element pushed at place `i`: up to there the stack is higher
than it was in front of the element, and then it is as high again. -/
structure PopsAt (ts : List Token) (i j : Nat) : Prop where
  behind : i < j
  closes : ∃ t ∈ ts[j]?, t.kind = .closeTag
  higher : ∀ k, i < k → k ≤ j → height ts i < height ts k
  level : height ts (j + 1) = height ts i

/-- An element is popped once. -/
theorem PopsAt.unique {ts : List Token} {i j j' : Nat} (h : PopsAt ts i j) (h' : PopsAt ts i j') : j = j' := by
  have hnot : ∀ {k l}, PopsAt ts i k → PopsAt ts i l → ¬ k < l := by
    intro k l hk hl hlt
    have hhigher := hl.higher (k + 1) (by have := hk.behind; omega) (by omega)
    have hlevel := hk.level
    omega
  have h1 := hnot h h'
  have h2 := hnot h' h
  omega

theorem height_behind (before rest : List Token) (t : Token) (m : Nat) :
    height (before ++ t :: rest) (before.length + 1 + m) =
      ((rest.take m).foldl Builder.step ((before.foldl Builder.step .empty).step t)).opened.length := by
  have htake : (before ++ t :: rest).take (before.length + 1 + m) = before ++ t :: rest.take m := by
    rw [List.take_append, List.take_of_length_le (by omega), show before.length + 1 + m - before.length = m + 1 by omega,
      List.take_succ_cons]
  rw [height, htake, List.foldl_append, List.foldl_cons]

theorem height_front (before rest : List Token) :
    height (before ++ rest) before.length = (before.foldl Builder.step .empty).opened.length := by
  rw [height, List.take_left]

/-- A list splits in front of and behind the token at a place. -/
theorem exists_eq_append_cons {ts : List Token} {i : Nat} {t : Token} (h : ts[i]? = some t) :
    ∃ before rest, ts = before ++ t :: rest ∧ before.length = i := by
  obtain ⟨hi, rfl⟩ := List.getElem?_eq_some_iff.1 h
  refine ⟨ts.take i, ts.drop (i + 1), ?_, List.length_take_of_le (Nat.le_of_lt hi)⟩
  rw [← List.drop_eq_getElem_cons hi, List.take_append_drop]

/-- The search counts from behind the open tag. -/
theorem matchingClose?_append_cons {before rest : List Token} {t : Token} (hopen : t.kind = .openTag) :
    matchingClose? (before ++ t :: rest) before.length =
      (splitAtClose (openTagName t.text) 0 rest).map fun e => before.length + 1 + e.inner.length := by
  simp only [matchingClose?, List.drop_left, hopen, if_true]

/-- A close tag behind which the stack is as high again as in front of the element pops it. -/
theorem popsAt_of_dropsAt {before rest : List Token} {t : Token} {k : Nat} (hk : ∃ u ∈ rest[k]?, u.kind = .closeTag)
    (h : Builder.DropsAt (before.foldl Builder.step .empty).opened.length ((before.foldl Builder.step .empty).step t)
      rest k) : PopsAt (before ++ t :: rest) before.length (before.length + 1 + k) := by
  rw [← height_front before (t :: rest)] at h
  refine ⟨by omega, ?_, fun j hj hjk => ?_, ?_⟩
  · rwa [List.getElem?_append_right (by omega), show before.length + 1 + k - before.length = k + 1 by omega,
      List.getElem?_cons_succ]
  · obtain ⟨m, rfl⟩ : ∃ m, j = before.length + 1 + m := ⟨j - (before.length + 1), by omega⟩
    rw [height_behind]
    exact h.higher m (by omega)
  · rw [Nat.add_assoc, height_behind]
    exact h.level

/-- **One idea of an element.** On a page on which the two tests of a tag for a body agree, every close tag has the name
of the innermost open element and every element is closed, the element of an open tag with a body is popped, and the
close tag that is searched for it is the one that pops it. -/
theorem matchingClose?_iff_popsAt {page : Text}
    (hbody : ∀ t ∈ tokens page, t.kind = .openTag → opensBody t.text = (OpenTag.scan t.text).hasBody)
    (hclose : Builder.empty.ClosesInOrder (tokens page)) {i : Nat} {t : Token} (ht : (tokens page)[i]? = some t)
    (hopen : t.kind = .openTag) (hb : (OpenTag.scan t.text).hasBody = true) :
    (∃ j, PopsAt (tokens page) i j) ∧ ∀ j, matchingClose? (tokens page) i = some j ↔ PopsAt (tokens page) i j := by
  obtain ⟨before, rest, hts, rfl⟩ := exists_eq_append_cons ht
  rw [hts] at hclose hbody ⊢
  have hnames := Builder.names_step (before.foldl Builder.step .empty) t
  rw [if_pos ⟨hopen, hb⟩] at hnames
  obtain ⟨e, he, hdrops⟩ := exists_splitAtClose [] (fun u hu => hbody u (by simp [hu])) hclose.behind.2 hnames
  rw [Builder.length_names] at hdrops
  have hfound : matchingClose? (before ++ t :: rest) before.length = some (before.length + 1 + e.inner.length) := by
    rw [matchingClose?_append_cons hopen]
    exact congrArg _ he
  have hpops : PopsAt (before ++ t :: rest) before.length (before.length + 1 + e.inner.length) := by
    refine popsAt_of_dropsAt ⟨e.close, ?_, ?_⟩ hdrops
    · rw [splitAtClose_eq he]
      simp
    · have hcloses := splitAtClose_close he
      simp only [closes, Bool.and_eq_true, beq_iff_eq] at hcloses
      exact hcloses.1
  refine ⟨⟨_, hpops⟩, fun j => ?_⟩
  rw [hfound]
  constructor
  · rintro ⟨rfl⟩
    exact hpops
  · exact fun h => congrArg some (hpops.unique h)

/-- A page on which elements of one name, written in different cases, are nested, with others between them. -/
def nestedPage : Text := "<div><p>a</P><DIV><br><p/>b<div></div></div>c</Div><!-- </div> -->"

theorem matchingClose?_iff_popsAt_nestedPage :
    (∀ t ∈ tokens nestedPage, t.kind = .openTag → opensBody t.text = (OpenTag.scan t.text).hasBody) ∧
      Builder.empty.ClosesInOrder (tokens nestedPage) ∧ (tokens nestedPage)[0]? = some ⟨.openTag, "<div>"⟩ ∧
      (tokens nestedPage)[12]? = some ⟨.closeTag, "</Div>"⟩ ∧ PopsAt (tokens nestedPage) 0 12 := by
  have hbody : ∀ t ∈ tokens nestedPage, t.kind = .openTag → opensBody t.text = (OpenTag.scan t.text).hasBody := by
    decide +kernel
  have hclose : Builder.empty.ClosesInOrder (tokens nestedPage) := by decide +kernel
  have hopen : (tokens nestedPage)[0]? = some ⟨.openTag, "<div>"⟩ := by decide +kernel
  have hfound : matchingClose? (tokens nestedPage) 0 = some 12 := by decide +kernel
  refine ⟨hbody, hclose, hopen, by decide +kernel, ?_⟩
  exact ((matchingClose?_iff_popsAt hbody hclose hopen rfl (by decide +kernel)).2 12).1 hfound

end MarkupLens.Markup
