/-
What a scan reads off the inside of a tag, and when a list of attributes is
read off the text that it is written to.

An attribute is read off in front of a text exactly if it is in the form of
one (`Attribute.Shaped`) and ends there (`Attribute.EndsBefore`): a quoted
value ends with its quote whatever follows, any other value ends before a
space, and an attribute without a value before a space that leads to no `=`.
What stands behind an attribute matters no further (`readBefore_iff`), so
attributes can be moved, changed and taken out as long as each still ends
before what follows it.
-/
import MarkupLens.Markup.Tag
import MarkupLens.Proofs.Text.Basic
import Mathlib.Data.List.TakeWhile
import Mathlib.Tactic.Tauto

namespace MarkupLens

open Text (isSpace allBlank takeWhile_span dropWhile_span)

namespace Assignment

/-- An `=` among spaces, and a value that is quoted or has no space. -/
structure Shaped (v : Assignment) : Prop where
  sign : ∃ s s', v.sign = s ++ '=' :: s' ∧ (∀ c ∈ s, isSpace c = true) ∧ ∀ c ∈ s', isSpace c = true
  value : (∃ q, (q = '"' ∨ q = '\'') ∧ v.opening = [q] ∧ q ∉ v.value ∧ (v.closing = [q] ∨ v.closing = [])) ∨
    (v.opening = [] ∧ v.closing = [] ∧ (∀ c ∈ v.value, isSpace c = false) ∧ ∀ c ∈ v.value.head?, ¬ (c = '"' ∨ c = '\''))

/-- The value ends before that text: with its closing quote, at the end of the tag, or at a space. -/
def EndsBefore (v : Assignment) (rest : Text) : Prop :=
  v.closing ≠ [] ∨ rest = [] ∨ (v.opening = [] ∧ v.value ≠ [] ∧ rest.head?.any isSpace = true)

end Assignment

namespace Attribute

/-- A name, and possibly a value in the form of one. -/
structure Shaped (a : Attribute) : Prop where
  name : ∃ c more, a.name = c :: more ∧ OpenTag.isGapChar c = false ∧ ∀ d ∈ more, isSpace d = false ∧ d ≠ '='
  assigned : ∀ v ∈ a.assigned, v.Shaped

/-- The attribute ends before that text. One without a value goes on up to a space, or a slash that is the last
character, and would take an `=` behind the space for its own. -/
def EndsBefore (a : Attribute) (rest : Text) : Prop :=
  match a.assigned with
  | none => (rest = [] ∧ a.name.getLast? ≠ some '/') ∨ rest = ['/'] ∨
      (rest.head?.any isSpace = true ∧ (rest.dropWhile isSpace).head? ≠ some '=')
  | some v => v.EndsBefore rest

instance : (a : Attribute) → (rest : Text) → Decidable (a.EndsBefore rest)
  | ⟨_, _, none⟩, _ => inferInstanceAs (Decidable (_ ∨ _ ∨ _))
  | ⟨_, _, some _⟩, _ => inferInstanceAs (Decidable (_ ≠ [] ∨ _ ∨ _))

/-- The scan reads the attribute off where it stands in front of that text. -/
def ReadBefore (a : Attribute) (rest : Text) : Prop :=
  ∃ c r, a.written ++ rest = c :: r ∧ OpenTag.isGapChar c = false ∧ OpenTag.scanAttribute a.gap c r = (a, rest)

end Attribute

namespace OpenTag

/-! ## Names -/

/-- A name ends before that text. -/
def EndsName (name rest : Text) : Prop :=
  (rest = [] ∧ name.getLast? ≠ some '/') ∨ rest = ['/'] ∨ rest.head?.any (fun c => isSpace c || c == '=') = true

theorem endsName_cons {d : Char} {more rest : Text} :
    EndsName (d :: more) rest ↔ EndsName more rest ∧ ¬ (d = '/' ∧ more = [] ∧ rest = []) := by
  cases more with
  | nil => cases rest <;> simp [EndsName]
  | cons e more => simp [EndsName]

theorem restOfName_eq_iff {more rest : Text} : restOfName (more ++ rest) = (more, rest) ↔
    (∀ d ∈ more, isSpace d = false ∧ d ≠ '=') ∧ EndsName more rest := by
  induction more with
  | nil =>
    rcases rest with _ | ⟨c, s⟩
    · simp [restOfName, EndsName]
    · rw [List.nil_append, restOfName]
      split <;> rename_i h
      · rcases s with _ | ⟨d, s⟩ <;> simpa [EndsName, or_comm] using h
      · rcases s with _ | ⟨d, s⟩ <;> simpa [EndsName, or_comm] using h
  | cons d more ih =>
    have hstep : restOfName (d :: more ++ rest) = (d :: more, rest) ↔
        (isSpace d = false ∧ d ≠ '=' ∧ ¬ (d = '/' ∧ more = [] ∧ rest = [])) ∧
          restOfName (more ++ rest) = (more, rest) := by
      rw [List.cons_append, restOfName]
      split <;> rename_i h
      · simp only [Prod.mk.injEq, reduceCtorEq, false_and, false_iff, not_and]
        rintro ⟨h1, h2, h3⟩
        simp_all
      · simp only [List.cons.injEq, true_and, Prod.ext_iff]
        simp_all
    rw [hstep, ih, endsName_cons, List.forall_mem_cons]
    tauto

/-! ## Values -/

theorem head?_dropWhile (p : Char → Bool) (s : Text) : ∀ c ∈ (s.dropWhile p).head?, p c = false := by
  intro c hc
  have := List.head?_dropWhile_not p s
  rw [Option.mem_def.1 hc] at this
  simpa using this

theorem shaped_of_scanValue {s s' x rest : Text} {v : Assignment} (hs : ∀ c ∈ s, isSpace c = true)
    (hs' : ∀ c ∈ s', isSpace c = true) (h : scanValue (s ++ '=' :: s') x = (v, rest)) :
    v.Shaped ∧ ((∀ c ∈ x.head?, isSpace c = false) → v.EndsBefore rest) := by
  have hsign : ∃ t t', s ++ '=' :: s' = t ++ '=' :: t' ∧ (∀ c ∈ t, isSpace c = true) ∧ ∀ c ∈ t', isSpace c = true :=
    ⟨s, s', rfl, hs, hs'⟩
  cases x with
  | nil =>
    simp only [scanValue, Prod.mk.injEq] at h
    obtain ⟨rfl, rfl⟩ := h
    exact ⟨⟨hsign, .inr ⟨rfl, rfl, by simp, by simp⟩⟩, fun _ => .inr (.inl rfl)⟩
  | cons c x =>
    simp only [scanValue] at h
    split at h
    · rename_i hq
      simp only [Prod.mk.injEq] at h
      obtain ⟨rfl, rfl⟩ := h
      have hmem : c ∉ x.takeWhile (· != c) := fun hm => by simpa using List.mem_takeWhile_imp hm
      have hhead := head?_dropWhile (· != c) x
      rcases hd : x.dropWhile (· != c) with _ | ⟨d, y⟩
      · exact ⟨⟨hsign, .inl ⟨c, hq, rfl, hmem, .inr rfl⟩⟩, fun _ => .inr (.inl rfl)⟩
      · obtain rfl : d = c := by simpa [hd] using hhead
        exact ⟨⟨hsign, .inl ⟨d, hq, rfl, hmem, .inl rfl⟩⟩, fun _ => .inl (by simp)⟩
    · rename_i hq
      simp only [Prod.mk.injEq] at h
      obtain ⟨rfl, rfl⟩ := h
      have hvalue : ∀ d ∈ (c :: x).takeWhile (!isSpace ·), isSpace d = false :=
        fun d hd => by simpa using List.mem_takeWhile_imp hd
      have hhead := head?_dropWhile (!isSpace ·) (c :: x)
      refine ⟨⟨hsign, .inr ⟨rfl, rfl, hvalue, ?_⟩⟩, fun hc => ?_⟩
      · intro d hd
        rw [List.takeWhile_cons] at hd
        split at hd
        · cases hd
          exact hq
        · cases hd
      · have hc' : isSpace c = false := hc c rfl
        rcases hd : (c :: x).dropWhile (!isSpace ·) with _ | ⟨d, y⟩
        · exact .inr (.inl rfl)
        · rw [hd] at hhead
          refine .inr (.inr ⟨rfl, by simp [hc'], ?_⟩)
          simpa using hhead

theorem scanValue_eq {v : Assignment} (hv : v.Shaped) {rest : Text} (h : v.EndsBefore rest) :
    scanValue v.sign (v.opening ++ v.value ++ v.closing ++ rest) = (v, rest) ∧
      ∀ c ∈ (v.opening ++ v.value ++ v.closing ++ rest).head?, isSpace c = false := by
  obtain ⟨sign, opening, value, closing⟩ := v
  obtain ⟨-, hvalue⟩ := hv
  simp only at hvalue
  rcases hvalue with ⟨q, hq, rfl, hmem, hclosing⟩ | ⟨rfl, rfl, hspace, hhead⟩
  · have hne : ∀ c ∈ value, (c != q) = true := by
      intro c hc
      simp only [bne_iff_ne, ne_eq]
      rintro rfl
      exact hmem hc
    have hqs : isSpace q = false := by rcases hq with rfl | rfl <;> rfl
    rcases hclosing with rfl | rfl
    · have hend : ∀ c ∈ (q :: rest).head?, (c != q) = false := by simp
      simp [scanValue, hq, takeWhile_span hne hend, dropWhile_span hne hend, hqs]
    · obtain rfl : rest = [] := by simpa [Assignment.EndsBefore] using h
      have ht : value.takeWhile (· != q) = value := by simpa using takeWhile_span hne (r := []) (by simp)
      have hd : value.dropWhile (· != q) = [] := by simpa using dropWhile_span hne (r := []) (by simp)
      simp [scanValue, hq, ht, hd, hqs]
  · cases value with
    | nil =>
      obtain rfl : rest = [] := by simpa [Assignment.EndsBefore] using h
      simp [scanValue]
    | cons c value =>
      have hc : isSpace c = false := hspace c (by simp)
      have hnq : ¬ (c = '"' ∨ c = '\'') := hhead c rfl
      have hall : ∀ d ∈ c :: value, (!isSpace d) = true := fun d hd => by simp [hspace d hd]
      have hrest : ∀ d ∈ rest.head?, (!isSpace d) = false := by
        have hend : rest = [] ∨ rest.head?.any isSpace = true := by simpa [Assignment.EndsBefore] using h
        rcases hend with rfl | hr
        · simp
        · intro d hd
          rw [Option.mem_def.1 hd] at hr
          simpa using hr
      have ht : (c :: (value ++ rest)).takeWhile (!isSpace ·) = c :: value := takeWhile_span hall hrest
      have hd : (c :: (value ++ rest)).dropWhile (!isSpace ·) = rest := dropWhile_span hall hrest
      simp [scanValue, hnq, ht, hd, hc]

/-! ## Assignments -/

theorem scanAssignment_eq_none_iff {s rest : Text} :
    scanAssignment s = (none, rest) ↔ rest = s ∧ (s.dropWhile isSpace).head? ≠ some '=' := by
  unfold scanAssignment
  split
  · rename_i r h
    simp [h]
  · rename_i h
    have hne : (s.dropWhile isSpace).head? ≠ some '=' := by
      intro he
      obtain ⟨r, hr⟩ := List.head?_eq_some_iff.1 he
      exact h r hr
    simp [hne, eq_comm]

theorem scanAssignment_eq_some_iff {s rest : Text} {v : Assignment} :
    scanAssignment s = (some v, rest) ↔ s = v.written ++ rest ∧ v.Shaped ∧ v.EndsBefore rest := by
  constructor
  · intro h
    have hwritten := scanAssignment_written s
    rw [h] at hwritten
    refine ⟨hwritten.symm, ?_⟩
    unfold scanAssignment at h
    split at h
    · rename_i r hr
      simp only [Prod.mk.injEq, Option.some.injEq] at h
      obtain ⟨h1, h2⟩ := h
      have hscan : scanValue (s.takeWhile isSpace ++ '=' :: r.takeWhile isSpace) (r.dropWhile isSpace) = (v, rest) :=
        Prod.ext h1 h2
      obtain ⟨hshaped, hends⟩ :=
        shaped_of_scanValue (fun _ => List.mem_takeWhile_imp) (fun _ => List.mem_takeWhile_imp) hscan
      exact ⟨hshaped, hends (head?_dropWhile isSpace r)⟩
    · simp at h
  · rintro ⟨rfl, hshaped, hends⟩
    obtain ⟨t, t', hsign, ht, ht'⟩ := hshaped.sign
    obtain ⟨hvalue, hhead⟩ := scanValue_eq hshaped hends
    have heq : ∀ c ∈ ('=' :: (t' ++ (v.opening ++ v.value ++ v.closing ++ rest))).head?, isSpace c = false := by
      simp [isSpace]
    have hs : v.written ++ rest = t ++ '=' :: (t' ++ (v.opening ++ v.value ++ v.closing ++ rest)) := by
      simp [Assignment.written, hsign]
    have h1 := takeWhile_span ht heq
    have h2 := dropWhile_span ht heq
    have h3 := takeWhile_span ht' hhead
    have h4 := dropWhile_span ht' hhead
    unfold scanAssignment
    rw [hs, h2]
    simp only [h1, h3, h4, ← hsign, hvalue]

/-! ## Attributes -/

/-- An attribute without a value ends where its name does, if no `=` follows. -/
theorem endsBefore_none_iff {gap more rest : Text} {c : Char} (hc : isGapChar c = false) :
    (⟨gap, c :: more, none⟩ : Attribute).EndsBefore rest ↔
      EndsName more rest ∧ (rest.dropWhile isSpace).head? ≠ some '=' := by
  have hslash : (c :: more).getLast? ≠ some '/' ↔ more.getLast? ≠ some '/' := by
    have hc' : c ≠ '/' := by
      rintro rfl
      simp [isGapChar] at hc
    cases more <;> simp [hc']
  constructor
  · rintro (⟨rfl, h⟩ | rfl | ⟨h, hne⟩)
    · exact ⟨.inl ⟨rfl, hslash.1 h⟩, by simp⟩
    · exact ⟨.inr (.inl rfl), by simp [isSpace]⟩
    · refine ⟨.inr (.inr ?_), hne⟩
      cases rest with
      | nil => simp at h
      | cons d rest => simp only [List.head?_cons, Option.any_some] at h; simp [h]
  · rintro ⟨⟨h1, h2⟩ | h | h, hne⟩
    · exact .inl ⟨h1, hslash.2 h2⟩
    · exact .inr (.inl h)
    · refine .inr (.inr ⟨?_, hne⟩)
      cases rest with
      | nil => simp at h
      | cons d rest =>
        simp only [List.head?_cons, Option.any_some, Bool.or_eq_true, beq_iff_eq] at h ⊢
        rcases h with h | rfl
        · exact h
        · exact absurd (by simp [isSpace]) hne

/-- A name ends before the `=` of a value, or the space in front of it. -/
theorem endsName_written {v : Assignment} (hv : v.Shaped) (more rest : Text) : EndsName more (v.written ++ rest) := by
  obtain ⟨t, t', hsign, ht, -⟩ := hv.sign
  refine .inr (.inr ?_)
  cases t with
  | nil => simp [Assignment.written, hsign]
  | cons d t => simp [Assignment.written, hsign, ht d (by simp)]

/-- **An attribute is read off** exactly if it has the form of one and ends before what follows. -/
theorem readBefore_iff {a : Attribute} {rest : Text} : a.ReadBefore rest ↔ a.Shaped ∧ a.EndsBefore rest := by
  obtain ⟨gap, name, assigned⟩ := a
  constructor
  · rintro ⟨c, r, hw, hc, hscan⟩
    simp only [scanAttribute, Prod.mk.injEq, Attribute.mk.injEq, true_and] at hscan
    obtain ⟨⟨rfl, hassigned⟩, hr⟩ := hscan
    have hname : restOfName ((restOfName r).1 ++ (restOfName r).2) = ((restOfName r).1, (restOfName r).2) := by
      rw [restOfName_append r]
    obtain ⟨hmore, hend⟩ := restOfName_eq_iff.1 hname
    have hpair : scanAssignment (restOfName r).2 = (assigned, rest) := Prod.ext hassigned hr
    have hshape : ∃ d more, c :: (restOfName r).1 = d :: more ∧ isGapChar d = false ∧
        ∀ d ∈ more, isSpace d = false ∧ d ≠ '=' := ⟨c, _, rfl, hc, hmore⟩
    cases assigned with
    | none =>
      obtain ⟨rfl, hne⟩ := scanAssignment_eq_none_iff.1 hpair
      exact ⟨⟨hshape, by simp⟩, (endsBefore_none_iff hc).2 ⟨hend, hne⟩⟩
    | some v =>
      obtain ⟨-, hv, hv'⟩ := scanAssignment_eq_some_iff.1 hpair
      exact ⟨⟨hshape, by simpa using hv⟩, hv'⟩
  · rintro ⟨⟨⟨c, more, hn, hc, hmore⟩, hassigned⟩, hend⟩
    simp only at hn hassigned
    subst hn
    refine ⟨c, more ++ ((assigned.map Assignment.written).getD [] ++ rest), by simp [Attribute.written], hc, ?_⟩
    cases assigned with
    | none =>
      obtain ⟨hends, hne⟩ := (endsBefore_none_iff hc).1 hend
      have hname := restOfName_eq_iff.2 ⟨hmore, hends⟩
      have hnone : scanAssignment rest = (none, rest) := scanAssignment_eq_none_iff.2 ⟨rfl, hne⟩
      simp [scanAttribute, hname, hnone]
    | some v =>
      have hv : v.Shaped := hassigned v rfl
      have hname := restOfName_eq_iff.2 ⟨hmore, endsName_written hv more rest⟩
      have hsome := scanAssignment_eq_some_iff.2 ⟨rfl, hv, hend⟩
      simp [scanAttribute, hname, hsome]

/-! ## The inside of a tag -/

/-- Attributes, and the gap behind the last one, that are read off the text that they are written to. -/
def Readable : List Attribute → (gap : Text) → Prop
  | [], gap => ∀ c ∈ gap, isGapChar c = true
  | a :: rest, gap =>
    (∀ c ∈ a.gap, isGapChar c = true) ∧ a.Shaped ∧ a.EndsBefore (writtenAttributes rest ++ gap) ∧ Readable rest gap

theorem Readable.forms {l : List Attribute} {gap : Text} (h : Readable l gap) :
    (∀ a ∈ l, (∀ c ∈ a.gap, isGapChar c = true) ∧ a.Shaped) ∧ ∀ c ∈ gap, isGapChar c = true := by
  induction l with
  | nil => exact ⟨by simp, h⟩
  | cons a l ih =>
    obtain ⟨hgap, hshaped, -, hl⟩ := h
    obtain ⟨ih1, ih2⟩ := ih hl
    exact ⟨List.forall_mem_cons.2 ⟨⟨hgap, hshaped⟩, ih1⟩, ih2⟩

/-- Some gap holds the slash that closes the tag. -/
def closes : List Attribute → (gap : Text) → Bool
  | [], gap => closesItself gap []
  | a :: rest, gap => closesItself a.gap (a.written ++ (writtenAttributes rest ++ gap)) || closes rest gap

theorem writtenAttributes_append (l m : List Attribute) :
    writtenAttributes (l ++ m) = writtenAttributes l ++ writtenAttributes m := by
  simp [writtenAttributes]

theorem writtenAttributes_cons (a : Attribute) (rest : List Attribute) :
    writtenAttributes (a :: rest) = a.gap ++ a.written ++ writtenAttributes rest := rfl

theorem takeWhile_isGapChar {c : Char} {gap r : Text} (hgap : ∀ c ∈ gap, isGapChar c = true) (hc : isGapChar c = false) :
    (gap ++ c :: r).takeWhile isGapChar = gap ∧ (gap ++ c :: r).dropWhile isGapChar = c :: r :=
  have hhead : ∀ d ∈ (c :: r).head?, isGapChar d = false := by simp [hc]
  ⟨takeWhile_span hgap hhead, dropWhile_span hgap hhead⟩

/-- **Readable attributes are read off.** -/
theorem scanInside_eq {l : List Attribute} {gap : Text} (h : Readable l gap) :
    scanInside (writtenAttributes l ++ gap) = ⟨l, gap, closes l gap⟩ := by
  induction l with
  | nil =>
    have hd : gap.dropWhile isGapChar = [] := by simpa using dropWhile_span h (r := []) (by simp)
    show scanInside gap = _
    rw [scanInside]
    split
    · rfl
    · rename_i c r hc
      rw [hd] at hc
      cases hc
  | cons a l ih =>
    obtain ⟨hgap, hshaped, hend, hl⟩ := h
    obtain ⟨c, r, hw, hc, hscan⟩ := readBefore_iff.2 ⟨hshaped, hend⟩
    obtain ⟨ht, hd⟩ := takeWhile_isGapChar (r := r) hgap hc
    have hs : writtenAttributes (a :: l) ++ gap = a.gap ++ c :: r := by
      rw [writtenAttributes_cons, List.append_assoc, List.append_assoc, hw]
    rw [hs, scanInside, ht]
    split
    · rename_i hnil
      rw [hd] at hnil
      cases hnil
    · rename_i c' r' hcons
      rw [hd] at hcons
      cases hcons
      simp only [hscan, ih hl, closes, hw]

/-- **What is read off** is readable, and the tag closes itself if one of the gaps does. -/
theorem readable_scanInside (s : Text) : Readable (scanInside s).attributes (scanInside s).gap ∧
    (scanInside s).selfClosing = closes (scanInside s).attributes (scanInside s).gap := by
  fun_induction scanInside s with
  | case1 s h =>
    have hall : ∀ c ∈ s, isGapChar c = true := by simpa using h
    exact ⟨hall, rfl⟩
  | case2 s c r h gap first inside ih =>
    obtain ⟨hread, hself⟩ := ih
    have hwritten := scanAttribute_written gap c r
    have hrest : writtenAttributes inside.attributes ++ inside.gap = first.2 := scanInside_written first.2
    have hc : isGapChar c = false := by
      have := head?_dropWhile isGapChar s c
      rw [h] at this
      exact this rfl
    have hgap : ∀ d ∈ gap, isGapChar d = true := fun d hd => List.mem_takeWhile_imp hd
    obtain ⟨hshaped, hend⟩ : first.1.Shaped ∧ first.1.EndsBefore first.2 :=
      readBefore_iff.1 ⟨c, r, hwritten, hc, rfl⟩
    refine ⟨⟨hgap, hshaped, hrest ▸ hend, hread⟩, ?_⟩
    have hself' : inside.selfClosing = closes inside.attributes inside.gap := hself
    have hfirst : first.1.written ++ first.2 = c :: r := hwritten
    rw [closes, hrest, hfirst, ← hself']
    rfl

theorem readable_scan (raw : Text) : Readable (scan raw).attributes (scan raw).gap ∧
    (scan raw).selfClosing = closes (scan raw).attributes (scan raw).gap := readable_scanInside _

/-- An attribute stands in the text that it was scanned from. -/
theorem infix_of_mem {raw : Text} {a : Attribute} (h : a ∈ (scan raw).attributes) : a.written <:+: raw := by
  have hinfix : a.gap ++ a.written <:+: writtenAttributes (scan raw).attributes :=
    List.infix_of_mem_flatten (List.mem_map_of_mem (f := fun a : Attribute => a.gap ++ a.written) h)
  have hall : writtenAttributes (scan raw).attributes <:+: (scan raw).written :=
    ⟨(scan raw).opening ++ (scan raw).name, (scan raw).gap ++ (scan raw).closing, by simp [written]⟩
  rw [written_scan] at hall
  exact ((List.suffix_append a.gap a.written).isInfix.trans hinfix).trans hall

/-- What stands between the name and the end of a scanned tag starts with no character of a name. -/
theorem head?_inside (raw : Text) :
    ∀ c ∈ (writtenAttributes (scan raw).attributes ++ (scan raw).gap).head?, isNameChar c = false := by
  have hinside : writtenAttributes (scan raw).attributes ++ (scan raw).gap =
      (Text.dropEnding ">" (Text.dropStart "<" raw)).dropWhile isNameChar := scanInside_written _
  rw [hinside]
  exact head?_dropWhile isNameChar _

theorem isSpace_of_not_isGapChar {c : Char} (h : isGapChar c = false) : isSpace c = false ∧ c ≠ '/' ∧ c ≠ '=' := by
  simpa [isGapChar, and_assoc] using h

theorem isNameChar_of_isAlpha {d : Char} (h : d.isAlpha = true) : isNameChar d = true := by
  simp only [isNameChar, isSpace, Bool.and_eq_true, Bool.not_eq_eq_eq_not, Bool.not_true, Bool.or_eq_false_iff,
    beq_eq_false_iff_ne, bne_iff_ne]
  refine ⟨⟨⟨⟨⟨?_, ?_⟩, ?_⟩, ?_⟩, ?_⟩, ?_⟩
  all_goals
    rintro rfl
    exact absurd h (by decide)

/-- The name of a tag starts with the letter that the inside of the tag does. -/
theorem exists_letter {u name inside : Text} (hu : u = name ++ inside) (hletter : u.head?.any Char.isAlpha = true)
    (hinside : ∀ d ∈ inside.head?, isNameChar d = false) : ∃ d more, name = d :: more ∧ d.isAlpha = true := by
  cases name with
  | cons d more => exact ⟨d, more, rfl, by simpa [hu] using hletter⟩
  | nil =>
    rw [List.nil_append] at hu
    subst hu
    cases u with
    | nil => simp at hletter
    | cons d u =>
      have hchar := isNameChar_of_isAlpha (by simpa using hletter : d.isAlpha = true)
      rw [hinside d rfl] at hchar
      cases hchar

/-- The parts of a tag between its `<` and its `>`. -/
theorem scan_parts (u : Text) : (scan ('<' :: (u ++ ['>']))).opening = ['<'] ∧ (scan ('<' :: (u ++ ['>']))).closing = ['>'] ∧
    u = (scan ('<' :: (u ++ ['>']))).name ++
      (writtenAttributes (scan ('<' :: (u ++ ['>']))).attributes ++ (scan ('<' :: (u ++ ['>']))).gap) := by
  have h1 : Text.dropStart "<" ('<' :: (u ++ ['>'])) = u ++ ['>'] := Text.dropStart_append "<" _
  have h2 : Text.dropEnding ">" (u ++ ['>']) = u := Text.dropEnding_append_self ">" _
  refine ⟨?_, ?_, ?_⟩
  · simp only [scan, h1, List.length_cons, Nat.add_sub_cancel_left, List.take_succ_cons, List.take_zero]
  · simp only [scan, h1, h2, List.drop_left]
  · simp only [scan, h1, h2, scanInside_written, List.takeWhile_append_dropWhile]

/-- **A tag written from its parts** is scanned into them again. -/
theorem scan_eq {name : Text} {l : List Attribute} {gap : Text} (hname : ∀ c ∈ name, isNameChar c = true)
    (hhead : ∀ c ∈ (writtenAttributes l ++ gap).head?, isNameChar c = false) (h : Readable l gap) :
    scan ('<' :: (name ++ (writtenAttributes l ++ gap) ++ ['>'])) =
      ⟨['<'], name, l, gap, ['>'], closes l gap⟩ := by
  have h1 : Text.dropStart "<" ('<' :: (name ++ (writtenAttributes l ++ gap) ++ ['>'])) =
      name ++ (writtenAttributes l ++ gap) ++ ['>'] := Text.dropStart_append "<" _
  have h2 : Text.dropEnding ">" (name ++ (writtenAttributes l ++ gap) ++ ['>']) = name ++ (writtenAttributes l ++ gap) :=
    Text.dropEnding_append_self ">" _
  have h3 : ((name ++ (writtenAttributes l ++ gap) ++ ['>']).drop (name ++ (writtenAttributes l ++ gap)).length) = ['>'] :=
    List.drop_left
  simp only [scan, h1, h2, h3, takeWhile_span hname hhead, dropWhile_span hname hhead, scanInside_eq h,
    List.length_cons, Nat.add_sub_cancel_left]
  rfl

end OpenTag

end MarkupLens
