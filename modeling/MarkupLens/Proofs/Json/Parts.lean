/-
JSON values at every depth: the values in a value are the value itself and
those in its items and members (`parts`). In a value that was read, the
members of every object stand in the order of their keys, and no key stands
twice (`ordered_read?`), as the reader puts each member in at its place.

The proof follows the reader: what is open and what is complete is in order,
and each lexeme keeps it so.
-/
import MarkupLens.Json.Reader
import MarkupLens.Proofs.Text.ByteOrder

namespace MarkupLens.Json

mutual

/-- The value and the values in it. -/
def parts : Json → List Json
  | .null => [.null]
  | .bool on => [.bool on]
  | .number n => [.number n]
  | .string s => [.string s]
  | .array items => .array items :: partsOfItems items
  | .object members => .object members :: partsOfMembers members

def partsOfItems : List Json → List Json
  | [] => []
  | item :: items => item.parts ++ partsOfItems items

def partsOfMembers : List (Text × Json) → List Json
  | [] => []
  | (_, value) :: members => value.parts ++ partsOfMembers members

end

/-- The members of an object ascend in the bytes of their keys. -/
def Ascends : Json → Prop
  | .object members => members.Pairwise fun a b => Text.encode a.1 < Text.encode b.1
  | _ => True

instance : DecidablePred Ascends
  | .object members => inferInstanceAs (Decidable (members.Pairwise fun a b => Text.encode a.1 < Text.encode b.1))
  | .null | .bool _ | .number _ | .string _ | .array _ => inferInstanceAs (Decidable True)

/-- At every depth, members ascend. -/
def Ordered (v : Json) : Prop := ∀ part ∈ v.parts, part.Ascends

instance (v : Json) : Decidable v.Ordered := inferInstanceAs (Decidable (∀ part ∈ v.parts, part.Ascends))

theorem partsOfItems_eq (items : List Json) : partsOfItems items = items.flatMap parts := by
  induction items with
  | nil => rfl
  | cons item items ih => rw [partsOfItems, ih, List.flatMap_cons]

theorem partsOfMembers_eq (members : List (Text × Json)) : partsOfMembers members = members.flatMap (·.2.parts) := by
  induction members with
  | nil => rfl
  | cons m members ih =>
    obtain ⟨key, value⟩ := m
    rw [partsOfMembers, ih, List.flatMap_cons]

theorem partsOfItems_append (a b : List Json) : partsOfItems (a ++ b) = partsOfItems a ++ partsOfItems b := by
  simp only [partsOfItems_eq, List.flatMap_append]

theorem partsOfMembers_append (a b : List (Text × Json)) :
    partsOfMembers (a ++ b) = partsOfMembers a ++ partsOfMembers b := by
  simp only [partsOfMembers_eq, List.flatMap_append]

theorem ascends_object {members : List (Text × Json)} : (Json.object members).Ascends ↔ Keyed.Sorted members := by
  rw [Ascends, Keyed.Sorted, Keyed.keys, List.pairwise_map]
  simp only [Text.encode_lt_iff]

theorem ordered_array {items : List Json} : (Json.array items).Ordered ↔ ∀ item ∈ items, item.Ordered := by
  rw [Ordered, parts, List.forall_mem_cons, partsOfItems_eq, List.forall_mem_flatMap]
  exact and_iff_right trivial

theorem ordered_object {members : List (Text × Json)} :
    (Json.object members).Ordered ↔ Keyed.Sorted members ∧ ∀ m ∈ members, m.2.Ordered := by
  rw [Ordered, parts, List.forall_mem_cons, partsOfMembers_eq, List.forall_mem_flatMap, ascends_object]
  rfl

/-! ## What is read is in order -/

/-- What is complete of an open container is in order. -/
def Frame.Ordered : Frame → Prop
  | .array items => (Json.array items).Ordered
  | .object members _ => (Json.object members).Ordered

/-- What has been read of what comes next is in order. -/
def Awaiting.Ordered : Awaiting → Prop
  | .value | .valueOrEnd | .keyOrEnd => True
  | .key members | .colon members _ => (Json.object members).Ordered
  | .next v => v.Ordered

/-- All that has been read is in order. -/
structure State.Ordered (s : State) : Prop where
  stack : ∀ f ∈ s.stack, f.Ordered
  awaiting : s.awaiting.Ordered

theorem ordered_nil : (Json.array []).Ordered ∧ (Json.object []).Ordered :=
  ⟨ordered_array.2 (List.forall_mem_nil _), ordered_object.2 ⟨Keyed.sorted_nil, List.forall_mem_nil _⟩⟩

theorem Ordered.insert {members : Keyed Json} (h : (Json.object members).Ordered) {v : Json} (hv : v.Ordered)
    (key : Text) : (Json.object (members.insert key v)).Ordered := by
  rw [ordered_object] at h ⊢
  refine ⟨h.1.insert key v, fun m hm => ?_⟩
  rcases Keyed.mem_insert hm with rfl | hm
  · exact hv
  · exact h.2 m hm

theorem Ordered.insertAll {members more : Keyed Json} (h : (Json.object members).Ordered)
    (hmore : ∀ m ∈ more, m.2.Ordered) : (Json.object (members.insertAll more)).Ordered := by
  induction more generalizing members with
  | nil => exact h
  | cons m more ih =>
    rw [List.forall_mem_cons] at hmore
    exact ih (h.insert hmore.1 m.1) hmore.2

theorem Ordered.append {items : List Json} (h : (Json.array items).Ordered) {v : Json} (hv : v.Ordered) :
    (Json.array (items ++ [v])).Ordered := by
  rw [ordered_array] at h ⊢
  exact List.forall_mem_append.2 ⟨h, List.forall_mem_singleton.2 hv⟩

/-- A value with no other values in it. -/
theorem ordered_of_parts_eq {v : Json} (hparts : v.parts = [v]) (h : v.Ascends) : v.Ordered := by
  rw [Ordered, hparts]
  exact List.forall_mem_singleton.2 h

/-- An atom that is read is in order. -/
def AtomOrdered (lexeme : Option (Lexeme × Text)) : Prop := ∀ v rest, lexeme = some (.atom v, rest) → v.Ordered

namespace AtomOrdered

theorem ite {p : Prop} [Decidable p] {a b : Option (Lexeme × Text)} (ha : AtomOrdered a) (hb : AtomOrdered b) :
    AtomOrdered (if p then a else b) := by
  split
  · exact ha
  · exact hb

theorem mark {l : Lexeme} {s : Text} (h : ∀ v, l ≠ .atom v) : AtomOrdered (some (l, s)) := by
  intro v rest heq
  cases heq
  exact absurd rfl (h v)

theorem map {α : Type} {read : Option α} {f : α → Lexeme × Text} (h : ∀ x v, (f x).1 = .atom v → v.Ordered) :
    AtomOrdered (read.map f) := by
  intro v rest heq
  obtain ⟨x, -, hx⟩ := Option.map_eq_some_iff.1 heq
  exact h x v (congrArg Prod.fst hx)

theorem word {w s : Text} {value : Json} (hvalue : value.Ordered) : AtomOrdered (word? w value s) :=
  map fun _ _ heq => by cases heq; exact hvalue

end AtomOrdered

/-- An atom has no objects in it. -/
theorem atomOrdered_lexeme? (c : Char) (s : Text) : AtomOrdered (lexeme? c s) := by
  have hnull : Json.null.Ordered := ordered_of_parts_eq rfl trivial
  have hbool : ∀ on, (Json.bool on).Ordered := fun on => ordered_of_parts_eq rfl trivial
  have hnumber : AtomOrdered ((number? (c :: s)).map fun p => (.atom (.number p.1), p.2)) := by
    refine .map fun p v heq => ?_
    cases heq
    exact ordered_of_parts_eq rfl trivial
  -- the marks and strings first, then the words
  refine .ite (.mark nofun) (.ite (.mark nofun) (.ite (.mark nofun) (.ite (.mark nofun) (.ite (.mark nofun)
    (.ite (.mark nofun) (.ite (.map nofun) ?_))))))
  exact .ite (.word hnull) (.ite (.word (hbool true)) (.ite (.word (hbool false)) hnumber))

variable {limit : Option Nat} {stack : List Frame} {s s' : State} {l : Lexeme}

theorem ordered_beginValue (hstack : ∀ f ∈ stack, f.Ordered) (hl : ∀ v, l = .atom v → v.Ordered)
    (h : beginValue limit stack l = some s) : s.Ordered := by
  unfold beginValue at h
  cases l with
  | atom v =>
    cases h
    exact ⟨hstack, hl v rfl⟩
  | string t =>
    cases h
    exact ⟨hstack, ordered_of_parts_eq rfl trivial⟩
  | openBracket =>
    dsimp only at h
    split at h
    · cases h
    · cases h
      exact ⟨List.forall_mem_cons.2 ⟨ordered_nil.1, hstack⟩, trivial⟩
  | openBrace =>
    dsimp only at h
    split at h
    · cases h
    · cases h
      exact ⟨hstack, trivial⟩
  | closeBracket | closeBrace | colon | comma => cases h

/-- **One lexeme** keeps what has been read in order. -/
theorem State.Ordered.step (h : s.Ordered) (hl : ∀ v, l = .atom v → v.Ordered) (hs : Json.step limit s l = some s') :
    s'.Ordered := by
  obtain ⟨stack, awaiting⟩ := s
  obtain ⟨hstack, hawaiting⟩ := h
  simp only [Json.step] at hs hstack hawaiting
  split at hs
  · exact ordered_beginValue hstack hl hs
  · -- an empty array
    split at hs <;> cases hs
    rw [List.forall_mem_cons] at hstack
    exact ⟨hstack.2, hstack.1⟩
  · exact ordered_beginValue hstack hl hs
  · cases hs
    exact ⟨hstack, ordered_nil.2⟩
  · cases hs
    exact ⟨hstack, ordered_nil.2⟩
  · cases hs
    exact ⟨hstack, hawaiting⟩
  · cases hs
    exact ⟨List.forall_mem_cons.2 ⟨hawaiting, hstack⟩, trivial⟩
  · -- a comma behind an item or a member
    split at hs <;> cases hs
    all_goals rw [List.forall_mem_cons] at hstack
    · exact ⟨List.forall_mem_cons.2 ⟨Ordered.append hstack.1 hawaiting, hstack.2⟩, trivial⟩
    · exact ⟨hstack.2, Ordered.insert hstack.1 hawaiting _⟩
  · split at hs <;> cases hs
    rw [List.forall_mem_cons] at hstack
    exact ⟨hstack.2, Ordered.append hstack.1 hawaiting⟩
  · split at hs <;> cases hs
    rw [List.forall_mem_cons] at hstack
    exact ⟨hstack.2, Ordered.insert hstack.1 hawaiting _⟩
  · cases hs

/-- **A run over a text** keeps it in order. -/
theorem State.Ordered.run (h : s.Ordered) {t : Text} (hs : Json.run limit s t = some s') : s'.Ordered := by
  fun_induction Json.run limit s t with
  | case1 =>
    cases hs
    exact h
  | case2 s c t _ ih => exact ih h hs
  | case3 => cases hs
  | case4 => cases hs
  | case5 s c t _ l rest hlexeme s₁ hstep ih =>
    have hl : ∀ v, l = .atom v → v.Ordered := by
      intro v hv
      rw [hv] at hlexeme
      exact atomOrdered_lexeme? c t v rest hlexeme
    exact ih (h.step hl hstep) hs

/-- **The members of what was read** ascend. -/
theorem ordered_read? {t : Text} {v : Json} (h : read? limit t = some v) : v.Ordered := by
  obtain ⟨s, hrun, hv⟩ := Option.bind_eq_some_iff.1 h
  have hstart : State.start.Ordered := ⟨List.forall_mem_nil _, trivial⟩
  have hs := (hstart.run hrun).awaiting
  unfold State.value? at hv
  split at hv
  · rename_i hnext
    rw [hnext] at hs
    cases hv
    exact hs
  · cases hv

end MarkupLens.Json
