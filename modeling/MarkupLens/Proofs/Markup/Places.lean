/-
Places in the tree of a page. A place is the way down to a node: at each level
the number of siblings in front. The place of the next sibling tells whether
there is one (`Node.hasLater`), and a place that is the start of another one is
that of a node around it.

`Node.placed` lists the nodes with their places in the order of the page: each
node stands there once (`Node.mem_placed`), a node in front of those in it, and
these in front of its later siblings, which is the lexicographic order of places
(`Node.pairwise_placed`).
-/
import MarkupLens.Markup.Tree

namespace MarkupLens

/-- The way down to a node: at each level the number of siblings in front. -/
abbrev Place := List Nat

/-- The place of the next sibling. -/
def Place.next : Place → Place
  | [] => []
  | [i] => [i + 1]
  | i :: j :: p => i :: next (j :: p)

namespace Node

/-- The nodes in a node; there are none in a text. -/
def children : Node → List Node
  | .text _ => []
  | .element _ _ children => children

/-- Induction over nodes, those in the first one and those behind it. -/
@[elab_as_elim]
theorem forest_induction {motive : List Node → Prop} (nil : motive [])
    (cons : ∀ n ns, motive n.children → motive ns → motive (n :: ns)) : ∀ ns, motive ns
  | [] => nil
  | .text s :: ns => cons (.text s) ns nil (forest_induction nil cons ns)
  | .element tag attributes children :: ns =>
    cons (.element tag attributes children) ns (forest_induction nil cons children) (forest_induction nil cons ns)

/-- The node at a place. -/
def at? : List Node → Place → Option Node
  | _, [] => none
  | ns, [i] => ns[i]?
  | ns, i :: j :: p => ns[i]?.bind fun n => at? n.children (j :: p)

/-- There is a sibling behind the node at a place. -/
def hasLater (ns : List Node) (p : Place) : Bool := (at? ns p.next).isSome

mutual

/-- A node, behind so many siblings, and those in it in the order of the page, each with its place. -/
def placedNode (i : Nat) : Node → List (Place × Node)
  | .text s => [([i], .text s)]
  | .element tag attributes children =>
    ([i], .element tag attributes children) :: (placedFrom 0 children).map fun e => (i :: e.1, e.2)

/-- Some nodes, the first behind so many siblings, and those in them in the order of the page, each with its place. -/
def placedFrom (i : Nat) : List Node → List (Place × Node)
  | [] => []
  | n :: ns => placedNode i n ++ placedFrom (i + 1) ns

end

/-- All nodes of a tree in the order of the page, each with its place. -/
def placed (ns : List Node) : List (Place × Node) := placedFrom 0 ns

variable {ns : List Node}

theorem placedFrom_cons (i : Nat) (n : Node) (ns : List Node) : placedFrom i (n :: ns) =
    ([i], n) :: (placedFrom 0 n.children).map (fun e => (i :: e.1, e.2)) ++ placedFrom (i + 1) ns := by
  cases n with
  | text s => rfl
  | element tag attributes children => rfl

/-! ## The node at a place -/

@[simp] theorem at?_nil (p : Place) : at? [] p = none := by
  rcases p with _ | ⟨i, _ | ⟨j, p⟩⟩ <;> simp [at?]

@[simp] theorem at?_zero (n : Node) (ns : List Node) : at? (n :: ns) [0] = some n := rfl

@[simp] theorem at?_zero_cons (n : Node) (ns : List Node) (j : Nat) (p : Place) :
    at? (n :: ns) (0 :: j :: p) = at? n.children (j :: p) := rfl

@[simp] theorem at?_succ (n : Node) (ns : List Node) (i : Nat) (p : Place) :
    at? (n :: ns) ((i + 1) :: p) = at? ns (i :: p) := by
  cases p <;> rfl

theorem at?_cons_cons {i : Nat} {n : Node} (h : ns[i]? = some n) (j : Nat) (p : Place) :
    at? ns (i :: j :: p) = at? n.children (j :: p) := by
  rw [at?, h, Option.bind_some]

/-- Below a node, later siblings are those among the nodes in it. -/
theorem hasLater_cons_cons {i : Nat} {n : Node} (h : ns[i]? = some n) (j : Nat) (p : Place) :
    hasLater ns (i :: j :: p) = hasLater n.children (j :: p) := by
  rw [hasLater, hasLater, Place.next]
  cases p with
  | nil => rw [Place.next, at?_cons_cons h]
  | cons k p => rw [Place.next, at?_cons_cons h]

/-! ## All nodes -/

theorem mem_placedFrom {i : Nat} {p : Place} {n : Node} :
    (p, n) ∈ placedFrom i ns ↔ ∃ j q, p = (i + j) :: q ∧ at? ns (j :: q) = some n := by
  induction ns using forest_induction generalizing i p with
  | nil => simp [placedFrom]
  | cons m ns ihc ih =>
    rw [placedFrom_cons, List.mem_append, List.mem_cons, List.mem_map, ih]
    constructor
    · rintro ((h | ⟨⟨q, n⟩, hmem, h⟩) | ⟨j, q, rfl, h⟩)
      · cases h
        exact ⟨0, [], rfl, rfl⟩
      · cases h
        obtain ⟨j, q, rfl, h⟩ := ihc.1 hmem
        rw [Nat.zero_add]
        exact ⟨0, j :: q, rfl, h⟩
      · exact ⟨j + 1, q, by rw [Nat.add_right_comm, Nat.add_assoc], by rw [at?_succ, h]⟩
    · rintro ⟨j, q, rfl, h⟩
      cases j with
      | zero =>
        cases q with
        | nil =>
          rw [at?_zero, Option.some.injEq] at h
          exact .inl (.inl (by rw [h, Nat.add_zero]))
        | cons k q =>
          rw [at?_zero_cons] at h
          exact .inl (.inr ⟨(k :: q, n), ihc.2 ⟨k, q, by rw [Nat.zero_add], h⟩, by rw [Nat.add_zero]⟩)
      | succ j =>
        rw [at?_succ] at h
        exact .inr ⟨j, q, by rw [Nat.add_right_comm, Nat.add_assoc], h⟩

/-- **Each node of the tree** is listed with its place. -/
theorem mem_placed {p : Place} {n : Node} : (p, n) ∈ placed ns ↔ at? ns p = some n := by
  rw [placed, mem_placedFrom]
  constructor
  · rintro ⟨j, q, rfl, h⟩
    rwa [Nat.zero_add]
  · intro h
    cases p with
    | nil => cases h
    | cons i p => exact ⟨i, p, by rw [Nat.zero_add], h⟩

theorem exists_cons_of_mem {i : Nat} {e : Place × Node} (h : e ∈ placedFrom i ns) : ∃ j q, e.1 = (i + j) :: q := by
  obtain ⟨j, q, he, -⟩ := mem_placedFrom.1 h
  exact ⟨j, q, he⟩

theorem pairwise_placedFrom (i : Nat) (ns : List Node) :
    (placedFrom i ns).Pairwise fun a b => a.1 < b.1 := by
  induction ns using forest_induction generalizing i with
  | nil =>
    rw [placedFrom]
    exact .nil
  | cons n ns ihc ih =>
    rw [placedFrom_cons, List.cons_append, List.pairwise_cons, List.pairwise_append, List.pairwise_map]
    refine ⟨fun e he => ?_, ?_, ih (i + 1), fun a ha b hb => ?_⟩
    · rcases List.mem_append.1 he with he | he
      · obtain ⟨e, hmem, rfl⟩ := List.mem_map.1 he
        obtain ⟨j, q, hq⟩ := exists_cons_of_mem hmem
        exact List.cons_lt_cons_iff.2 (.inr ⟨rfl, by rw [hq]; exact List.nil_lt_cons _ _⟩)
      · obtain ⟨j, q, hq⟩ := exists_cons_of_mem he
        rw [hq]
        exact List.cons_lt_cons_iff.2 (.inl (by omega))
    · exact (ihc 0).imp fun h => List.cons_lt_cons_iff.2 (.inr ⟨rfl, h⟩)
    · obtain ⟨e, -, rfl⟩ := List.mem_map.1 ha
      obtain ⟨j, q, hq⟩ := exists_cons_of_mem hb
      rw [hq]
      exact List.cons_lt_cons_iff.2 (.inl (by omega))

/-- **The nodes are listed in the order of their places,** so none is listed twice. -/
theorem pairwise_placed (ns : List Node) : (placed ns).Pairwise fun a b => a.1 < b.1 := pairwise_placedFrom 0 ns

end Node

end MarkupLens
