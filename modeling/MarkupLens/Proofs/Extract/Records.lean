/-
Extraction from the nodes of a forest. Text gives nothing, so what a forest
gives is one record for each of its elements, those below an element apart
(`records`): a page is their merge (`extractWith_written`), and a loop binds
the list of them.
-/
import MarkupLens.Extract
import MarkupLens.Proofs.Context.Recovered
import MarkupLens.Proofs.Markup.ForestTree
import MarkupLens.Proofs.Render.Evaluate

namespace MarkupLens

open Extract (ofNode ofEach mergeInto)

variable {table : DirectiveTable}

namespace Extract

theorem mergeInto_text (r : Context) (s : Text) (ns : List Node) :
    mergeInto table r (.text s :: ns) = mergeInto table r ns := by
  rw [mergeInto, ofNode, Context.merge_empty]

theorem mergeInto_ofText (r : Context) (s : Text) (ns : List Node) :
    mergeInto table r (Node.ofText s ++ ns) = mergeInto table r ns := by
  unfold Node.ofText
  split
  · rfl
  · exact mergeInto_text r s ns

theorem ofEach_ofText (s : Text) (ns : List Node) : ofEach table (Node.ofText s ++ ns) = ofEach table ns := by
  unfold Node.ofText
  split
  · rfl
  · rw [List.singleton_append, ofEach]

theorem canonical_mergeInto {r : Context} (h : r.Canonical) (ns : List Node) : (mergeInto table r ns).Canonical := by
  induction ns generalizing r with
  | nil => rwa [mergeInto]
  | cons n ns ih =>
    rw [mergeInto]
    exact ih (h.merge _)

theorem canonical_ownRecord (ms : List Mark) (attributes : Attributes) (children : List Node) :
    (ownRecord ms attributes children).Canonical :=
  List.foldlRecOn (motive := Context.Canonical) (ordered ms) _ Context.canonical_empty fun _ h m _ => h.insert m.key _

theorem canonical_ofNode (n : Node) : (ofNode table n).Canonical := by
  cases n with
  | text s =>
    rw [ofNode]
    exact Context.canonical_empty
  | element name attributes children =>
    have hown := canonical_ownRecord (marks table attributes) attributes children
    rw [ofNode]
    split
    · exact canonical_mergeInto hown _
    · split
      · exact hown.insert _ _
      · exact hown.insert _ _

end Extract

namespace Forest

def record (table : DirectiveTable) (tag : PlainTag) (children : Forest) : Context :=
  ofNode table (.element tag.name (Markup.attributesOf tag.opened) (children.nodesAfter []))

/-- The records that the elements of a forest give. -/
def records (table : DirectiveTable) : Forest → List Context
  | .nil => []
  | .text _ rest | .comment _ rest => records table rest
  | .element tag children rest => record table tag children :: records table rest

/-- The number of elements that stand side by side. -/
def roots : Forest → Nat
  | .nil => 0
  | .text _ rest | .comment _ rest => roots rest
  | .element _ _ rest => roots rest + 1

theorem mergeInto_nodesAfter (f : Forest) (pending : Text) (r : Context) :
    mergeInto table r (f.nodesAfter pending) = (f.records table).foldl Context.merge r := by
  induction f generalizing pending r with
  | nil =>
    have h : mergeInto table r (Node.ofText pending ++ []) = mergeInto table r [] :=
      Extract.mergeInto_ofText r pending []
    rw [List.append_nil, mergeInto] at h
    exact h
  | text s rest ih => exact ih _ _
  | comment s rest ih => exact ih _ _
  | element tag children rest _ ih =>
    rw [nodesAfter, Extract.mergeInto_ofText, mergeInto, ih]
    rfl

theorem ofEach_nodesAfter (f : Forest) (pending : Text) : ofEach table (f.nodesAfter pending) = f.records table := by
  induction f generalizing pending with
  | nil =>
    have h : ofEach table (Node.ofText pending ++ []) = ofEach table [] := Extract.ofEach_ofText pending []
    rw [List.append_nil, ofEach] at h
    exact h
  | text s rest ih => exact ih _
  | comment s rest ih => exact ih _
  | element tag children rest _ ih =>
    rw [nodesAfter, Extract.ofEach_ofText, ofEach, ih]
    rfl

/-- **What a page gives** is the merge of what its elements give. -/
theorem extractWith_written {f : Forest} (h : f.WellFormed) :
    Extract.extractWith table f.written = (f.records table).foldl Context.merge .empty := by
  rw [Extract.extractWith, parse_written h]
  exact mergeInto_nodesAfter f [] .empty

theorem records_append (f g : Forest) : (f ++ g).records table = f.records table ++ g.records table := by
  induction f with
  | nil => rfl
  | text s rest ih | comment s rest ih => exact ih
  | element tag children rest _ ih => simp only [element_append, records, ih, List.cons_append]

theorem records_concat (fs : List Forest) : (concat fs).records table = fs.flatMap (records table) := by
  induction fs with
  | nil => rfl
  | cons f fs ih => rw [concat, records_append, ih, List.flatMap_cons]

theorem length_records (f : Forest) : (f.records table).length = f.roots := by
  induction f with
  | nil => rfl
  | text s rest ih | comment s rest ih => exact ih
  | element tag children rest _ ih => rw [records, List.length_cons, ih, roots]

/-- Evaluation leaves as many elements side by side as there were. -/
theorem roots_evaluate (f : Forest) (c : Context) : (f.evaluate table c).roots = f.roots := by
  induction f with
  | nil => rfl
  | text s rest ih | comment s rest ih => exact ih
  | element tag children rest _ ih =>
    simp only [evaluate]
    split <;> simp only [roots, ih]

/-- A single element gives what merging all of them gives. -/
theorem records_of_roots {f : Forest} (h : f.roots = 1) :
    f.records table = [(f.records table).foldl Context.merge .empty] := by
  have hcanonical : ∀ r ∈ f.records table, r.Canonical := by
    clear h
    induction f with
    | nil => exact fun r hr => (List.not_mem_nil hr).elim
    | text s rest ih | comment s rest ih => exact ih
    | element tag children rest _ ih =>
      rw [records, List.forall_mem_cons]
      exact ⟨Extract.canonical_ofNode _, ih⟩
  have hlen : (f.records table).length = 1 := (length_records f).trans h
  obtain ⟨r, hr⟩ := List.length_eq_one_iff.1 hlen
  rw [hr] at hcanonical ⊢
  rw [List.foldl_cons, List.foldl_nil, Context.empty_merge (hcanonical r (by simp))]

/-- What is repeated, being one element, gives one record for each time. -/
theorem records_repeated {children : Forest} (h : children.roots = 1) (scopes : List Context) :
    (concat (scopes.map fun d => children.evaluate table d)).records table =
      scopes.map fun d => ((children.evaluate table d).records table).foldl Context.merge .empty := by
  have hone : ∀ d ∈ scopes, (children.evaluate table d).records table =
      [((children.evaluate table d).records table).foldl Context.merge .empty] :=
    fun d _ => records_of_roots ((roots_evaluate children d).trans h)
  rw [records_concat, List.flatMap_map, List.flatMap_def, List.map_congr_left hone, ← List.flatMap_def,
    ← List.map_eq_flatMap]

end Forest

end MarkupLens
