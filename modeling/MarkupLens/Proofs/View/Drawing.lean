/-
The drawing of a tree, line by line. Whatever the tree, its drawing is the rows
of its nodes in the order of the page, each with its end: in front of a label
stands the branch to the node, and in front of that a column for each element
around it, all told by whether there is a later sibling (`outline_eq`).

A row is one line if its label is. Labels are texts and values of a page, which
may go over lines; only the blanks at the ends of a text are taken off. Where one
does, its node takes more than one line, and the lines behind its first can pass
for the rows of nodes that are not there (`outline_forged`). Where none does, the
rows are the lines, and the tree of the labels is read back from them
(`outline_drawn`): from the last line to the first, each takes the deeper ones
behind it as what is below it (`Sketch.gather`).
-/
import Mathlib.Data.List.Basic
import MarkupLens.Proofs.Markup.Places
import MarkupLens.Proofs.Text.Basic
import MarkupLens.View.Outline

namespace MarkupLens.View

open Markup (parse)
open Node (placed placedFrom hasLater)

/-! ## Rows -/

/-- The column below the node at a place: a bar if the node has a later sibling. -/
def columnAt (ns : List Node) (p : Place) : Text := if hasLater ns p then "│ " else "  "

/-- The branch to the node at a place; one without a later sibling gets a corner. -/
def branchAt (ns : List Node) (p : Place) : Text := if hasLater ns p then "├─" else "└─"

/-- The row of a node: a column for each element around it, the outermost first, its branch and its label. -/
def row (ns : List Node) (p : Place) (n : Node) : Text :=
  ((List.range (p.length - 1)).flatMap fun d => columnAt ns (p.take (d + 1))) ++ branchAt ns p ++ ' ' :: label n

variable {ns : List Node}

theorem outlineNodes_cons (columns : Text) (n : Node) (ns : List Node) : outlineNodes columns (n :: ns) =
    (columns ++ connector ns.isEmpty ++ ' ' :: label n ++ ['\n']) ++
      (outlineNodes (columns ++ column ns.isEmpty) n.children ++ outlineNodes columns ns) := by
  cases n with
  | text s => simp [outlineNodes, outlineNode, Node.children]
  | element tag attributes children => simp [outlineNodes, outlineNode, Node.children]

theorem hasLater_append (front : List Node) (n : Node) (ns : List Node) :
    hasLater (front ++ n :: ns) [front.length] = !ns.isEmpty := by
  cases ns <;> simp [hasLater, Place.next, Node.at?]

/-- A row below a node is its row among the nodes in that, behind the column of the node. -/
theorem row_cons_cons {i : Nat} {m : Node} (h : ns[i]? = some m) (j : Nat) (p : Place) (n : Node) :
    row ns (i :: j :: p) n = columnAt ns [i] ++ row m.children (j :: p) n := by
  have hcolumns : ∀ d, columnAt ns (i :: j :: p.take d) = columnAt m.children (j :: p.take d) := by
    intro d
    rw [columnAt, Node.hasLater_cons_cons h, columnAt]
  have hlength : (i :: j :: p).length - 1 = (j :: p).length - 1 + 1 := rfl
  rw [row, row, hlength, List.range_succ_eq_map, List.flatMap_cons, List.flatMap_map, branchAt,
    Node.hasLater_cons_cons h]
  simp only [List.take_succ_cons, List.take_zero, hcolumns, List.append_assoc]
  rfl

theorem outlineNodes_eq (columns : Text) (front ns : List Node) : outlineNodes columns ns =
    (placedFrom front.length ns).flatMap fun e => columns ++ row (front ++ ns) e.1 e.2 ++ ['\n'] := by
  induction ns using Node.forest_induction generalizing columns front with
  | nil => simp [outlineNodes, placedFrom]
  | cons n ns ihc ih =>
    have hn : (front ++ n :: ns)[front.length]? = some n := by simp
    have hcolumn : columnAt (front ++ n :: ns) [front.length] = column ns.isEmpty := by
      rw [columnAt, hasLater_append]
      cases ns <;> rfl
    have hown : row (front ++ n :: ns) [front.length] n = connector ns.isEmpty ++ ' ' :: label n := by
      rw [row, branchAt, hasLater_append]
      cases ns <;> rfl
    have hbelow : ∀ e ∈ placedFrom 0 n.children,
        columns ++ row (front ++ n :: ns) (front.length :: e.1) e.2 ++ ['\n'] =
          columns ++ column ns.isEmpty ++ row n.children e.1 e.2 ++ ['\n'] := by
      intro e he
      obtain ⟨j, p, hp⟩ := Node.exists_cons_of_mem he
      rw [hp, row_cons_cons hn, hcolumn]
      simp only [List.append_assoc]
    have hrest := ih columns (front ++ [n])
    rw [List.length_append, List.length_singleton, List.append_assoc, List.singleton_append] at hrest
    rw [outlineNodes_cons, Node.placedFrom_cons, List.cons_append, List.flatMap_cons, List.flatMap_append,
      List.flatMap_map, hrest, ihc (columns ++ column ns.isEmpty) [], List.flatMap_congr hbelow, hown]
    simp only [List.append_assoc, List.nil_append, List.length_nil]

/-- **A drawing** is the rows of the nodes in the order of the page, each with its end. -/
theorem outline_eq (page : Text) :
    outline page = (placed (parse page)).flatMap fun e => row (parse page) e.1 e.2 ++ ['\n'] :=
  outlineNodes_eq [] [] (parse page)

/-! ## Lines -/

theorem mem_row {p : Place} {n : Node} : '\n' ∈ row ns p n ↔ '\n' ∈ label n := by
  have hcolumn : ∀ q, '\n' ∉ columnAt ns q := by
    intro q
    rw [columnAt]
    split <;> decide
  have hbranch : '\n' ∉ branchAt ns p := by
    rw [branchAt]
    split <;> decide
  have hblank : '\n' ≠ ' ' := by decide
  simp [row, hcolumn, hbranch, hblank]

/-- There is one line end for each row, and those that stand in the rows. -/
theorem count_rows {α : Type} (f : α → Text) (rows : List α) :
    (rows.flatMap fun e => f e ++ ['\n']).count '\n' = (rows.flatMap f).count '\n' + rows.length := by
  induction rows with
  | nil => rfl
  | cons e rows ih =>
    rw [List.flatMap_cons, List.flatMap_cons, List.count_append, List.count_append, List.count_append, ih,
      List.count_singleton_self, List.length_cons]
    omega

/-- Rows that are one line each are the lines; behind the last end there is nothing. -/
theorem splitOn_rows {α : Type} (f : α → Text) {rows : List α} (h : ∀ e ∈ rows, '\n' ∉ f e) :
    (rows.flatMap fun e => f e ++ ['\n']).splitOn '\n' = rows.map f ++ [[]] := by
  induction rows with
  | nil => simp
  | cons e rows ih =>
    have he := List.forall_mem_cons.1 h
    rw [List.flatMap_cons, List.append_assoc, List.singleton_append, List.splitOn_append_cons_self_of_not_mem he.1,
      ih he.2, List.map_cons, List.cons_append]

/-! ## Reading a drawing back -/

/-- What a drawing shows of a node: its label and what is below it. -/
inductive Sketch where
  | node (label : Text) (below : List Sketch)

namespace Sketch

mutual

/-- What there is to see of a node. -/
def ofNode : Node → Sketch
  | .text s => node (label (.text s)) []
  | .element tag attributes children => node (label (.element tag attributes children)) (ofNodes children)

/-- What there is to see of some nodes. -/
def ofNodes : List Node → List Sketch
  | [] => []
  | n :: ns => ofNode n :: ofNodes ns

end

/-- How far in the label of a line stands, in steps of two characters of which the branch is the last, and the label. -/
def readRow : Text → Nat × Text
  | a :: _ :: s => if a = '├' ∨ a = '└' then (1, s.drop 1) else ((readRow s).1 + 1, (readRow s).2)
  | _ => (0, [])

/-- A line takes the deeper ones behind it as what is below it. -/
def gather (line : Nat × Text) (rest : List (Nat × Sketch)) : List (Nat × Sketch) :=
  (line.1, node line.2 ((rest.takeWhile (line.1 < ·.1)).map (·.2))) :: rest.dropWhile (line.1 < ·.1)

/-- What a drawing shows, by its lines. -/
def read (drawing : Text) : List Sketch :=
  (((drawing.splitOn '\n').dropLast.map readRow).foldr gather []).map (·.2)

theorem ofNode_eq (n : Node) : ofNode n = node (label n) (ofNodes n.children) := by
  cases n with
  | text s => rfl
  | element tag attributes children => rfl

/-- A column is a step, whatever stands behind it. -/
theorem readRow_columnAt (ns : List Node) (p : Place) (s : Text) :
    readRow (columnAt ns p ++ s) = ((readRow s).1 + 1, (readRow s).2) := by
  rw [columnAt]
  split <;> rfl

theorem readRow_branchAt (ns : List Node) (p : Place) (s : Text) : readRow (branchAt ns p ++ ' ' :: s) = (1, s) := by
  rw [branchAt]
  split <;> rfl

theorem readRow_columns (ns : List Node) (place : Nat → Place) (ds : List Nat) (s : Text) :
    readRow ((ds.flatMap fun d => columnAt ns (place d)) ++ s) = ((readRow s).1 + ds.length, (readRow s).2) := by
  induction ds with
  | nil => rfl
  | cons d ds ih => rw [List.flatMap_cons, List.append_assoc, readRow_columnAt, ih, List.length_cons, Nat.add_assoc]

/-- **A row tells** how far in its node is, and the label of that. -/
theorem readRow_row (ns : List Node) (i : Nat) (p : Place) (n : Node) :
    readRow (row ns (i :: p) n) = ((i :: p).length, label n) := by
  rw [row, List.append_assoc, readRow_columns, readRow_branchAt, List.length_range, List.length_cons,
    Nat.add_sub_cancel, Nat.add_comm]

/-- A line in front of what is one step deeper, and of lines that do not start deeper than it. -/
theorem gather_below {d : Nat} {rest : List (Nat × Sketch)} (h : ∀ e ∈ rest.head?, e.1 ≤ d) (l : Text)
    (below : List Sketch) :
    gather (d, l) (below.map (fun s => (d + 1, s)) ++ rest) = (d, node l below) :: rest := by
  have hdeeper : ∀ e ∈ below.map (fun s => (d + 1, s)), decide (d < e.1) = true := by
    intro e he
    obtain ⟨s, -, rfl⟩ := List.mem_map.1 he
    exact decide_eq_true (Nat.lt_succ_self d)
  have hrest : ∀ e ∈ rest.head?, decide (d < e.1) = false := fun e he => decide_eq_false (Nat.not_lt.2 (h e he))
  have hbelow : (below.map (fun s => (d + 1, s))).map (·.2) = below := by
    rw [List.map_map]
    exact List.map_id below
  rw [gather, Text.takeWhile_span hdeeper hrest, Text.dropWhile_span hdeeper hrest, hbelow]

/-- **Gathering** the lines of some nodes gives what there is to see of them, if what is gathered behind them does not
start deeper than they do. -/
theorem gather_lines (d i : Nat) (ns : List Node) {rest : List (Nat × Sketch)} (h : ∀ e ∈ rest.head?, e.1 ≤ d + 1) :
    ((placedFrom i ns).map fun e => (d + e.1.length, label e.2)).foldr gather rest =
      (ofNodes ns).map (fun s => (d + 1, s)) ++ rest := by
  induction ns using Node.forest_induction generalizing d i rest with
  | nil => rfl
  | cons n ns ihc ih =>
    have hhead : ∀ e ∈ ((ofNodes ns).map (fun s => (d + 1, s)) ++ rest).head?, e.1 ≤ d + 1 := by
      cases ofNodes ns with
      | nil => exact h
      | cons s ss =>
        rintro e ⟨⟩
        exact Nat.le_refl (d + 1)
    have hsteps : ∀ e : Place × Node, d + (i :: e.1).length = d + 1 + e.1.length := by
      intro e
      rw [List.length_cons]
      omega
    rw [Node.placedFrom_cons, List.cons_append, List.map_cons, List.map_append, List.map_map, List.foldr_cons,
      List.foldr_append, ih d (i + 1) h]
    simp only [Function.comp_def, hsteps]
    rw [ihc (d + 1) 0 fun e he => Nat.le_succ_of_le (hhead e he), List.length_singleton, gather_below hhead, ofNodes,
      ofNode_eq, List.map_cons, List.cons_append]

/-- What the rows of a tree show. -/
theorem read_rows {ns : List Node} (h : ∀ e ∈ placed ns, '\n' ∉ label e.2) :
    read ((placed ns).flatMap fun e => row ns e.1 e.2 ++ ['\n']) = ofNodes ns := by
  have hrow : ∀ e ∈ placed ns, readRow (row ns e.1 e.2) = (0 + e.1.length, label e.2) := by
    intro e he
    obtain ⟨i, p, hp⟩ := Node.exists_cons_of_mem he
    rw [Nat.zero_add, hp, readRow_row]
  have hlines : ∀ e ∈ placed ns, '\n' ∉ row ns e.1 e.2 := fun e he => mem_row.not.2 (h e he)
  have hread : ((placed ns).map fun e => row ns e.1 e.2).map readRow =
      (placed ns).map fun e => (0 + e.1.length, label e.2) := by
    rw [List.map_map]
    exact List.map_congr_left hrow
  rw [read, splitOn_rows _ hlines, List.dropLast_concat, hread, placed, gather_lines 0 0 ns (by rintro e ⟨⟩),
    List.append_nil, List.map_map]
  exact List.map_id _

end Sketch

/-- **A drawing is a row for each node,** in the order of the page, and there are as many lines as nodes exactly if no
label goes over lines. Then the rows are the lines, and what there is to see of the tree is read back from them. -/
theorem outline_drawn (page : Text) :
    outline page = ((placed (parse page)).flatMap fun e => row (parse page) e.1 e.2 ++ ['\n']) ∧
      ((placed (parse page)).Pairwise fun a b => a.1 < b.1) ∧
      (∀ p n, (p, n) ∈ placed (parse page) ↔ Node.at? (parse page) p = some n) ∧
      ((outline page).count '\n' = (placed (parse page)).length ↔ ∀ e ∈ placed (parse page), '\n' ∉ label e.2) ∧
      ((∀ e ∈ placed (parse page), '\n' ∉ label e.2) →
        (outline page).splitOn '\n' = (placed (parse page)).map (fun e => row (parse page) e.1 e.2) ++ [[]] ∧
          Sketch.read (outline page) = Sketch.ofNodes (parse page)) := by
  refine ⟨outline_eq page, Node.pairwise_placed _, fun p n => Node.mem_placed, ?_, fun h => ?_⟩
  · rw [outline_eq, count_rows, Nat.add_eq_right, List.count_eq_zero, List.mem_flatMap]
    simp only [mem_row, not_exists, not_and]
  · have hlines : ∀ e ∈ placed (parse page), '\n' ∉ row (parse page) e.1 e.2 := fun e he => mem_row.not.2 (h e he)
    rw [outline_eq]
    exact ⟨splitOn_rows _ hlines, Sketch.read_rows h⟩

/-- A list of two items behind a text, with a tag that has a value and one that has none. -/
def drawnPage : Text := "a<ul class=\"s\"><li hidden>b</li><li>c</li></ul>"

theorem outline_drawn_drawnPage :
    (∀ e ∈ placed (parse drawnPage), '\n' ∉ label e.2) ∧
      (outline drawnPage).splitOn '\n' =
        ["├─ Text: a", "└─ Element: ul class=\"s\"", "  ├─ Element: li hidden", "  │ └─ Text: b", "  └─ Element: li",
          "    └─ Text: c", ""].map String.toList ∧
      Sketch.read (outline drawnPage) = Sketch.ofNodes (parse drawnPage) := by
  have h : ∀ e ∈ placed (parse drawnPage), '\n' ∉ label e.2 := by decide +kernel
  obtain ⟨-, -, -, -, hread⟩ := outline_drawn drawnPage
  refine ⟨h, (hread h).1.trans ?_, (hread h).2⟩
  decide +kernel

/-- **A text over two lines** can pass for two rows: these trees have one drawing, of three lines, but the first has
only two nodes. -/
theorem outline_forged :
    outline "a\n├─ Element: b<c></c>" = outline "a<b></b><c></c>" ∧
      (outline "a\n├─ Element: b<c></c>").count '\n' = 3 ∧
      (placed (parse "a\n├─ Element: b<c></c>")).length = 2 ∧ (placed (parse "a<b></b><c></c>")).length = 3 := by
  decide +kernel

end MarkupLens.View
