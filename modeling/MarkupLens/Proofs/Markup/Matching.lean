/-
The search for a close tag, told by counting. Behind an open tag, the close
tags of its name are counted up and the tags of that name that open a body are
counted down (`excess`). One token changes the count by one at most, so where
it is positive it was one before (`exists_closesAt`), and the search ends where
it is one for the first time (`splitAtClose_iff`). Up to there the count is
never positive, which is to say that the depth the search keeps never falls
below its start.

The count of a stretch of tokens is made of those of its parts, so the matches
of two open tags of one name are nested or apart, and a match is the same in
every slice of the list that holds it (`matchingClose?_least`).
-/
import MarkupLens.Proofs.Markup.Pairing
import Mathlib.Order.Bounds.Basic

namespace MarkupLens

open Text (sameName sameName_comm)

/-- The same body, with more in front of it. -/
def Enclosed.behind (ts : List Token) (e : Enclosed) : Enclosed := { e with inner := ts ++ e.inner }

namespace Markup

variable {name : Text} {depth : Nat} {t : Token} {ts us : List Token} {i j k m : Nat}

/-! ## Counting -/

/-- By how many the close tags of a name outnumber the tags that open an element of that name with a body. -/
def excess (name : Text) (ts : List Token) : Int := (ts.countP (closes name) : Int) - (ts.countP (opens name) : Int)

@[simp] theorem excess_nil : excess name [] = 0 := rfl

theorem excess_append (name : Text) (ts us : List Token) :
    excess name (ts ++ us) = excess name ts + excess name us := by
  simp only [excess, List.countP_append, Int.natCast_add]
  omega

theorem excess_cons (name : Text) (t : Token) (ts : List Token) :
    excess name (t :: ts) = excess name [t] + excess name ts := excess_append name [t] ts

theorem opens_iff : opens name t = true ↔
    t.kind = .openTag ∧ sameName (openTagName t.text) name = true ∧ opensBody t.text = true := by
  simp only [opens, Bool.and_eq_true, beq_iff_eq, and_assoc]

/-- An open tag closes nothing. -/
theorem closes_of_openTag (hk : t.kind = .openTag) (name : Text) : closes name t = false := by simp [closes, hk]

/-- What one token counts for. -/
theorem excess_singleton (name : Text) (t : Token) :
    excess name [t] = if closes name t then 1 else if opens name t then -1 else 0 := by
  cases hc : closes name t with
  | true =>
    have ho : opens name t = false := by
      cases ho : opens name t with
      | false => rfl
      | true =>
        rw [closes_of_openTag (opens_iff.1 ho).1] at hc
        cases hc
    simp [excess, hc, ho]
  | false => cases ho : opens name t <;> simp [excess, hc, ho]

theorem excess_singleton_le (name : Text) (t : Token) : excess name [t] ≤ 1 := by
  rw [excess_singleton]
  split
  · omega
  · split <;> omega

/-- One more token takes the count up by one at most. -/
theorem excess_take_succ_le (name : Text) (ts : List Token) (k : Nat) :
    excess name (ts.take (k + 1)) ≤ excess name (ts.take k) + 1 := by
  rw [List.take_add_one, excess_append]
  cases hk : ts[k]? with
  | none =>
    simp only [Option.toList_none, excess_nil]
    omega
  | some t =>
    have := excess_singleton_le name t
    simp only [Option.toList_some]
    omega

/-- Names that differ in the case of letters only are counted alike. -/
theorem excess_congr {name' : Text} (h : sameName name name' = true) : excess name ts = excess name' ts := by
  have hsame : ∀ other : Text, sameName other name = sameName other name' := by
    intro other
    rw [sameName_comm other name, sameName_comm other name']
    exact sameName_congr h other
  have hcloses : closes name = closes name' := funext fun t => by simp only [closes, hsame]
  have hopens : opens name = opens name' := funext fun t => by simp only [opens, hsame]
  rw [excess, excess, hcloses, hopens]

/-! ## The first place where there are more close tags -/

/-- Through place `m`, and through none in front of it, the close tags of the name are more by `depth + 1`. -/
structure ClosesAt (name : Text) (depth : Nat) (ts : List Token) (m : Nat) : Prop where
  inside : m < ts.length
  before : ∀ k ≤ m, excess name (ts.take k) ≤ depth
  reached : excess name (ts.take (m + 1)) = depth + 1

/-- There is one such place. -/
theorem ClosesAt.unique (h : ClosesAt name depth ts m) (h' : ClosesAt name depth ts k) : m = k := by
  have hnot : ∀ {m k}, ClosesAt name depth ts m → ClosesAt name depth ts k → ¬ m < k := by
    intro m k hm hk hlt
    have hbefore := hk.before (m + 1) hlt
    have hreached := hm.reached
    omega
  have h1 := hnot h h'
  have h2 := hnot h' h
  omega

/-- **Before the count is above a height, it comes to be there,** and that is found. -/
theorem exists_closesAt (h : (depth : Int) < excess name (ts.take k)) : ∃ m < k, ClosesAt name depth ts m := by
  induction k using Nat.strongRecOn with
  | _ k ih =>
    by_cases hearlier : ∃ l < k, (depth : Int) < excess name (ts.take l)
    · obtain ⟨l, hl, habove⟩ := hearlier
      obtain ⟨m, hm, hcloses⟩ := ih l hl habove
      exact ⟨m, by omega, hcloses⟩
    · have hbefore : ∀ l < k, excess name (ts.take l) ≤ depth :=
        fun l hl => Int.not_lt.1 fun habove => hearlier ⟨l, hl, habove⟩
      cases k with
      | zero =>
        simp only [List.take_zero, excess_nil] at h
        omega
      | succ m =>
        have hm := hbefore m (by omega)
        have hstep := excess_take_succ_le name ts m
        have hinside : m < ts.length := by
          refine Nat.lt_of_not_le fun hlen => ?_
          rw [List.take_of_length_le (by omega)] at h hm
          omega
        exact ⟨m, by omega, hinside, fun l hl => hbefore l (by omega), by omega⟩

/-- One token further on, the place is one nearer, and the depth is that behind the token. -/
theorem closesAt_cons {depth' : Nat} (hd : (depth' : Int) = depth - excess name [t]) :
    ClosesAt name depth (t :: ts) (m + 1) ↔ ClosesAt name depth' ts m := by
  constructor
  · rintro ⟨hinside, hbefore, hreached⟩
    refine ⟨by simpa using hinside, fun k hk => ?_, ?_⟩
    · have := hbefore (k + 1) (by omega)
      rw [List.take_succ_cons, excess_cons] at this
      omega
    · rw [List.take_succ_cons, excess_cons] at hreached
      omega
  · rintro ⟨hinside, hbefore, hreached⟩
    refine ⟨by simpa using hinside, fun k hk => ?_, ?_⟩
    · cases k with
      | zero =>
        simp only [List.take_zero, excess_nil]
        omega
      | succ k =>
        have := hbefore k (by omega)
        rw [List.take_succ_cons, excess_cons]
        omega
    · rw [List.take_succ_cons, excess_cons]
      omega

/-- The first token is the place if it is a close tag of the name and nothing else is to be closed before. -/
theorem closesAt_zero : ClosesAt name depth (t :: ts) 0 ↔ closes name t = true ∧ depth = 0 := by
  have hone : excess name ((t :: ts).take 1) = excess name [t] := rfl
  constructor
  · rintro ⟨-, -, hreached⟩
    rw [Nat.zero_add, hone, excess_singleton] at hreached
    split at hreached
    · rename_i hcloses
      exact ⟨hcloses, by omega⟩
    · split at hreached <;> omega
  · rintro ⟨hcloses, rfl⟩
    refine ⟨by simp, fun k hk => ?_, ?_⟩
    · obtain rfl : k = 0 := by omega
      simp
    · rw [Nat.zero_add, hone, excess_singleton, if_pos hcloses]
      rfl

/-- A token that closes no more than is open leaves a depth that is not negative. -/
theorem exists_depth (h : excess name [t] ≤ depth) : ∃ depth' : Nat, (depth' : Int) = depth - excess name [t] :=
  ⟨(depth - excess name [t]).toNat, Int.toNat_of_nonneg (by omega)⟩

/-- **One step of the search:** it goes on with the depth behind the token. -/
theorem splitAtClose_cons {depth' : Nat} (hd : (depth' : Int) = depth - excess name [t]) :
    splitAtClose name depth (t :: ts) = (splitAtClose name depth' ts).map (Enclosed.behind [t]) := by
  rw [excess_singleton] at hd
  simp only [splitAtClose]
  split
  · rename_i hcloses
    rw [if_pos hcloses] at hd
    cases depth with
    | zero => omega
    | succ depth =>
      obtain rfl : depth = depth' := by omega
      rfl
  · rename_i hcloses
    rw [if_neg hcloses] at hd
    split
    · rename_i hopens
      rw [if_pos hopens] at hd
      obtain rfl : depth + 1 = depth' := by omega
      rfl
    · rename_i hopens
      rw [if_neg hopens] at hd
      obtain rfl : depth = depth' := by omega
      rfl

/-- **The search ends at the first place** where the close tags are more than the depth it starts with. -/
theorem splitAtClose_iff : (∃ e, splitAtClose name depth ts = some e ∧ e.inner.length = m) ↔
    ClosesAt name depth ts m := by
  induction ts generalizing depth m with
  | nil =>
    constructor
    · rintro ⟨e, he, -⟩
      cases he
    · rintro ⟨hinside, -, -⟩
      simp at hinside
  | cons t ts ih =>
    by_cases hfirst : closes name t = true ∧ depth = 0
    · obtain ⟨hcloses, rfl⟩ := hfirst
      have hfound : splitAtClose name 0 (t :: ts) = some ⟨[], t, ts⟩ := by simp [splitAtClose, hcloses]
      have hhere : ClosesAt name 0 (t :: ts) 0 := closesAt_zero.2 ⟨hcloses, rfl⟩
      rw [hfound]
      constructor
      · rintro ⟨e, he, rfl⟩
        cases he
        exact hhere
      · intro h
        exact ⟨_, rfl, hhere.unique h⟩
    · have hopen : excess name [t] ≤ depth := by
        rw [excess_singleton]
        split
        · rename_i hcloses
          have : depth ≠ 0 := fun h0 => hfirst ⟨hcloses, h0⟩
          omega
        · split <;> omega
      obtain ⟨depth', hd⟩ := exists_depth hopen
      rw [splitAtClose_cons hd]
      cases m with
      | zero =>
        refine iff_of_false ?_ fun h => hfirst (closesAt_zero.1 h)
        rintro ⟨e, he, hlen⟩
        obtain ⟨e, -, rfl⟩ := Option.map_eq_some_iff.1 he
        simp [Enclosed.behind] at hlen
      | succ m =>
        rw [closesAt_cons hd, ← ih]
        constructor
        · rintro ⟨e, he, hlen⟩
          obtain ⟨inner, hinner, rfl⟩ := Option.map_eq_some_iff.1 he
          exact ⟨inner, hinner, by simpa [Enclosed.behind] using hlen⟩
        · rintro ⟨e, he, rfl⟩
          exact ⟨_, by rw [he, Option.map_some], by simp [Enclosed.behind]⟩

/-- **Where the search has not ended yet,** it goes on with a depth that the tokens passed account for. -/
theorem splitAtClose_passed {depth' : Nat} (hbefore : ∀ k ≤ ts.length, excess name (ts.take k) ≤ depth)
    (hd : (depth' : Int) = depth - excess name ts) (us : List Token) :
    splitAtClose name depth (ts ++ us) = (splitAtClose name depth' us).map (Enclosed.behind ts) := by
  induction ts generalizing depth with
  | nil =>
    obtain rfl : depth' = depth := by
      rw [excess_nil] at hd
      omega
    exact (Option.map_id' ..).symm
  | cons t ts ih =>
    have hone : excess name [t] ≤ depth := hbefore 1 (by simp)
    obtain ⟨depth'', hd'⟩ := exists_depth hone
    have hrest : ∀ k ≤ ts.length, excess name (ts.take k) ≤ depth'' := by
      intro k hk
      have := hbefore (k + 1) (by simpa using hk)
      rw [List.take_succ_cons, excess_cons] at this
      omega
    rw [excess_cons] at hd
    rw [List.cons_append, splitAtClose_cons hd', ih hrest (by omega), Option.map_map]
    rfl

/-- A place among the first tokens of a list is found among them. -/
theorem closesAt_take {n : Nat} : ClosesAt name depth (ts.take n) m ↔ ClosesAt name depth ts m ∧ m < n := by
  have htake : ∀ {k}, k ≤ n → (ts.take n).take k = ts.take k := fun hk => by rw [List.take_take, Nat.min_eq_left hk]
  constructor
  · rintro ⟨hinside, hbefore, hreached⟩
    rw [List.length_take] at hinside
    have hm : m < n := by omega
    rw [htake hm] at hreached
    refine ⟨⟨by omega, fun k hk => ?_, hreached⟩, hm⟩
    have := hbefore k hk
    rwa [htake (by omega)] at this
  · rintro ⟨⟨hinside, hbefore, hreached⟩, hm⟩
    refine ⟨by rw [List.length_take]; omega, fun k hk => ?_, ?_⟩
    · rw [htake (by omega)]
      exact hbefore k hk
    · rwa [htake hm]

/-! ## Places in a list -/

/-- The tokens behind place `i`, through place `j`. -/
def between (ts : List Token) (i j : Nat) : List Token := (ts.drop (i + 1)).take (j - i)

/-- How many tokens behind place `i`, through place `j`, are close tags of a name. -/
def closedIn (name : Text) (ts : List Token) (i j : Nat) : Nat := (between ts i j).countP (closes name)

/-- How many tokens behind place `i`, through place `j`, open an element of a name that has a body. -/
def openedIn (name : Text) (ts : List Token) (i j : Nat) : Nat := (between ts i j).countP (opens name)

/-- Behind place `i` and through place `j`, the close tags of a name outnumber by one the tags that open a body. -/
structure OutnumberedAt (name : Text) (ts : List Token) (i j : Nat) : Prop where
  behind : i < j
  inside : j < ts.length
  count : closedIn name ts i j = openedIn name ts i j + 1

theorem excess_between (name : Text) (ts : List Token) (i j : Nat) :
    excess name (between ts i j) = (closedIn name ts i j : Int) - (openedIn name ts i j : Int) := rfl

theorem drop_behind (ts : List Token) (hij : i ≤ j) : ts.drop (j + 1) = (ts.drop (i + 1)).drop (j - i) := by
  rw [List.drop_drop]
  congr 1
  omega

theorem between_eq_append (hij : i ≤ j) (hjk : j ≤ k) : between ts i k = between ts i j ++ between ts j k := by
  rw [between, between, between, drop_behind ts hij, show k - i = j - i + (k - j) by omega, List.take_add]

theorem between_append_drop (hij : i ≤ j) : between ts i j ++ ts.drop (j + 1) = ts.drop (i + 1) := by
  rw [between, drop_behind ts hij, List.take_append_drop]

theorem between_succ (hij : i ≤ j) (ht : ts[j + 1]? = some t) : between ts i (j + 1) = between ts i j ++ [t] := by
  have hget : (ts.drop (i + 1))[j - i]? = some t := by
    rw [List.getElem?_drop, ← ht]
    congr 1
    omega
  rw [between, between, show j + 1 - i = j - i + 1 by omega, List.take_add_one, hget, Option.toList_some]

theorem take_between (hk : k ≤ j - i) : (between ts i j).take k = between ts i (i + k) := by
  rw [between, between, List.take_take, Nat.min_eq_left hk, Nat.add_sub_cancel_left]

theorem OutnumberedAt.excess_eq (h : OutnumberedAt name ts i j) : excess name (between ts i j) = 1 := by
  have := h.count
  rw [excess_between]
  omega

theorem between_eq_take : between ts i (i + 1 + k) = (ts.drop (i + 1)).take (k + 1) := by
  rw [between, show i + 1 + k - i = k + 1 by omega]

/-- Where the close tags outnumber the others, they did so for the first time there or earlier. -/
theorem OutnumberedAt.exists_closesAt (h : OutnumberedAt name ts i (i + 1 + k)) :
    ∃ m ≤ k, ClosesAt name 0 (ts.drop (i + 1)) m := by
  have hexcess := h.excess_eq
  rw [between_eq_take] at hexcess
  have habove : ((0 : Nat) : Int) < excess name ((ts.drop (i + 1)).take (k + 1)) := by rw [hexcess]; decide
  obtain ⟨m, hm, hcloses⟩ := Markup.exists_closesAt habove
  exact ⟨m, by omega, hcloses⟩

theorem ClosesAt.isLeast (h : ClosesAt name 0 (ts.drop (i + 1)) m) :
    IsLeast {j | OutnumberedAt name ts i j} (i + 1 + m) := by
  have hreached := h.reached
  have hinside := h.inside
  rw [List.length_drop] at hinside
  refine ⟨⟨by omega, by omega, ?_⟩, fun j hj => ?_⟩
  · rw [← between_eq_take, excess_between] at hreached
    omega
  · have hj : OutnumberedAt name ts i j := hj
    obtain ⟨k, rfl⟩ : ∃ k, j = i + 1 + k := ⟨j - (i + 1), by have := hj.behind; omega⟩
    obtain ⟨l, hl, hcloses⟩ := hj.exists_closesAt
    rw [h.unique hcloses]
    omega

/-- **The first place** where there are more close tags is the least one where they are more by one. -/
theorem closesAt_iff_isLeast :
    ClosesAt name 0 (ts.drop (i + 1)) m ↔ IsLeast {j | OutnumberedAt name ts i j} (i + 1 + m) := by
  refine ⟨ClosesAt.isLeast, fun h => ?_⟩
  have hhere : OutnumberedAt name ts i (i + 1 + m) := h.1
  obtain ⟨l, -, hcloses⟩ := hhere.exists_closesAt
  have hsame := h.unique hcloses.isLeast
  obtain rfl : m = l := by omega
  exact hcloses

/-! ## The search on a page -/

section search

variable (ht : ts[i]? = some t) (hopen : t.kind = .openTag)

include ht hopen

theorem matchingClose?_eq : matchingClose? ts i =
    (splitAtClose (openTagName t.text) 0 (ts.drop (i + 1))).map fun e => i + 1 + e.inner.length := by
  obtain ⟨before, rest, rfl, rfl⟩ := exists_eq_append_cons ht
  rw [matchingClose?_append_cons hopen, List.drop_length_add_append, List.drop_succ_cons, List.drop_zero]

theorem matchingClose?_eq_some : matchingClose? ts i = some j ↔
    ∃ m, ClosesAt (openTagName t.text) 0 (ts.drop (i + 1)) m ∧ j = i + 1 + m := by
  rw [matchingClose?_eq ht hopen, Option.map_eq_some_iff]
  constructor
  · rintro ⟨e, he, rfl⟩
    exact ⟨_, splitAtClose_iff.1 ⟨e, he, rfl⟩, rfl⟩
  · rintro ⟨m, hm, rfl⟩
    obtain ⟨e, he, rfl⟩ := splitAtClose_iff.2 hm
    exact ⟨e, he, rfl⟩

/-- The close tag that is searched for is the first one that leaves the element. -/
theorem matchingClose?_iff_isLeast :
    matchingClose? ts i = some j ↔ IsLeast {j | OutnumberedAt (openTagName t.text) ts i j} j := by
  rw [matchingClose?_eq_some ht hopen]
  constructor
  · rintro ⟨m, hm, rfl⟩
    exact hm.isLeast
  · intro h
    have hhere : OutnumberedAt (openTagName t.text) ts i j := h.1
    obtain ⟨m, rfl⟩ : ∃ m, j = i + 1 + m := ⟨j - (i + 1), by have := hhere.behind; omega⟩
    exact ⟨m, closesAt_iff_isLeast.2 h, rfl⟩

/-- There is none where the close tags never outnumber the others. -/
theorem matchingClose?_eq_none :
    matchingClose? ts i = none ↔ ∀ j, ¬ OutnumberedAt (openTagName t.text) ts i j := by
  constructor
  · intro hnone j hj
    obtain ⟨k, rfl⟩ : ∃ k, j = i + 1 + k := ⟨j - (i + 1), by have := hj.behind; omega⟩
    obtain ⟨m, -, hm⟩ := hj.exists_closesAt
    rw [(matchingClose?_eq_some ht hopen).2 ⟨m, hm, rfl⟩] at hnone
    cases hnone
  · intro h
    cases hfound : matchingClose? ts i with
    | none => rfl
    | some j => exact absurd ((matchingClose?_iff_isLeast ht hopen).1 hfound).1 (h j)

/-- **Before the search ends,** no stretch of tokens closes more than it opens. -/
theorem excess_between_le (hk : ∀ j ∈ matchingClose? ts i, k < j) :
    excess (openTagName t.text) (between ts i k) ≤ 0 := by
  refine Int.not_lt.1 fun (habove : ((0 : Nat) : Int) < excess _ ((ts.drop (i + 1)).take (k - i))) => ?_
  obtain ⟨m, hm, hcloses⟩ := Markup.exists_closesAt habove
  have hlt := hk _ ((matchingClose?_eq_some ht hopen).2 ⟨m, hcloses, rfl⟩)
  omega

theorem closes_of_matchingClose? (hj : matchingClose? ts i = some j) :
    ∃ u, ts[j]? = some u ∧ closes (openTagName t.text) u = true := by
  rw [matchingClose?_eq ht hopen, Option.map_eq_some_iff] at hj
  obtain ⟨e, he, rfl⟩ := hj
  refine ⟨e.close, ?_, splitAtClose_close he⟩
  rw [← List.getElem?_drop, splitAtClose_eq he]
  simp

/-- **The depth of the search** in front of its end is what the tokens passed have opened and not closed. -/
theorem splitAtClose_between (hk : ∀ j ∈ matchingClose? ts i, k < j) (hik : i ≤ k) :
    closedIn (openTagName t.text) ts i k ≤ openedIn (openTagName t.text) ts i k ∧
      splitAtClose (openTagName t.text) 0 (ts.drop (i + 1)) =
        (splitAtClose (openTagName t.text) (openedIn (openTagName t.text) ts i k - closedIn (openTagName t.text) ts i k)
          (ts.drop (k + 1))).map (Enclosed.behind (between ts i k)) := by
  have hle := excess_between_le ht hopen hk
  rw [excess_between] at hle
  refine ⟨by omega, ?_⟩
  have hpassed : ∀ l ≤ (between ts i k).length, excess (openTagName t.text) ((between ts i k).take l) ≤ (0 : Nat) := by
    intro l hl
    have hlk : l ≤ k - i := hl.trans (List.length_take_le _ _)
    rw [take_between hlk]
    exact excess_between_le ht hopen fun j hj => by have := hk j hj; omega
  rw [← between_append_drop hik]
  refine splitAtClose_passed hpassed ?_ _
  rw [excess_between]
  omega

/-- **Matches of one name are nested or apart:** an open tag of the name in front of the close tag is closed before. -/
theorem exists_matchingClose?_lt (hj : matchingClose? ts i = some j) {i' : Nat} {t' : Token} (hlt : i < i') (hj' : i' < j)
    (ht' : ts[i']? = some t') (hopens : opens (openTagName t.text) t' = true) :
    ∃ j' < j, matchingClose? ts i' = some j' := by
  obtain ⟨hopen', hsame, -⟩ := opens_iff.1 hopens
  obtain ⟨k, rfl⟩ : ∃ k, i' = k + 1 := ⟨i' - 1, by omega⟩
  -- in front of the inner tag no more is closed than opened, so behind it there are two close tags more
  have hfront : excess (openTagName t.text) (between ts i k) ≤ 0 :=
    excess_between_le ht hopen fun l hl => by
      rw [hj] at hl
      cases hl
      omega
  have hinner : excess (openTagName t.text) [t'] = -1 := by
    rw [excess_singleton, closes_of_openTag hopen', hopens]
    rfl
  have hwhole : excess (openTagName t.text) (between ts i j) = 1 :=
    OutnumberedAt.excess_eq ((matchingClose?_iff_isLeast ht hopen).1 hj).1
  rw [between_eq_append (j := k + 1) (by omega) (by omega), between_succ (by omega) ht', excess_append, excess_append,
    hinner] at hwhole
  have hbehind : 2 ≤ excess (openTagName t'.text) (between ts (k + 1) j) := by
    rw [excess_congr hsame]
    omega
  cases hfound : matchingClose? ts (k + 1) with
  | none =>
    have hle := excess_between_le ht' hopen' (k := j) (by simp [hfound])
    omega
  | some j' =>
    refine ⟨j', Nat.lt_of_not_le fun hle => ?_, rfl⟩
    rcases Nat.eq_or_lt_of_le hle with rfl | hlt'
    · have hone := OutnumberedAt.excess_eq ((matchingClose?_iff_isLeast ht' hopen').1 hfound).1
      omega
    · have hle := excess_between_le ht' hopen' (k := j) (by simpa [hfound] using hlt')
      omega

/-- **In a slice of the list** that holds the open tag, the match is the same token, if the slice holds it. -/
theorem matchingClose?_slice {first last : Nat} (hfirst : first ≤ i) (hlast : i < last) :
    matchingClose? ((ts.take last).drop first) (i - first) =
      ((matchingClose? ts i).filter (· < last)).map (· - first) := by
  have hplace : ((ts.take last).drop first)[i - first]? = some t := by
    rw [List.getElem?_drop, Nat.add_sub_cancel' hfirst, List.getElem?_take_of_lt hlast, ht]
  have hrest : ((ts.take last).drop first).drop (i - first + 1) = (ts.drop (i + 1)).take (last - (i + 1)) := by
    rw [List.drop_drop, List.drop_take]
    congr 2 <;> omega
  refine Option.ext fun j => ?_
  rw [matchingClose?_eq_some hplace hopen, hrest, Option.map_eq_some_iff]
  constructor
  · rintro ⟨m, hm, rfl⟩
    obtain ⟨hm, hlt⟩ := closesAt_take.1 hm
    have hfound := (matchingClose?_eq_some ht hopen).2 ⟨m, hm, rfl⟩
    exact ⟨i + 1 + m, by simp [hfound]; omega, by omega⟩
  · rintro ⟨j, hj, rfl⟩
    obtain ⟨hfound, hlt⟩ := Option.filter_eq_some_iff.1 hj
    obtain ⟨m, hm, rfl⟩ := (matchingClose?_eq_some ht hopen).1 hfound
    have hlt : i + 1 + m < last := by simpa using hlt
    exact ⟨m, closesAt_take.2 ⟨hm, by omega⟩, by omega⟩

end search

/-- **The match of an open tag** in a list of tokens is the first place through which the close tags of its name
outnumber the tags of that name that open a body; there is none if there is no such place. Up to there the search keeps
a depth that is what the tokens passed have opened and not closed, and they never close more. A tag of the name that
opens a body in front of the match is matched before it, and no later one shares it. In any slice of the list that
holds the open tag the match is the same token, or none if the slice does not hold it. -/
theorem matchingClose?_least (ht : ts[i]? = some t) (hopen : t.kind = .openTag) :
    (∀ j, matchingClose? ts i = some j ↔ IsLeast {j | OutnumberedAt (openTagName t.text) ts i j} j) ∧
      (matchingClose? ts i = none ↔ ∀ j, ¬ OutnumberedAt (openTagName t.text) ts i j) ∧
      (∀ k, i ≤ k → (∀ j ∈ matchingClose? ts i, k < j) →
        closedIn (openTagName t.text) ts i k ≤ openedIn (openTagName t.text) ts i k ∧
          splitAtClose (openTagName t.text) 0 (ts.drop (i + 1)) =
            (splitAtClose (openTagName t.text)
              (openedIn (openTagName t.text) ts i k - closedIn (openTagName t.text) ts i k)
              (ts.drop (k + 1))).map (Enclosed.behind (between ts i k))) ∧
      (∀ j ∈ matchingClose? ts i, ∀ i' t', i < i' → ts[i']? = some t' → opens (openTagName t.text) t' = true →
        (j < i' ∨ ∃ j' < j, matchingClose? ts i' = some j') ∧ matchingClose? ts i' ≠ some j) ∧
      (∀ first last, first ≤ i → i < last → matchingClose? ((ts.take last).drop first) (i - first) =
        ((matchingClose? ts i).filter (· < last)).map (· - first)) := by
  refine ⟨fun j => matchingClose?_iff_isLeast ht hopen, matchingClose?_eq_none ht hopen,
    fun k hik hk => splitAtClose_between ht hopen hk hik, fun j hj i' t' hlt ht' hopens => ?_,
    fun first last hfirst hlast => matchingClose?_slice ht hopen hfirst hlast⟩
  have hopen' : t'.kind = .openTag := (opens_iff.1 hopens).1
  have hne : i' ≠ j := by
    rintro rfl
    obtain ⟨u, hu, hcloses⟩ := closes_of_matchingClose? ht hopen hj
    obtain rfl : t' = u := Option.some.inj (ht'.symm.trans hu)
    rw [closes_of_openTag hopen'] at hcloses
    cases hcloses
  by_cases hij : i' < j
  · obtain ⟨j', hj', hfound⟩ := exists_matchingClose?_lt ht hopen hj hlt hij ht' hopens
    refine ⟨.inr ⟨j', hj', hfound⟩, ?_⟩
    rw [hfound, ne_eq, Option.some.injEq]
    omega
  · refine ⟨.inl (by omega), fun hfound => ?_⟩
    have hbehind := OutnumberedAt.behind ((matchingClose?_iff_isLeast ht' hopen').1 hfound).1
    omega

/-- Elements of one name inside each other, with tags of it that open nothing, one of them in other letters. -/
def nestedItems : List Token :=
  [⟨.openTag, "<li>"⟩, ⟨.openTag, "<LI/>"⟩, ⟨.openTag, "<b>"⟩, ⟨.openTag, "<Li a>"⟩, ⟨.text, "x"⟩, ⟨.closeTag, "</li >"⟩,
    ⟨.closeTag, "</i>"⟩, ⟨.closeTag, "</lI>"⟩, ⟨.closeTag, "</li>"⟩]

theorem matchingClose?_least_nestedItems :
    nestedItems[0]? = some ⟨.openTag, "<li>"⟩ ∧ IsLeast {j | OutnumberedAt "li" nestedItems 0 j} 7 ∧
      (∃ j' < 7, matchingClose? nestedItems 3 = some j') ∧
      matchingClose? ((nestedItems.take 7).drop 0) (0 - 0) = none := by
  have hplace : nestedItems[0]? = some ⟨.openTag, "<li>"⟩ := rfl
  have hfound : matchingClose? nestedItems 0 = some 7 := by decide +kernel
  obtain ⟨hleast, -, -, hnested, hslice⟩ := matchingClose?_least hplace rfl
  refine ⟨hplace, (hleast 7).1 hfound, ?_, ?_⟩
  · exact (hnested 7 hfound 3 ⟨.openTag, "<Li a>"⟩ (by decide) rfl (by decide +kernel)).1.resolve_left (by decide)
  · rw [hslice 0 7 (by decide) (by decide), hfound]
    rfl

end Markup

end MarkupLens
