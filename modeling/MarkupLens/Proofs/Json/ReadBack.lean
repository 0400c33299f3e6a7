/-
JSON that was written is read back. A value without numbers, the members of
whose objects ascend, is what its text is read into, compact or laid out, with
space around it or not, as long as its containers nest no deeper than the
reader allows (`read?_write`).

The reader is followed lexeme by lexeme. Over the text of a value it goes from
where a value may start to where one is complete, whatever is open around it
(`run_value`). In an array or object it opens the container and reads the first
item or member (`run_array`, `run_object`), and from behind each of them it goes
on to behind the closing bracket (`run_items`, `run_members`).
-/
import MarkupLens.Json.Printer
import MarkupLens.Json.Reader
import MarkupLens.Proofs.Text.Basic

namespace MarkupLens

namespace Keyed

variable {α : Type}

/-- A key behind all others is put in at the end. -/
theorem insert_eq_append {entries : Keyed α} {key : Text} (h : ∀ k ∈ keys entries, k < key) (value : α) :
    insert key value entries = entries ++ [(key, value)] := by
  induction entries with
  | nil => rfl
  | cons e rest ih =>
    obtain ⟨k, v⟩ := e
    simp only [keys, List.map_cons, List.forall_mem_cons] at h
    have hlt : ¬ key < k := fun hk => List.lt_irrefl k (List.lt_trans h.1 hk)
    have hne : key ≠ k := by
      rintro rfl
      exact List.lt_irrefl _ h.1
    rw [insert, if_neg hlt, if_neg hne, ih h.2, List.cons_append]

end Keyed

namespace Json

/-! ## Strings -/

/-- The digits of a control character are read back. -/
theorem hexFour?_hexPair : ∀ n < 0x20, hexFour? '0' '0' (Nat.digitChar (n / 16 % 16)) (Nat.digitChar (n % 16)) = some n := by
  decide

/-- The letter of an escape is read as what it stands for. -/
theorem stringBody?_letter {letter c : Char} (h : letterEscape? letter = some c) (s : Text) :
    stringBody? ('\\' :: letter :: s) = (stringBody? s).map fun p => (c :: p.1, p.2) := by
  have hu : letter ≠ 'u' := by
    rintro rfl
    cases h
  rw [stringBody?]
  · rw [h]
  · exact fun _ _ _ _ _ hl _ => hu hl

/-- **An escaped character** is read back, whatever follows. -/
theorem stringBody?_escapedChar (c : Char) (s : Text) :
    stringBody? (escapedChar c ++ s) = (stringBody? s).map fun p => (c :: p.1, p.2) := by
  unfold escapedChar
  -- first the characters that have a letter of their own
  iterate 7
    split
    · subst_vars
      exact stringBody?_letter rfl s
  split
  · rename_i hcontrol
    have hhigh : isHighHalf c.toNat = false := by simp [isHighHalf]; omega
    have hlow : isLowHalf c.toNat = false := by simp [isLowHalf]; omega
    have htext : "\\u00" ++ hexPair c.toNat ++ s =
        '\\' :: 'u' :: '0' :: '0' :: Nat.digitChar (c.toNat / 16 % 16) :: Nat.digitChar (c.toNat % 16) :: s := by
      simp [hexPair]
    rw [htext, stringBody?, hexFour?_hexPair _ hcontrol]
    simp [hhigh, hlow, Char.ofNat_toNat]
  · rename_i hquote hslash _ _ _ _ _ hcontrol
    have hplain : ¬ (c = '\\' ∨ c.toNat < 0x20) := by simp only [hslash, hcontrol, or_self, not_false_eq_true]
    rw [List.singleton_append, stringBody?]
    · rw [if_neg hplain]
    all_goals simp_all

theorem stringBody?_escaped (s rest : Text) : stringBody? (s.flatMap escapedChar ++ '"' :: rest) = some (s, rest) := by
  induction s with
  | nil => simp [stringBody?]
  | cons c s ih => rw [List.flatMap_cons, List.append_assoc, stringBody?_escapedChar, ih, Option.map_some]

/-! ## Lexemes -/

variable {limit : Option Nat} {state : State} {stack : List Frame}

theorem run_nil : run limit state [] = some state := by rw [run]

/-- A lexeme does its step. -/
theorem run_lexeme {c : Char} {s rest : Text} {l : Lexeme} (hc : isSpace c = false) (hl : lexeme? c s = some (l, rest)) :
    run limit state (c :: s) = (step limit state l).bind fun state => run limit state rest := by
  rw [run, if_neg (by simp [hc])]
  split
  · rename_i hnone
    rw [hl] at hnone
    cases hnone
  · rename_i l' rest' hsome
    rw [hl, Option.some.injEq, Prod.mk.injEq] at hsome
    obtain ⟨rfl, rfl⟩ := hsome
    cases step limit state l <;> rfl

theorem run_spaces {space : Text} (h : ∀ c ∈ space, isSpace c = true) (s : Text) :
    run limit state (space ++ s) = run limit state s := by
  induction space with
  | nil => rfl
  | cons c space ih =>
    rw [List.forall_mem_cons] at h
    rw [List.cons_append, run, if_pos h.1, ih h.2]

theorem run_string (s rest : Text) : run limit state (writeString s ++ rest) =
    (step limit state (.string s)).bind fun state => run limit state rest := by
  have hl : lexeme? '"' (s.flatMap escapedChar ++ '"' :: rest) = some (.string s, rest) := by
    simp [lexeme?, stringBody?_escaped]
  have htext : writeString s ++ rest = '"' :: (s.flatMap escapedChar ++ '"' :: rest) := by simp [writeString]
  rw [htext, run_lexeme rfl hl]

theorem run_comma (s : Text) : run limit state (',' :: s) = (step limit state .comma).bind fun state => run limit state s :=
  run_lexeme rfl rfl

theorem run_colon (s : Text) : run limit state (':' :: s) = (step limit state .colon).bind fun state => run limit state s :=
  run_lexeme rfl rfl

theorem run_closeBracket (s : Text) :
    run limit state (']' :: s) = (step limit state .closeBracket).bind fun state => run limit state s :=
  run_lexeme rfl rfl

theorem run_closeBrace (s : Text) :
    run limit state ('\x7d' :: s) = (step limit state .closeBrace).bind fun state => run limit state s :=
  run_lexeme rfl rfl

/-! ## Values that are read back -/

mutual

/-- How deep the containers of a value nest. -/
def depth : Json → Nat
  | .null | .bool _ | .number _ | .string _ => 0
  | .array items => depthItems items + 1
  | .object members => depthMembers members + 1

def depthItems : List Json → Nat
  | [] => 0
  | item :: items => max item.depth (depthItems items)

def depthMembers : List (Text × Json) → Nat
  | [] => 0
  | (_, value) :: members => max value.depth (depthMembers members)

end

mutual

/-- The value has no numbers, and the members of its objects ascend. -/
def Regular : Json → Prop
  | .null | .bool _ | .string _ => True
  | .number _ => False
  | .array items => RegularItems items
  | .object members => Keyed.Sorted members ∧ RegularMembers members

def RegularItems : List Json → Prop
  | [] => True
  | item :: items => item.Regular ∧ RegularItems items

def RegularMembers : List (Text × Json) → Prop
  | [] => True
  | (_, value) :: members => value.Regular ∧ RegularMembers members

end

/-- A layout puts nothing but space between the parts of a value. -/
structure Layout.Spaced (layout : Layout) : Prop where
  line : ∀ depth, ∀ c ∈ layout.line depth, isSpace c = true
  afterColon : ∀ c ∈ layout.afterColon, isSpace c = true

theorem Layout.spaced_compact : Layout.compact.Spaced := ⟨by simp [compact], by simp [compact]⟩

theorem Layout.spaced_pretty : Layout.pretty.Spaced := by
  refine ⟨fun depth c hc => ?_, by simp [pretty, isSpace]⟩
  simp only [pretty, List.mem_cons, List.mem_replicate] at hc
  rcases hc with rfl | ⟨-, rfl⟩ <;> rfl

/-- The reader is where a value may start. -/
def Awaiting.Starts (a : Awaiting) : Prop := a = .value ∨ a = .valueOrEnd

theorem step_atom {a : Awaiting} (ha : a.Starts) (v : Json) :
    step limit ⟨stack, a⟩ (.atom v) = some ⟨stack, .next v⟩ := by rcases ha with rfl | rfl <;> rfl

theorem step_string {a : Awaiting} (ha : a.Starts) (s : Text) :
    step limit ⟨stack, a⟩ (.string s) = some ⟨stack, .next (.string s)⟩ := by rcases ha with rfl | rfl <;> rfl

/-- So many containers may be open in each other. -/
def Allows (limit : Option Nat) (depth : Nat) : Prop := ∀ n ∈ limit, depth ≤ n

theorem Allows.mono {n m : Nat} (h : Allows limit m) (hn : n ≤ m) : Allows limit n :=
  fun k hk => Nat.le_trans hn (h k hk)

/-- Room for all that a container holds is room for the first part, in its frame, and for the others. -/
theorem Allows.parts {first others : Nat} (h : Allows limit (stack.length + 1 + max first others)) (frame : Frame) :
    Allows limit ((frame :: stack).length + first) ∧ Allows limit (stack.length + 1 + others) :=
  ⟨h.mono (by rw [List.length_cons]; omega), h.mono (by omega)⟩

/-- A container is opened where the limit leaves room for it. -/
theorem step_open {a : Awaiting} (ha : a.Starts) (hroom : Allows limit (stack.length + 1)) :
    step limit ⟨stack, a⟩ .openBracket = some ⟨.array [] :: stack, .valueOrEnd⟩ ∧
      step limit ⟨stack, a⟩ .openBrace = some ⟨stack, .keyOrEnd⟩ := by
  have hdeep : limit.any (· ≤ stack.length) = false := by
    cases limit with
    | none => rfl
    | some n =>
      have := hroom n rfl
      simp only [Option.any_some, decide_eq_false_iff_not]
      omega
  rcases ha with rfl | rfl <;> simp [step, beginValue, hdeep]

theorem run_atom {a : Awaiting} (ha : a.Starts) {c : Char} {s rest : Text} {v : Json} (hc : isSpace c = false)
    (hl : lexeme? c s = some (.atom v, rest)) :
    run limit ⟨stack, a⟩ (c :: s) = run limit ⟨stack, .next v⟩ rest := by
  rw [run_lexeme hc hl, step_atom ha, Option.bind_some]

theorem run_openBracket {a : Awaiting} (ha : a.Starts) (hroom : Allows limit (stack.length + 1)) (s : Text) :
    run limit ⟨stack, a⟩ ('[' :: s) = run limit ⟨.array [] :: stack, .valueOrEnd⟩ s := by
  have hlexeme : lexeme? '[' s = some (.openBracket, s) := rfl
  rw [run_lexeme rfl hlexeme, (step_open ha hroom).1, Option.bind_some]

theorem run_openBrace {a : Awaiting} (ha : a.Starts) (hroom : Allows limit (stack.length + 1)) (s : Text) :
    run limit ⟨stack, a⟩ ('\x7b' :: s) = run limit ⟨stack, .keyOrEnd⟩ s := by
  have hlexeme : lexeme? '\x7b' s = some (.openBrace, s) := rfl
  rw [run_lexeme rfl hlexeme, (step_open ha hroom).2, Option.bind_some]

/-- A member behind those that are there: its key, the colon, and what is read from there. -/
theorem run_key {a : Awaiting} {members : Keyed Json} (ha : a = .key members ∨ (a = .keyOrEnd ∧ members = []))
    {layout : Layout} (hl : layout.Spaced) (key s : Text) :
    run limit ⟨stack, a⟩ (writeString key ++ ':' :: (layout.afterColon ++ s)) =
      run limit ⟨.object members key :: stack, .value⟩ s := by
  have hkey : step limit ⟨stack, a⟩ (.string key) = some ⟨stack, .colon members key⟩ := by
    rcases ha with rfl | ⟨rfl, rfl⟩ <;> rfl
  have hcolon : step limit ⟨stack, .colon members key⟩ .colon = some ⟨.object members key :: stack, .value⟩ := rfl
  rw [run_string, hkey, Option.bind_some, run_colon, hcolon, Option.bind_some, run_spaces hl.afterColon]

section

variable {layout : Layout}

mutual

/-- **The text of a value** takes the reader from where a value may start to where it is complete. -/
theorem run_value (hl : layout.Spaced) (v : Json) (hv : v.Regular) {stack : List Frame} {a : Awaiting} (ha : a.Starts)
    (hdepth : Allows limit (stack.length + v.depth)) (depth : Nat) (rest : Text) :
    run limit ⟨stack, a⟩ (writeAt layout depth v ++ rest) = run limit ⟨stack, .next v⟩ rest := by
  match v with
  | .null =>
    have hlexeme : lexeme? 'n' ("ull" ++ rest) = some (.atom .null, rest) := by simp [lexeme?, word?, Text.after?]
    rw [writeAt]
    exact run_atom ha rfl hlexeme
  | .bool true =>
    have hlexeme : lexeme? 't' ("rue" ++ rest) = some (.atom (.bool true), rest) := by
      simp [lexeme?, word?, Text.after?]
    rw [writeAt]
    exact run_atom ha rfl hlexeme
  | .bool false =>
    have hlexeme : lexeme? 'f' ("alse" ++ rest) = some (.atom (.bool false), rest) := by
      simp [lexeme?, word?, Text.after?]
    rw [writeAt]
    exact run_atom ha rfl hlexeme
  | .string s => rw [writeAt, run_string, step_string ha, Option.bind_some]
  | .array items =>
    rw [Json.Regular] at hv
    rw [Json.depth] at hdepth
    exact run_array hl items hv ha (hdepth.mono (by omega)) depth rest
  | .object members =>
    rw [Json.Regular] at hv
    rw [Json.depth] at hdepth
    exact run_object hl members hv.1 hv.2 ha (hdepth.mono (by omega)) depth rest

/-- An array is opened, and its first item read in it. -/
theorem run_array (hl : layout.Spaced) (items : List Json) (hitems : RegularItems items) {stack : List Frame}
    {a : Awaiting} (ha : a.Starts) (hdepth : Allows limit (stack.length + 1 + depthItems items)) (depth : Nat)
    (rest : Text) : run limit ⟨stack, a⟩ (writeAt layout depth (.array items) ++ rest) =
      run limit ⟨stack, .next (.array items)⟩ rest := by
  have hroom : Allows limit (stack.length + 1) := hdepth.mono (by omega)
  match items with
  | [] =>
    rw [writeAt]
    show run limit ⟨stack, a⟩ ('[' :: ']' :: rest) = _
    rw [run_openBracket ha hroom, run_closeBracket]
    rfl
  | item :: items =>
    rw [RegularItems] at hitems
    rw [depthItems] at hdepth
    obtain ⟨hitem, hmore⟩ := hdepth.parts (.array [])
    have htext : writeAt layout depth (.array (item :: items)) ++ rest =
        '[' :: (layout.line (depth + 1) ++ (writeAt layout (depth + 1) item ++
          (writeItems layout (depth + 1) items ++ (layout.line depth ++ ']' :: rest)))) := by
      rw [writeAt]
      simp
    rw [htext, run_openBracket ha hroom, run_spaces (hl.line _), run_value hl item hitems.1 (.inr rfl) hitem,
      run_items hl items hitems.2 hmore [] item _ (hl.line _)]
    rfl

/-- An object is opened, and its first member read in it. -/
theorem run_object (hl : layout.Spaced) (members : List (Text × Json)) (hsorted : Keyed.Sorted members)
    (hmembers : RegularMembers members) {stack : List Frame} {a : Awaiting} (ha : a.Starts)
    (hdepth : Allows limit (stack.length + 1 + depthMembers members)) (depth : Nat) (rest : Text) :
    run limit ⟨stack, a⟩ (writeAt layout depth (.object members) ++ rest) =
      run limit ⟨stack, .next (.object members)⟩ rest := by
  have hroom : Allows limit (stack.length + 1) := hdepth.mono (by omega)
  match members with
  | [] =>
    rw [writeAt]
    show run limit ⟨stack, a⟩ ('\x7b' :: '\x7d' :: rest) = _
    rw [run_openBrace ha hroom, run_closeBrace]
    rfl
  | (key, value) :: members =>
    rw [RegularMembers] at hmembers
    rw [depthMembers] at hdepth
    obtain ⟨hvalue, hmore⟩ := hdepth.parts (.object [] key)
    have htext : writeAt layout depth (.object ((key, value) :: members)) ++ rest =
        '\x7b' :: (layout.line (depth + 1) ++ (writeString key ++ ':' :: (layout.afterColon ++
          (writeAt layout (depth + 1) value ++
            (writeMembers layout (depth + 1) members ++ (layout.line depth ++ '\x7d' :: rest)))))) := by
      rw [writeAt]
      simp
    rw [htext, run_openBrace ha hroom, run_spaces (hl.line _), run_key (.inr ⟨rfl, rfl⟩) hl,
      run_value hl value hmembers.1 (.inl rfl) hvalue, run_members hl members hmembers.2 hmore hsorted _ (hl.line _)]
    rfl

/-- The items behind the first one, and the closing bracket. -/
theorem run_items (hl : layout.Spaced) (items : List Json) (hitems : RegularItems items) {stack : List Frame}
    (hdepth : Allows limit (stack.length + 1 + depthItems items)) (before : List Json) (v : Json) (depth : Nat)
    {space : Text} (hspace : ∀ c ∈ space, isSpace c = true) (rest : Text) :
    run limit ⟨.array before :: stack, .next v⟩ (writeItems layout depth items ++ (space ++ ']' :: rest)) =
      run limit ⟨stack, .next (.array (before ++ v :: items))⟩ rest := by
  match items with
  | [] =>
    rw [writeItems, List.nil_append, run_spaces hspace, run_closeBracket]
    rfl
  | item :: items =>
    rw [RegularItems] at hitems
    rw [depthItems] at hdepth
    obtain ⟨hitem, hmore⟩ := hdepth.parts (.array (before ++ [v]))
    have hcomma : step limit ⟨.array before :: stack, .next v⟩ .comma =
        some ⟨.array (before ++ [v]) :: stack, .value⟩ := rfl
    have htext : writeItems layout depth (item :: items) ++ (space ++ ']' :: rest) =
        ',' :: (layout.line depth ++ (writeAt layout depth item ++
          (writeItems layout depth items ++ (space ++ ']' :: rest)))) := by
      rw [writeItems]
      simp
    rw [htext, run_comma, hcomma, Option.bind_some, run_spaces (hl.line _), run_value hl item hitems.1 (.inl rfl) hitem,
      run_items hl items hitems.2 hmore _ item _ hspace, List.append_assoc, List.singleton_append]

/-- The members behind the first one, and the closing brace. -/
theorem run_members (hl : layout.Spaced) (members : List (Text × Json)) (hmembers : RegularMembers members)
    {stack : List Frame} (hdepth : Allows limit (stack.length + 1 + depthMembers members)) {before : Keyed Json}
    {key : Text} {v : Json} (hsorted : Keyed.Sorted (before ++ (key, v) :: members)) (depth : Nat) {space : Text}
    (hspace : ∀ c ∈ space, isSpace c = true) (rest : Text) :
    run limit ⟨.object before key :: stack, .next v⟩ (writeMembers layout depth members ++ (space ++ '\x7d' :: rest)) =
      run limit ⟨stack, .next (.object (before ++ (key, v) :: members))⟩ rest := by
  have hinsert : before.insert key v = before ++ [(key, v)] := by
    refine Keyed.insert_eq_append (fun k hk => ?_) v
    rw [Keyed.Sorted, Keyed.keys, List.map_append, List.pairwise_append] at hsorted
    exact hsorted.2.2 k hk key (by simp)
  match members with
  | [] =>
    have hclose : step limit ⟨.object before key :: stack, .next v⟩ .closeBrace =
        some ⟨stack, .next (.object (before.insert key v))⟩ := rfl
    rw [writeMembers, List.nil_append, run_spaces hspace, run_closeBrace, hclose, hinsert, Option.bind_some]
  | (key', value) :: members =>
    rw [RegularMembers] at hmembers
    rw [depthMembers] at hdepth
    obtain ⟨hvalue, hmore⟩ := hdepth.parts (.object (before ++ [(key, v)]) key')
    have hcomma : step limit ⟨.object before key :: stack, .next v⟩ .comma =
        some ⟨stack, .key (before.insert key v)⟩ := rfl
    have htext : writeMembers layout depth ((key', value) :: members) ++ (space ++ '\x7d' :: rest) =
        ',' :: (layout.line depth ++ (writeString key' ++ ':' :: (layout.afterColon ++ (writeAt layout depth value ++
          (writeMembers layout depth members ++ (space ++ '\x7d' :: rest)))))) := by
      rw [writeMembers]
      simp
    have hsorted' : Keyed.Sorted ((before ++ [(key, v)]) ++ (key', value) :: members) := by
      rwa [List.append_assoc, List.singleton_append]
    rw [htext, run_comma, hcomma, Option.bind_some, hinsert, run_spaces (hl.line _), run_key (.inl rfl) hl,
      run_value hl value hmembers.1 (.inl rfl) hvalue, run_members hl members hmembers.2 hmore hsorted' _ hspace,
      List.append_assoc, List.singleton_append]

end

end

/-- **What was written is read back,** with space behind it if there is any. -/
theorem read?_write (pretty : Bool) {v : Json} (hv : v.Regular) {limit : Option Nat} (hdepth : Allows limit v.depth)
    {space : Text} (hspace : ∀ c ∈ space, isSpace c = true) : read? limit (v.write pretty ++ space) = some v := by
  have hl : Layout.Spaced (if pretty then .pretty else .compact) := by
    cases pretty with
    | true => exact Layout.spaced_pretty
    | false => exact Layout.spaced_compact
  have hroom : Allows limit (([] : List Frame).length + v.depth) := hdepth.mono (by simp)
  have hend : run limit ⟨[], .next v⟩ (space ++ []) = run limit ⟨[], .next v⟩ [] := run_spaces hspace []
  rw [List.append_nil, run_nil] at hend
  rw [read?, write, State.start, run_value hl v hv (.inl rfl) hroom, hend]
  rfl

end Json

end MarkupLens
