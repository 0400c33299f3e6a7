/-
Host data that is a context and host data that is none. The places of host
data at which a demand is made on it stand in one list, in the order in which
they are met (`Json.points`), and each has its own demand (`Point.offence?`).
Host data stands for a context exactly if no demand fails, and the error is
otherwise the first that does (`ofJson_first_offence`); that all demands are
met can be told without the order (`Json.Fits`).

The proof runs along the conversion: each function of it reports on its own
places (`Reports`), and a report on two stretches of them is the report on the
first and then on the second (`Reports.bind`).
-/
import MarkupLens.Context.OfJson
import MarkupLens.Proofs.Context.HostData
import MarkupLens.Proofs.Yaml.Ordered

namespace MarkupLens

/-- **The members of host data that is read** ascend, in whatever form it is written. -/
theorem ContextFormat.ordered_read? {format : ContextFormat} {s : Text} {v : Json} (h : format.read? s = some v) :
    v.Ordered := by
  cases format with
  | json => exact Json.ordered_read? h
  | yaml => exact Yaml.ordered_read? h

namespace Json

/-- Whether the value is an object. -/
def isObject : Json → Bool
  | .object _ => true
  | _ => false

/-- What a context asks of each value in host data: the keys of an object are words, and the items of an array are
objects. -/
def Fits : Json → Prop
  | .object members => ∀ m ∈ members, Text.isWord m.1 = true
  | .array items => ∀ item ∈ items, item.isObject = true
  | _ => True

instance : DecidablePred Fits
  | .object members => inferInstanceAs (Decidable (∀ m ∈ members, Text.isWord m.1 = true))
  | .array items => inferInstanceAs (Decidable (∀ item ∈ items, item.isObject = true))
  | .null | .bool _ | .number _ | .string _ => inferInstanceAs (Decidable True)

/-! ## The places at which a demand is made -/

/-- A place of host data at which a demand is made on it. -/
inductive Point where
  /-- the whole -/
  | whole (value : Json)
  /-- the key of a member -/
  | key (key : Text)
  /-- an item of the list at `key` -/
  | item (key : Text) (index : Nat) (value : Json)

/-- What is wrong at a place. -/
def Point.offence? : Point → Option ContextError
  | .whole value => if value.isObject then none else some (.notAnObject value.kind)
  | .key k => if Text.isWord k then none else some (.invalidKey k)
  | .item k index value => if value.isObject then none else some (.itemNotAnObject k index value.kind)

mutual

/-- The places in the value at a key. -/
def pointsAt (key : Text) : Json → List Point
  | .array items => pointsOfItems key 0 items
  | .object members => pointsOfMembers members
  | .null | .bool _ | .number _ | .string _ => []

/-- The places in the list at a key, from an index on: each item stands in front of the places in it. -/
def pointsOfItems (key : Text) (index : Nat) : List Json → List Point
  | [] => []
  | item :: items => .item key index item :: (pointsAt key item ++ pointsOfItems key (index + 1) items)

/-- The places in members: each key stands in front of the places in its value. -/
def pointsOfMembers : List (Text × Json) → List Point
  | [] => []
  | (key, value) :: members => .key key :: (pointsAt key value ++ pointsOfMembers members)

end

/-- The places in host data, in the order in which they are met. -/
def points : Json → List Point
  | .object members => .whole (.object members) :: pointsOfMembers members
  | other => [.whole other]

/-- The first offence in some places. -/
def firstOffence? (ps : List Point) : Option ContextError := ps.findSome? Point.offence?

/-! ## What is kept -/

mutual

/-- What is kept of a value: of `null` nothing, of a number its text, and everything of the rest. -/
def kept? : Json → Option Json
  | .null => none
  | .bool on => some (.bool on)
  | .number n => some (.string n.text)
  | .string s => some (.string s)
  | .array items => some (.array (keptItems items))
  | .object members => some (.object (keptMembers members))

def keptItems : List Json → List Json
  | [] => []
  | item :: items => item.kept?.toList ++ keptItems items

def keptMembers : List (Text × Json) → List (Text × Json)
  | [] => []
  | (key, value) :: members => (value.kept?.map fun w => (key, w)).toList ++ keptMembers members

end

end Json

namespace Context

open Json (Point firstOffence?)

/-- A conversion reports on some places: it fails with the first offence in them, and where there is none it gives
what `shows` as `shown`. -/
inductive Reports {α β : Type} (shows : α → β) (ps : List Point) (shown : β) : Except ContextError α → Prop where
  | offence {e : ContextError} (first : firstOffence? ps = some e) : Reports shows ps shown (.error e)
  | value {a : α} (clear : firstOffence? ps = none) (shown_eq : shows a = shown) : Reports shows ps shown (.ok a)

section

variable {α β γ δ : Type} {shows : α → β} {shows' : γ → δ} {ps qs : List Point} {p : Point} {shown : β} {shown' : δ}
  {x : Except ContextError α} {f : α → Except ContextError γ} {e : ContextError}

/-- **Two stretches of places** are reported on one after the other. -/
theorem Reports.bind (h : Reports shows ps shown x) (hf : ∀ a, shows a = shown → Reports shows' qs shown' (f a)) :
    Reports shows' (ps ++ qs) shown' (x >>= f) := by
  cases h with
  | offence first =>
    -- what comes behind the first offence is not looked at
    refine .offence ?_
    rw [firstOffence?, List.findSome?_append, ← firstOffence?, first]
    rfl
  | @value a clear shown_eq =>
    have hqs : firstOffence? (ps ++ qs) = firstOffence? qs := by
      rw [firstOffence?, List.findSome?_append, ← firstOffence?, clear]
      rfl
    show Reports shows' (ps ++ qs) shown' (f a)
    have hrest := hf a shown_eq
    generalize f a = y at hrest ⊢
    cases hrest with
    | offence first => exact .offence (hqs.trans first)
    | value clear' shown_eq' => exact .value (hqs.trans clear') shown_eq'

theorem Reports.map {g : α → γ} (h : Reports shows ps shown x) (hg : ∀ a, shows a = shown → shows' (g a) = shown') :
    Reports shows' ps shown' (x >>= fun a => pure (g a)) := by
  rw [← List.append_nil ps]
  exact h.bind fun a ha => .value rfl (hg a ha)

/-- A place where nothing is wrong changes no report. -/
theorem Reports.behind (hp : p.offence? = none) (h : Reports shows ps shown x) : Reports shows (p :: ps) shown x := by
  have hps : firstOffence? (p :: ps) = firstOffence? ps := by
    rw [firstOffence?, List.findSome?_cons_of_isNone (by rw [hp]; rfl)]
    rfl
  cases h with
  | offence first => exact .offence (hps.trans first)
  | value clear shown_eq => exact .value (hps.trans clear) shown_eq

theorem Reports.at_first (hp : p.offence? = some e) : Reports shows (p :: ps) shown (.error e) :=
  .offence (List.findSome?_cons_of_isSome (by rw [hp]; rfl) |>.trans hp)

theorem Reports.ok_iff (h : Reports shows ps shown x) : (∃ a, x = .ok a) ↔ firstOffence? ps = none := by
  cases h with
  | offence first => simp [first]
  | value clear _ => simp [clear]

theorem Reports.error_iff (h : Reports shows ps shown x) : x = .error e ↔ firstOffence? ps = some e := by
  cases h with
  | offence first => simp [first]
  | value clear _ => simp [clear]

end

mutual

theorem reports_value (key : Text) (v : Json) :
    Reports (Option.map valueToJson) (v.pointsAt key) v.kept? (valueOfJson key v) := by
  match v with
  | .null | .bool _ | .number _ | .string _ => exact .value rfl rfl
  | .array items =>
    rw [valueOfJson, Json.pointsAt, Json.kept?]
    exact (reports_items key 0 items).map fun cs hcs => by rw [← hcs]; rfl
  | .object members =>
    rw [valueOfJson, Json.pointsAt, Json.kept?]
    exact (reports_members members).map fun es hes => by rw [← hes]; rfl

theorem reports_items (key : Text) (index : Nat) (items : List Json) :
    Reports itemsToJson (Json.pointsOfItems key index items) (Json.keptItems items) (itemsOfJson key index items) := by
  match items with
  | [] => exact .value rfl rfl
  | .object members :: items =>
    rw [itemsOfJson, Json.pointsOfItems, Json.keptItems]
    refine .behind rfl ((reports_members members).bind fun es hes => ?_)
    refine (reports_items key (index + 1) items).map fun cs hcs => ?_
    rw [Json.kept?, ← hes, ← hcs]
    rfl
  | .null :: _ | .bool _ :: _ | .number _ :: _ | .string _ :: _ | .array _ :: _ =>
    -- an array in an array is no record: it is refused where it stands, and nothing in it is met
    exact .at_first rfl

theorem reports_members (members : List (Text × Json)) :
    Reports entriesToJson (Json.pointsOfMembers members) (Json.keptMembers members) (entriesOfJson members) := by
  match members with
  | [] => exact .value rfl rfl
  | (key, value) :: members =>
    rw [entriesOfJson, Json.pointsOfMembers, Json.keptMembers]
    by_cases hkey : Text.isWord key = true
    · -- a key is asked for before its value, also where the value is `null` and binds nothing
      rw [if_pos hkey]
      refine .behind (if_pos hkey) ((reports_value key value).bind fun bound hbound => ?_)
      refine (reports_members members).map fun es hes => ?_
      rw [← hbound, ← hes]
      cases bound <;> rfl
    · rw [if_neg hkey]
      exact .at_first (if_neg hkey)

end

theorem reports_ofJson (v : Json) : Reports (fun c => some (toJson c)) v.points v.kept? (ofJson v) := by
  match v with
  | .object members =>
    rw [ofJson, Json.points, Json.kept?]
    exact .behind rfl ((reports_members members).map fun es hes => by rw [← hes]; rfl)
  | .null | .bool _ | .number _ | .string _ | .array _ => exact .at_first rfl

/-! ## All demands are met exactly if every value fits -/

mutual

theorem pointsAt_clear (key : Text) (v : Json) :
    (∀ p ∈ v.pointsAt key, p.offence? = none) ↔ ∀ part ∈ v.parts, part.Fits := by
  match v with
  | .null | .bool _ | .number _ | .string _ =>
    rw [Json.pointsAt, Json.parts, List.forall_mem_singleton]
    exact iff_of_true (List.forall_mem_nil _) trivial
  | .array items =>
    rw [Json.pointsAt, Json.parts, List.forall_mem_cons]
    exact pointsOfItems_clear key 0 items
  | .object members =>
    rw [Json.pointsAt, Json.parts, List.forall_mem_cons]
    exact pointsOfMembers_clear members

theorem pointsOfItems_clear (key : Text) (index : Nat) (items : List Json) :
    (∀ p ∈ Json.pointsOfItems key index items, p.offence? = none) ↔
      (∀ item ∈ items, item.isObject = true) ∧ ∀ part ∈ Json.partsOfItems items, part.Fits := by
  match items with
  | [] => simp [Json.pointsOfItems, Json.partsOfItems]
  | item :: items =>
    have hitem : (Point.item key index item).offence? = none ↔ item.isObject = true := by
      simp [Point.offence?]
    have hvalue := pointsAt_clear key item
    have hrest := pointsOfItems_clear key (index + 1) items
    simp only [Json.pointsOfItems, Json.partsOfItems, List.forall_mem_cons, List.forall_mem_append, hitem, hvalue,
      hrest]
    exact and_assoc.symm.trans and_and_and_comm

theorem pointsOfMembers_clear (members : List (Text × Json)) :
    (∀ p ∈ Json.pointsOfMembers members, p.offence? = none) ↔
      (∀ m ∈ members, Text.isWord m.1 = true) ∧ ∀ part ∈ Json.partsOfMembers members, part.Fits := by
  match members with
  | [] => simp [Json.pointsOfMembers, Json.partsOfMembers]
  | (key, value) :: members =>
    have hkey : (Point.key key).offence? = none ↔ Text.isWord key = true := by
      simp [Point.offence?]
    have hvalue := pointsAt_clear key value
    have hrest := pointsOfMembers_clear members
    simp only [Json.pointsOfMembers, Json.partsOfMembers, List.forall_mem_cons, List.forall_mem_append, hkey, hvalue,
      hrest]
    exact and_assoc.symm.trans and_and_and_comm

end

theorem points_clear (v : Json) :
    firstOffence? v.points = none ↔ v.isObject = true ∧ ∀ part ∈ v.parts, part.Fits := by
  rw [firstOffence?, List.findSome?_eq_none_iff]
  match v with
  | .object members =>
    rw [Json.points, List.forall_mem_cons, Json.parts, List.forall_mem_cons]
    exact and_congr (iff_of_true rfl rfl) (pointsOfMembers_clear members)
  | .null | .bool _ | .number _ | .string _ | .array _ =>
    simp [Json.points, Point.offence?, Json.isObject]

/-! ## What is kept of host data in order is in order -/

theorem keys_keptMembers (members : List (Text × Json)) :
    (Keyed.keys (Json.keptMembers members)).Sublist (Keyed.keys members) := by
  induction members with
  | nil => exact List.Sublist.refl _
  | cons m members ih =>
    obtain ⟨key, value⟩ := m
    rw [Json.keptMembers, Keyed.keys, List.map_append, Keyed.keys, List.map_cons]
    cases value.kept? with
    | none => exact ih.cons _
    | some w => exact ih.cons_cons _

mutual

/-- A part of what is kept is what is kept of a part. -/
theorem parts_kept? {v w : Json} (h : v.kept? = some w) {part : Json} (hpart : part ∈ w.parts) :
    ∃ source ∈ v.parts, source.kept? = some part := by
  match v with
  | .null => cases h
  | .bool _ | .number _ | .string _ =>
    cases h
    obtain rfl := List.mem_singleton.1 hpart
    exact ⟨_, List.mem_singleton.2 rfl, rfl⟩
  | .array items =>
    rw [Json.kept?] at h
    cases h
    rw [Json.parts] at hpart ⊢
    rcases List.mem_cons.1 hpart with rfl | hpart
    · exact ⟨_, List.mem_cons_self, by rw [Json.kept?]⟩
    · obtain ⟨source, hmem, hkept⟩ := parts_keptItems items hpart
      exact ⟨source, List.mem_cons_of_mem _ hmem, hkept⟩
  | .object members =>
    rw [Json.kept?] at h
    cases h
    rw [Json.parts] at hpart ⊢
    rcases List.mem_cons.1 hpart with rfl | hpart
    · exact ⟨_, List.mem_cons_self, by rw [Json.kept?]⟩
    · obtain ⟨source, hmem, hkept⟩ := parts_keptMembers members hpart
      exact ⟨source, List.mem_cons_of_mem _ hmem, hkept⟩

theorem parts_keptItems (items : List Json) {part : Json} (hpart : part ∈ Json.partsOfItems (Json.keptItems items)) :
    ∃ source ∈ Json.partsOfItems items, source.kept? = some part := by
  match items with
  | [] => cases hpart
  | item :: items =>
    rw [Json.keptItems, Json.partsOfItems_append, List.mem_append] at hpart
    rw [Json.partsOfItems]
    rcases hpart with hpart | hpart
    · cases hitem : item.kept? with
      | none =>
        rw [hitem] at hpart
        cases hpart
      | some w =>
        rw [hitem, Option.toList_some, Json.partsOfItems, Json.partsOfItems, List.append_nil] at hpart
        obtain ⟨source, hmem, hkept⟩ := parts_kept? hitem hpart
        exact ⟨source, List.mem_append_left _ hmem, hkept⟩
    · obtain ⟨source, hmem, hkept⟩ := parts_keptItems items hpart
      exact ⟨source, List.mem_append_right _ hmem, hkept⟩

theorem parts_keptMembers (members : List (Text × Json)) {part : Json}
    (hpart : part ∈ Json.partsOfMembers (Json.keptMembers members)) :
    ∃ source ∈ Json.partsOfMembers members, source.kept? = some part := by
  match members with
  | [] => cases hpart
  | (key, value) :: members =>
    rw [Json.keptMembers, Json.partsOfMembers_append, List.mem_append] at hpart
    rw [Json.partsOfMembers]
    rcases hpart with hpart | hpart
    · cases hvalue : value.kept? with
      | none =>
        rw [hvalue] at hpart
        cases hpart
      | some w =>
        rw [hvalue, Option.map_some, Option.toList_some, Json.partsOfMembers, Json.partsOfMembers,
          List.append_nil] at hpart
        obtain ⟨source, hmem, hkept⟩ := parts_kept? hvalue hpart
        exact ⟨source, List.mem_append_left _ hmem, hkept⟩
    · obtain ⟨source, hmem, hkept⟩ := parts_keptMembers members hpart
      exact ⟨source, List.mem_append_right _ hmem, hkept⟩

end

mutual

theorem toJson_mem_valueToJson {v : Value} {d : Context} (h : d ∈ v.contexts) : toJson d ∈ (valueToJson v).parts := by
  match v with
  | .flag on | .text t => cases h
  | .list items =>
    rw [valueToJson, Json.parts]
    exact List.mem_cons_of_mem _ (toJson_mem_itemsToJson h)
  | .record r => exact toJson_mem_toJson h

/-- The records in a context are the objects in its JSON. -/
theorem toJson_mem_toJson {c d : Context} (h : d ∈ c.contexts) : toJson d ∈ (toJson c).parts := by
  match c with
  | .ofEntries es =>
    rw [contexts] at h
    rw [toJson, Json.parts]
    rcases List.mem_cons.1 h with rfl | h
    · exact List.mem_cons_self
    · exact List.mem_cons_of_mem _ (toJson_mem_entriesToJson h)

theorem toJson_mem_itemsToJson {items : List Context} {d : Context} (h : d ∈ contextsOfItems items) :
    toJson d ∈ Json.partsOfItems (itemsToJson items) := by
  match items with
  | [] => cases h
  | c :: cs =>
    rw [contextsOfItems] at h
    rw [itemsToJson, Json.partsOfItems]
    rcases List.mem_append.1 h with h | h
    · exact List.mem_append_left _ (toJson_mem_toJson h)
    · exact List.mem_append_right _ (toJson_mem_itemsToJson h)

theorem toJson_mem_entriesToJson {es : List (Text × Value)} {d : Context} (h : d ∈ contextsOfEntries es) :
    toJson d ∈ Json.partsOfMembers (entriesToJson es) := by
  match es with
  | [] => cases h
  | (key, v) :: es =>
    rw [contextsOfEntries] at h
    rw [entriesToJson, Json.partsOfMembers]
    rcases List.mem_append.1 h with h | h
    · exact List.mem_append_left _ (toJson_mem_valueToJson h)
    · exact List.mem_append_right _ (toJson_mem_entriesToJson h)

end

/-- Only an object is kept as an object. -/
theorem eq_object_of_kept? {v : Json} {kept : List (Text × Json)} (h : v.kept? = some (.object kept)) :
    ∃ members, v = .object members ∧ kept = Json.keptMembers members := by
  match v with
  | .object members =>
    rw [Json.kept?] at h
    cases h
    exact ⟨members, rfl, rfl⟩
  | .null | .bool _ | .number _ | .string _ => cases h
  | .array items =>
    rw [Json.kept?] at h
    cases h

/-- **A context that is what is kept** of fitting host data binds words only, in order and each once. -/
theorem wellKeyed_of_kept? {v : Json} (hordered : v.Ordered) (hfits : ∀ part ∈ v.parts, part.Fits) {c : Context}
    (h : some c.toJson = v.kept?) : c.WellKeyed := by
  intro d hd
  -- each record in the context is what is kept of an object in the host data
  obtain ⟨source, hmem, hkept⟩ := parts_kept? h.symm (toJson_mem_toJson hd)
  obtain ⟨es⟩ := d
  obtain ⟨members, rfl, hes⟩ := eq_object_of_kept? (hkept.trans (by rw [toJson]))
  have hkeys : (Keyed.keys es).Sublist (Keyed.keys members) := by
    rw [← keys_entriesToJson, hes]
    exact keys_keptMembers members
  have hsorted : Keyed.Sorted members := Json.ascends_object.1 (hordered _ hmem)
  have hwords : ∀ m ∈ members, Text.isWord m.1 = true := hfits _ hmem
  refine ⟨hsorted.sublist hkeys, fun key hkey => ?_⟩
  obtain ⟨m, hm, rfl⟩ := List.mem_map.1 (hkeys.subset hkey)
  exact hwords m hm

/-- **Host data is a context exactly if** it is an object, the keys in it are words and the items of the lists in it
are objects. The context has what is kept of it, at every depth. What is no context fails with the first offence.
Members are to stand in the order of their keys, as they do in all that is read (`ContextFormat.ordered_read?`). -/
theorem ofJson_first_offence {v : Json} (h : v.Ordered) :
    ((∃ c, ofJson v = .ok c) ↔ v.isObject = true ∧ ∀ part ∈ v.parts, part.Fits) ∧
      (∀ c, ofJson v = .ok c → some c.toJson = v.kept? ∧ c.WellKeyed) ∧
      ∀ e, ofJson v = .error e ↔ firstOffence? v.points = some e := by
  have hreports := reports_ofJson v
  have haccepts : (∃ c, ofJson v = .ok c) ↔ v.isObject = true ∧ ∀ part ∈ v.parts, part.Fits :=
    hreports.ok_iff.trans (points_clear v)
  refine ⟨haccepts, fun c hc => ?_, fun e => hreports.error_iff⟩
  have hfits := (haccepts.1 ⟨c, hc⟩).2
  have hkept : some c.toJson = v.kept? := by
    rw [hc] at hreports
    cases hreports with
    | value clear shown_eq => exact shown_eq
  exact ⟨hkept, wellKeyed_of_kept? h hfits hkept⟩

/-- Animals and the gates of a yard. Of what is wrong, the bad item of the gates is met first. -/
def yard : Text :=
  "\x7b\"zoo\": [\x7b\"pen\": [\x7b\"na-me\": \"ox\"\x7d]\x7d, 7]," ++
    "\"yard\": \x7b\"gates\": [\x7b\"open\": true\x7d, null]\x7d, \"n\": null\x7d"

/-- The same with nothing wrong, in the other form. -/
def soundYard : Text :=
  "zoo:\n- pen: [\x7bname: ox\x7d]\n- \x7b\x7d\nyard:\n  gates:\n  - open: true\n    bars: 1.50\nn: null\n"

/-- What is kept of the sound one. -/
def keptYard : Text :=
  "\x7b\"yard\":\x7b\"gates\":[\x7b\"bars\":\"1.5\",\"open\":true\x7d]\x7d," ++
    "\"zoo\":[\x7b\"pen\":[\x7b\"name\":\"ox\"\x7d]\x7d,\x7b\x7d]\x7d"

/-- Members are taken in the order of their keys, whatever order they were written in. -/
theorem ofJson_first_offence_yard :
    (∃ v, ContextFormat.json.read? yard = some v ∧ v.Ordered ∧
      ofJson v = .error (.itemNotAnObject "gates" 1 "null")) ∧
    ∃ v c, ContextFormat.yaml.read? soundYard = some v ∧ v.Ordered ∧ ofJson v = .ok c ∧
      c.toJson.write false = keptYard := by
  constructor
  · have hfirst : (ContextFormat.json.read? yard).map (fun v => firstOffence? v.points) =
        some (some (.itemNotAnObject "gates" 1 "null")) := by decide +kernel
    obtain ⟨v, hread, hv⟩ := Option.map_eq_some_iff.1 hfirst
    have hordered : v.Ordered := ContextFormat.ordered_read? hread
    exact ⟨v, hread, hordered, ((ofJson_first_offence hordered).2.2 _).2 hv⟩
  · have hclear : (ContextFormat.yaml.read? soundYard).map (fun v =>
        (v.isObject, decide (∀ part ∈ v.parts, part.Fits), v.kept?.map (Json.write false))) =
          some (true, true, some keptYard) := by decide +kernel
    obtain ⟨v, hread, hv⟩ := Option.map_eq_some_iff.1 hclear
    simp only [Prod.mk.injEq, decide_eq_true_eq] at hv
    obtain ⟨hobject, hfits, hkept⟩ := hv
    have hordered : v.Ordered := ContextFormat.ordered_read? hread
    have hconverts := ofJson_first_offence hordered
    obtain ⟨c, hc⟩ := hconverts.1.2 ⟨hobject, hfits⟩
    rw [← (hconverts.2.1 c hc).1] at hkept
    exact ⟨v, c, hread, hordered, hc, Option.some.inj hkept⟩

end Context

end MarkupLens
