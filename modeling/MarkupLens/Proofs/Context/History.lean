/-
The history of a context does not show. A context that was put together by any
run of operations, from nothing, holds for each key what the last operation that
settles the key gave it (`get?_run`), and holds its keys in the order of their
bytes; so two runs that settle every key alike end in one context, written alike,
and two that do not end in contexts that are written differently
(`run_lastSettled`).

One operation keeps the order of the keys and settles some of them
(`Operation.canonical_apply`, `Operation.get?_apply`); a run follows by induction
on its end.
-/
import MarkupLens.Context.OfJson
import MarkupLens.Json.Printer
import MarkupLens.Proofs.Context.Recovered
import MarkupLens.Proofs.Text.ByteOrder
import MarkupLens.Yaml.Printer
import Mathlib.Data.List.Induction

namespace MarkupLens.Context

/-! ## Operations -/

/-- What can be done to a context. -/
inductive Operation where
  /-- binds a key, and gives back what was bound to it -/
  | insert (key : Text) (value : Value)
  /-- binds a key and gives nothing back, for contexts that are written down binding by binding -/
  | build (key : Text) (value : Value)
  /-- binds all that another context binds -/
  | merge (other : Context) (canonical : other.Canonical)
  /-- a context collected from entries, in place of the one that was there -/
  | collect (entries : List (Text × Value))
  /-- the entries that were there and others behind them, collected again -/
  | recollect (entries : List (Text × Value))

namespace Operation

/-- What an operation gives back, and the context after it. -/
def apply (c : Context) : Operation → Option Value × Context
  | insert key value => c.exchange key value
  | build key value => (none, (c.exchange key value).2)
  | merge other _ => (none, c.merge other)
  | collect entries => (none, ofList entries)
  | recollect entries => (none, ofList (c.entries ++ entries))

/-- What an operation settles a key to: the value it binds the key to, the last one of several. One that collects anew
settles all keys, those that it does not bind to nothing. -/
def settled? (key : Text) : Operation → Option (Option Value)
  | insert k value | build k value => if key = k then some (some value) else none
  | merge other _ => (other.get? key).map some
  | collect entries => some (Keyed.lookup key entries.reverse)
  | recollect entries => (Keyed.lookup key entries.reverse).map some

end Operation

/-- The context after a run of operations, from nothing. -/
def run (ops : List Operation) : Context := ops.foldl (fun c op => (op.apply c).2) empty

/-- What the last operation that settles a key settled it to. -/
def lastSettled? (key : Text) (ops : List Operation) : Option Value :=
  (ops.reverse.findSome? (·.settled? key)).join

theorem run_concat (ops : List Operation) (op : Operation) : run (ops ++ [op]) = (op.apply (run ops)).2 := by
  rw [run, List.foldl_append]
  rfl

theorem lastSettled?_concat (key : Text) (ops : List Operation) (op : Operation) :
    lastSettled? key (ops ++ [op]) = (op.settled? key).getD (lastSettled? key ops) := by
  rw [lastSettled?, List.reverse_concat, List.findSome?_cons]
  cases op.settled? key <;> rfl

/-! ## One operation -/

/-- A context is what its entries are collected to. -/
theorem Canonical.ofList_entries {c : Context} (h : c.Canonical) : ofList c.entries = c := empty_merge h

theorem get?_ofList (entries : List (Text × Value)) (key : Text) :
    (ofList entries).get? key = Keyed.lookup key entries.reverse :=
  (Keyed.lookup_insertAll key [] entries).trans (Option.or_none ..)

theorem Canonical.get?_ofList_append {c : Context} (h : c.Canonical) (entries : List (Text × Value)) (key : Text) :
    (ofList (c.entries ++ entries)).get? key = (Keyed.lookup key entries.reverse).or (c.get? key) := by
  rw [get?_ofList, List.reverse_append, Keyed.lookup_append, ← get?_ofList c.entries, h.ofList_entries]

namespace Operation

variable {c : Context}

/-- **One operation keeps the keys in order.** -/
theorem canonical_apply (h : c.Canonical) (op : Operation) : (op.apply c).2.Canonical := by
  cases op with
  | insert key value | build key value =>
    rw [apply, exchange_snd]
    exact h.insert key value
  | merge other hother => exact h.merge other
  | collect entries => exact canonical_ofList entries
  | recollect entries => exact canonical_ofList (c.entries ++ entries)

/-- **One operation** binds the keys that it settles, and leaves the others. -/
theorem get?_apply (h : c.Canonical) (op : Operation) (key : Text) :
    (op.apply c).2.get? key = (op.settled? key).getD (c.get? key) := by
  cases op with
  | insert k value | build k value =>
    rw [apply, exchange_snd, get?_insert, settled?]
    split <;> rfl
  | merge other hother =>
    rw [apply, get?_merge c hother, settled?]
    cases other.get? key <;> rfl
  | collect entries => exact get?_ofList entries key
  | recollect entries =>
    rw [apply, h.get?_ofList_append, settled?]
    cases Keyed.lookup key entries.reverse <;> rfl

end Operation

/-! ## A run -/

theorem canonical_run (ops : List Operation) : (run ops).Canonical :=
  List.foldlRecOn (motive := Canonical) ops _ canonical_empty fun _ h op _ => op.canonical_apply h

/-- **A run** leaves every key as it was settled last. -/
theorem get?_run (ops : List Operation) (key : Text) : (run ops).get? key = lastSettled? key ops := by
  induction ops using List.reverseRecOn with
  | nil => rfl
  | append_singleton ops op ih => rw [run_concat, op.get?_apply (canonical_run ops), ih, lastSettled?_concat]

/-- Every context whose keys stand in order comes of a run. -/
theorem canonical_iff_exists_run {c : Context} : c.Canonical ↔ ∃ ops, run ops = c := by
  constructor
  · exact fun h => ⟨[.collect c.entries], h.ofList_entries⟩
  · rintro ⟨ops, rfl⟩
    exact canonical_run ops

theorem run_eq_iff {ops more : List Operation} :
    run ops = run more ↔ ∀ key, lastSettled? key ops = lastSettled? key more := by
  constructor
  · intro h key
    rw [← get?_run, ← get?_run, h]
  · intro h
    refine (canonical_run ops).ext (canonical_run more) fun key => ?_
    rw [get?_run, get?_run, h]

/-! ## A context is told by its JSON -/

mutual

theorem valueToJson_inj {v w : Value} (h : valueToJson v = valueToJson w) : v = w := by
  match v, w with
  | .flag a, .flag b => simpa [valueToJson] using h
  | .text a, .text b => simpa [valueToJson] using h
  | .list items, .list others =>
    rw [valueToJson, valueToJson, Json.array.injEq] at h
    rw [itemsToJson_inj h]
  | .record (.ofEntries es), .record (.ofEntries fs) =>
    rw [valueToJson, valueToJson, toJson, toJson, Json.object.injEq] at h
    rw [entriesToJson_inj h]
  | .flag _, .text _ | .flag _, .list _ | .text _, .flag _ | .text _, .list _ | .list _, .flag _ | .list _, .text _ =>
    simp [valueToJson] at h
  | .flag _, .record (.ofEntries _) | .text _, .record (.ofEntries _) | .list _, .record (.ofEntries _)
  | .record (.ofEntries _), .flag _ | .record (.ofEntries _), .text _ | .record (.ofEntries _), .list _ =>
    simp [valueToJson, toJson] at h

theorem itemsToJson_inj {items others : List Context} (h : itemsToJson items = itemsToJson others) :
    items = others := by
  match items, others with
  | [], [] => rfl
  | .ofEntries es :: cs, .ofEntries fs :: ds =>
    rw [itemsToJson, itemsToJson, toJson, toJson, List.cons.injEq, Json.object.injEq] at h
    rw [entriesToJson_inj h.1, itemsToJson_inj h.2]
  | [], _ :: _ | _ :: _, [] => simp [itemsToJson] at h

theorem entriesToJson_inj {es fs : List (Text × Value)} (h : entriesToJson es = entriesToJson fs) : es = fs := by
  match es, fs with
  | [], [] => rfl
  | (k, v) :: es, (l, w) :: fs =>
    rw [entriesToJson, entriesToJson, List.cons.injEq, Prod.mk.injEq] at h
    rw [h.1.1, valueToJson_inj h.1.2, entriesToJson_inj h.2]
  | [], _ :: _ | _ :: _, [] => simp [entriesToJson] at h

end

theorem toJson_inj {c d : Context} : c.toJson = d.toJson ↔ c = d := by
  obtain ⟨es⟩ := c
  obtain ⟨fs⟩ := d
  rw [toJson, toJson, Json.object.injEq, ofEntries.injEq]
  exact ⟨entriesToJson_inj, congrArg _⟩

/-! ## What shows of a history -/

/-- The keys ascend in the order of their bytes. -/
theorem Canonical.pairwise_encode {c : Context} (h : c.Canonical) : (c.keys.map Text.encode).Pairwise (· < ·) :=
  List.pairwise_map.2 (List.Pairwise.imp Text.encode_lt_encode h)

/-- **The history of a context does not show.** After any run of operations from nothing, the keys ascend in the order
of their bytes, none of them twice; each key is bound to what the last operation that settled it gave it; and inserting
gives back what was bound just before. Two runs that settled every key alike end in one context, with one JSON, compact
or laid out, and one YAML; two contexts with one JSON come of runs that settled every key alike. Merging is associative,
and the context that binds nothing is its identity. -/
theorem run_lastSettled (ops : List Operation) :
    (((run ops).keys.map Text.encode).Pairwise (· < ·) ∧ (run ops).keys.Nodup) ∧
    (∀ key, (run ops).get? key = lastSettled? key ops) ∧
    (∀ key value, ((Operation.insert key value).apply (run ops)).1 = (run ops).get? key) ∧
    (∀ more, (∀ key, lastSettled? key ops = lastSettled? key more) →
      run ops = run more ∧ (∀ pretty, (run ops).toJson.write pretty = (run more).toJson.write pretty) ∧
        Yaml.write (run ops) = Yaml.write (run more)) ∧
    (∀ more, (run ops).toJson = (run more).toJson → ∀ key, lastSettled? key ops = lastSettled? key more) ∧
    (∀ more rest, ((run ops).merge (run more)).merge (run rest) = (run ops).merge ((run more).merge (run rest))) ∧
    (run ops).merge empty = run ops ∧ empty.merge (run ops) = run ops := by
  have hops := canonical_run ops
  refine ⟨⟨hops.pairwise_encode, Keyed.Sorted.nodup hops⟩, get?_run ops, fun key value => hops.exchange_fst key value,
    fun more h => ?_, fun more h => ?_, fun more rest => ?_, merge_empty (run ops), empty_merge hops⟩
  · have hsame : run ops = run more := run_eq_iff.2 h
    rw [hsame]
    exact ⟨rfl, fun _ => rfl, rfl⟩
  · exact run_eq_iff.1 (toJson_inj.1 h)
  · exact hops.merge_assoc (canonical_run more) (canonical_run rest)

/-- A menu put together piece by piece. -/
def piecedMenu : List Operation := [
  .build "soup" (.text "leek"), .insert "ä" (.flag true), .insert "soup" (.text "pea"),
  .merge (.ofEntries [("dish", .text "pie"), ("soup", .text "beet")]) (by decide), .recollect [("dish", .text "rice")]]

/-- The same menu collected at once, in place of another one. -/
def collectedMenu : List Operation := [
  .insert "wine" (.text "red"),
  .collect [("ä", .flag true), ("soup", .text "leek"), ("dish", .text "rice"), ("soup", .text "beet")]]

theorem run_lastSettled_menu :
    (∀ key, lastSettled? key piecedMenu = lastSettled? key collectedMenu) ∧ run piecedMenu = run collectedMenu ∧
      (run piecedMenu).keys = ["dish".toList, "soup".toList, "ä".toList] ∧
      (run piecedMenu).get? "soup" = some (.text "beet") ∧
      ((Operation.insert "soup" (.text "fish")).apply (run piecedMenu)).1 = some (.text "beet") := by
  have hsame : ∀ key, lastSettled? key piecedMenu = lastSettled? key collectedMenu := by
    intro key
    by_cases h : key = "dish" ∨ key = "soup" ∨ key = "ä"
    · rcases h with rfl | rfl | rfl <;> decide +kernel
    · simp only [not_or] at h
      simp [-String.reduceToList, lastSettled?, piecedMenu, collectedMenu, Operation.settled?, Keyed.lookup, get?,
        entries, h]
  obtain ⟨-, hget, hinsert, hmore, -⟩ := run_lastSettled piecedMenu
  have hsoup : (run piecedMenu).get? "soup" = some (.text "beet") := (hget "soup").trans (by decide +kernel)
  exact ⟨hsame, (hmore collectedMenu hsame).1, by decide +kernel, hsoup, (hinsert _ _).trans hsoup⟩

end MarkupLens.Context
