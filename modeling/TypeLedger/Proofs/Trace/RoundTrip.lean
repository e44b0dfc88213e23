import TypeLedger.Proofs.Json.RoundTrip
import TypeLedger.Proofs.Text.Utf8
import TypeLedger.Proofs.Trace.Rules
import Mathlib.Data.List.Range

/-! Trace files give back the records that were written into them. Each layer undoes its own: the bytes
of a text, the ends of its lines, the tokens of a JSON value, and the objects of records. -/
namespace TypeLedger.Trace

/-- A record that a file can hold: with a binding, a source that is not too long, and no halves of
surrogate pairs next to each other. -/
structure Record.Storable (r : Record) : Prop where
  binding : r.binding ≠ []
  source : (Numeral.ofNat r.source.natAbs).length ≤ Numeral.maxDigits
  bindingWhole : ¬r.binding.HasSplitPair
  typeWhole : ¬r.typeText.HasSplitPair

/-- The objects that are written for a record, with their keys in any order. The binding may be left
out where it is the default one. -/
inductive Record.Encodes (r : Record) : Json.Value → Prop
  | full {fields : List (Text × Json.Value)} :
      fields.Perm [("binding", .string r.binding), ("source", .int r.source),
        ("type", .string r.typeText)] → r.Encodes (.object fields)
  | short {fields : List (Text × Json.Value)} : r.binding = defaultBinding →
      fields.Perm [("source", .int r.source), ("type", .string r.typeText)] →
      r.Encodes (.object fields)

variable {r : Record} {item : Json.Value} {items : List Json.Value} {records : List Record}
  {fields written : List (Text × Json.Value)} {key : Text} {v : Json.Value} {path text : Text}
  {k : Nat}

theorem get?_of_mem (distinct : (fields.map Prod.fst).Nodup) (mem : (key, v) ∈ fields) :
    Json.get? fields key = some v := by
  obtain ⟨before, after, rfl⟩ := List.append_of_mem mem
  have fresh := Json.fresh_of_nodup distinct
  refine List.lookup_eq_some_iff.mpr ⟨before, after, rfl, fun p early => ?_⟩
  have other : key ≠ p.1 := by
    rintro rfl
    exact fresh (List.mem_map_of_mem early)
  simpa using other

theorem get?_of_not_mem (h : key ∉ fields.map Prod.fst) : Json.get? fields key = none := by
  refine List.lookup_eq_none_iff.mpr fun p mem => ?_
  have other : key ≠ p.1 := by
    rintro rfl
    exact h (List.mem_map_of_mem mem)
  simpa using other

/-- The fields of an object do not depend on their order, since no key is there twice. -/
theorem fields_of_perm (perm : fields.Perm written) (distinct : (written.map Prod.fst).Nodup)
    (known : written.map Prod.fst ⊆ recordKeys) :
    unexpectedKeys fields = [] ∧ (∀ f ∈ written, Json.get? fields f.1 = some f.2) ∧
      ∀ key ∉ written.map Prod.fst, Json.get? fields key = none := by
  have keys : (fields.map Prod.fst).Perm (written.map Prod.fst) := perm.map Prod.fst
  refine ⟨unexpectedKeys_eq_nil_iff.mpr fun f mem => known (keys.subset (List.mem_map_of_mem mem)),
    fun f mem => ?_, fun key other => ?_⟩
  · exact get?_of_mem (keys.nodup_iff.mpr distinct) (perm.mem_iff.mpr mem)
  · exact get?_of_not_mem (mt keys.mem_iff.mp other)

theorem Record.Encodes.ofJson (h : r.Encodes item) (some : r.binding ≠ [])
    (place : r.index = k) : Record.ofJson k item = .ok r := by
  obtain ⟨binding, source, typeText, index⟩ := r
  obtain rfl : index = k := place
  obtain ⟨c, cs, rfl⟩ := List.exists_cons_of_ne_nil some
  cases h with
  | full perm =>
    obtain ⟨none, found, -⟩ := fields_of_perm perm (by simp; decide) (by simp; decide)
    simp only [List.forall_mem_cons] at found
    obtain ⟨hasBinding, hasSource, hasType, -⟩ := found
    rw [Record.ofJson, ofFields, none, if_neg (by simp), hasSource, hasType, hasBinding]
  | short default perm =>
    obtain ⟨none, found, missing⟩ := fields_of_perm perm (by simp; decide) (by simp; decide)
    simp only [List.forall_mem_cons] at found
    obtain ⟨hasSource, hasType, -⟩ := found
    rw [Record.ofJson, ofFields, none, if_neg (by simp), hasSource, hasType,
      missing "binding" (by simp; decide)]
    exact congrArg (fun b => Except.ok (Record.mk b source typeText index)) default.symm

theorem recordsFrom_of_encodes (encoded : List.Forall₂ Record.Encodes records items)
    (some : ∀ r ∈ records, r.binding ≠ [])
    (order : records.map Record.index = List.range' k records.length) :
    recordsFrom k items = .ok records := by
  induction encoded generalizing k with
  | nil => rfl
  | cons first _ ih =>
    obtain ⟨here, later⟩ := List.forall_mem_cons.mp some
    obtain ⟨place, order⟩ := List.cons.inj order
    rw [recordsFrom, first.ofJson here place, ih later order]
    rfl

theorem exact_of_perm (perm : fields.Perm written) (distinct : (written.map Prod.fst).Nodup)
    (known : written.map Prod.fst ⊆ recordKeys) (values : ∀ f ∈ written, f.2.Exact) :
    (Json.Value.object fields).Exact := by
  have keys : (fields.map Prod.fst).Perm (written.map Prod.fst) := perm.map Prod.fst
  have scalar : ∀ key ∈ recordKeys, Text.IsScalar key := by
    simp only [recordKeys, List.forall_mem_cons]
    exact ⟨Text.isScalar_ofString _, Text.isScalar_ofString _, Text.isScalar_ofString _,
      List.forall_mem_nil _⟩
  refine .object (keys.nodup_iff.mpr distinct) (fun f mem => ?_) fun f mem => ?_
  · exact (scalar _ (known (keys.subset (List.mem_map_of_mem mem)))).not_hasSplitPair
  · exact values f (perm.mem_iff.mp mem)

theorem Record.Encodes.exact (h : r.Encodes item) (storable : r.Storable) : item.Exact := by
  cases h with
  | full perm =>
    refine exact_of_perm perm (by simp; decide) (by simp; decide) ?_
    simp only [List.forall_mem_cons]
    exact ⟨.string storable.bindingWhole, .int storable.source, .string storable.typeWhole,
      List.forall_mem_nil _⟩
  | short _ perm =>
    refine exact_of_perm perm (by simp; decide) (by simp; decide) ?_
    simp only [List.forall_mem_cons]
    exact ⟨.int storable.source, .string storable.typeWhole, List.forall_mem_nil _⟩

theorem exact_of_encoded (encoded : List.Forall₂ Record.Encodes records items)
    (storable : ∀ r ∈ records, r.Storable) : ∀ item ∈ items, item.Exact :=
  forall_of_forall₂ encoded fun r mem _ encodes => encodes.exact (storable r mem)

/-- A file that holds the records, with any blanks and escapes, gives them back in order. -/
theorem load_of_encoded (openable : .scalar '\x00' ∉ path) (storable : ∀ r ∈ records, r.Storable)
    (order : records.map Record.index = List.range records.length)
    (encoded : List.Forall₂ Record.Encodes records items)
    (spaced : Json.Spaced (Json.Value.array items).tokens text) :
    load path (.ok (Utf8.encode text)) = .ok records := by
  have decoded := Utf8.decode_encode spaced.isScalar
  have value := Json.read_spaced (.array (exact_of_encoded encoded storable)) spaced.unifyNewlines
  rw [List.range_eq_range'] at order
  have found := recordsFrom_of_encodes encoded (fun r mem => (storable r mem).binding) order
  simp only [load, if_neg openable, ofBytes, decoded, ofText, value, parse, recordsOfJson, found]

theorem load_of_encoded_reordered :
    let text : Text := .concat [[.scalar '\r', .scalar '\n'],
      "[\x7b\"type\": \"int\", \"binding\": \"\\u00e9\\ud83d\\ude00\", \"source\": 10\x7d, ",
      "\x7b\"source\": -3, \"type\": \"str\"\x7d]"]
    load "trace.json" (.ok (Utf8.encode text)) = .ok [⟨"é😀", 10, "int", 0⟩, ⟨"_", -3, "str", 1⟩] := by
  intro text
  have first : Record.Encodes ⟨"é😀", 10, "int", 0⟩
      (.object [("type", .string "int"), ("binding", .string "é😀"), ("source", .int 10)]) :=
    .full (List.perm_append_comm : ([_] ++ [_, _]).Perm ([_, _] ++ [_]))
  have second : Record.Encodes ⟨"_", -3, "str", 1⟩
      (.object [("source", .int (-3)), ("type", .string "str")]) :=
    .short rfl (.refl _)
  have plain (s : String) : ¬Text.HasSplitPair s := (Text.isScalar_ofString s).not_hasSplitPair
  have storable : ∀ r ∈ [Record.mk "é😀" 10 "int" 0, ⟨"_", -3, "str", 1⟩], r.Storable := by
    simp only [List.forall_mem_cons]
    exact ⟨⟨by decide, by decide, plain _, plain _⟩, ⟨by decide, by decide, plain _, plain _⟩,
      List.forall_mem_nil _⟩
  have encoded := List.Forall₂.cons first (.cons second .nil)
  have spaced := (Json.Value.Exact.array (exact_of_encoded encoded storable)).spaced_write
  have written : text = .scalar '\r' :: .scalar '\n' :: Json.Value.write (.array
      [.object [("type", .string "int"), ("binding", .string "é😀"), ("source", .int 10)],
        .object [("source", .int (-3)), ("type", .string "str")]]) := by
    decide +kernel
  rw [written]
  exact load_of_encoded (by decide) storable rfl encoded (.blank rfl (.blank rfl spaced))

end TypeLedger.Trace
