import TypeLedger.Trace.Loader
import TypeLedger.Proofs.Except

/-! Which JSON values are traces. The items of a list are judged by rules, which have an order, and a
value that is no trace is blamed for the first item that breaks a rule and for the first rule that this
item breaks. -/
namespace TypeLedger

/-- The fields of an object. Other values have none. -/
def Json.Value.fields : Json.Value → List (Text × Json.Value)
  | .object fields => fields
  | _ => []

namespace Trace

/-- The rules for the items of a trace. -/
inductive Rule
  | object
  | keys
  | source
  | type
  | binding
  deriving DecidableEq

namespace Rule

/-- The rules in the order in which they are judged. -/
def order : List Rule := [object, keys, source, type, binding]

/-- The item meets the rule. A binding may be missing, but one that is `null` is there. -/
def Kept (item : Json.Value) : Rule → Prop
  | object => ∃ fields, item = .object fields
  | keys => ∀ f ∈ item.fields, f.1 ∈ recordKeys
  | source => ∃ n, Json.get? item.fields "source" = some (.int n)
  | type => ∃ t, Json.get? item.fields "type" = some (.string t)
  | binding => ∀ v, Json.get? item.fields "binding" = some v → ∃ t, v = .string t ∧ t ≠ []

/-- The first rule that the item breaks. -/
def FirstBroken (item : Json.Value) (rule : Rule) : Prop :=
  ∃ before after, order = before ++ rule :: after ∧ (∀ earlier ∈ before, earlier.Kept item) ∧
    ¬rule.Kept item

/-- What is said of an item that breaks the rule. Keys that a record does not have are all named, in
order of code points. -/
inductive Complaint (item : Json.Value) : Rule → Text → Prop
  | object : Complaint item object "expected an object"
  | keys {names : List Text} : names.Perm ((item.fields.map Prod.fst).filter (· ∉ recordKeys)) →
      names.Pairwise (fun k l => Text.le k l = true) →
      Complaint item keys ("unexpected key(s) " ++ .joinWith ", " names)
  | source : Complaint item source "'source' must be an integer"
  | type : Complaint item type "'type' must be a string"
  | binding : Complaint item binding "'binding' must be a non-empty string"

end Rule

/-- The record of an item at a place of a trace. -/
structure Record.Reads (item : Json.Value) (place : Nat) (r : Record) : Prop where
  index : r.index = place
  source : Json.get? item.fields "source" = some (.int r.source)
  typeText : Json.get? item.fields "type" = some (.string r.typeText)
  binding : Json.get? item.fields "binding" = some (.string r.binding) ∨
    Json.get? item.fields "binding" = none ∧ r.binding = defaultBinding

variable {item : Json.Value} {items : List Json.Value} {fields : List (Text × Json.Value)}
  {records : List Record} {data : Json.Value} {file : Option Text} {e : Error} {n : Nat}

theorem Rule.FirstBroken.not_kept {rule : Rule} (h : rule.FirstBroken item) : ¬rule.Kept item := by
  obtain ⟨-, -, -, -, broken⟩ := h
  exact broken

theorem unexpectedKeys_perm (fields : List (Text × Json.Value)) :
    (unexpectedKeys fields).Perm ((fields.map Prod.fst).filter (· ∉ recordKeys)) :=
  List.mergeSort_perm _ _

theorem unexpectedKeys_sorted (fields : List (Text × Json.Value)) :
    (unexpectedKeys fields).Pairwise fun k l => Text.le k l = true := by
  apply List.pairwise_mergeSort
  · exact fun _ _ _ => Text.le_trans
  · exact Text.le_total

/-- No other list has these keys in this order. -/
theorem unexpectedKeys_eq {names : List Text}
    (perm : names.Perm ((fields.map Prod.fst).filter (· ∉ recordKeys)))
    (sorted : names.Pairwise fun k l => Text.le k l = true) : unexpectedKeys fields = names :=
  ((unexpectedKeys_perm fields).trans perm.symm).eq_of_pairwise
    (fun _ _ _ _ => Text.le_antisymm) (unexpectedKeys_sorted fields) sorted

theorem unexpectedKeys_eq_nil_iff :
    unexpectedKeys fields = [] ↔ ∀ f ∈ fields, f.1 ∈ recordKeys := by
  rw [← List.perm_nil, (unexpectedKeys_perm fields).congr_left, List.perm_nil,
    List.filter_eq_nil_iff]
  simp

/-- What comes of an item at a place: its record where it keeps all rules, and otherwise what is said
of the first rule that it breaks. -/
inductive Judged (item : Json.Value) (place : Nat) : Except RecordFault Record → Prop
  | kept {r : Record} : (∀ rule : Rule, rule.Kept item) → r.Reads item place →
      Judged item place (.ok r)
  | broken {rule : Rule} {fault : RecordFault} : rule.FirstBroken item →
      rule.Complaint item fault.message → Judged item place (.error fault)

theorem judged_ofFields (place : Nat) (fields : List (Text × Json.Value)) :
    Judged (.object fields) place (Record.ofFields place fields) := by
  have isObject : Rule.object.Kept (.object fields) := ⟨fields, rfl⟩
  rw [Record.ofFields]
  split
  next unexpected =>
    refine .broken ⟨[.object], [.source, .type, .binding], rfl, by simpa using isObject, ?_⟩
      (.keys (unexpectedKeys_perm fields) (unexpectedKeys_sorted fields))
    exact mt unexpectedKeys_eq_nil_iff.mpr unexpected
  next expected =>
  have hasKeys : Rule.keys.Kept (.object fields) :=
    unexpectedKeys_eq_nil_iff.mp (Decidable.not_not.mp expected)
  split
  next n source =>
    have hasSource : Rule.source.Kept (.object fields) := ⟨n, source⟩
    split
    next t type =>
      have hasType : Rule.type.Kept (.object fields) := ⟨t, type⟩
      have allKept (hasBinding : Rule.binding.Kept (.object fields)) :
          ∀ rule : Rule, rule.Kept (.object fields) := by
        rintro (_ | _ | _ | _ | _)
        exacts [isObject, hasKeys, hasSource, hasType, hasBinding]
      split
      next missing =>
        refine .kept (allKept fun v found => ?_) ⟨rfl, source, type, .inr ⟨missing, rfl⟩⟩
        cases missing.symm.trans found
      next c cs present =>
        refine .kept (allKept fun v found => ?_) ⟨rfl, source, type, .inl present⟩
        cases present.symm.trans found
        exact ⟨_, rfl, List.cons_ne_nil _ _⟩
      next v noText present =>
        refine .broken ⟨[.object, .keys, .source, .type], [], rfl, ?_, fun kept => ?_⟩ .binding
        · simp [isObject, hasKeys, hasSource, hasType]
        · obtain ⟨t, rfl, some⟩ := kept v present
          obtain ⟨c, cs, rfl⟩ := List.exists_cons_of_ne_nil some
          exact noText c cs rfl
    next noType =>
      refine .broken ⟨[.object, .keys, .source], [.binding], rfl, ?_, ?_⟩ .type
      · simp [isObject, hasKeys, hasSource]
      · rintro ⟨t, type⟩
        exact noType t type
  next noSource =>
    refine .broken ⟨[.object, .keys], [.type, .binding], rfl, ?_, ?_⟩ .source
    · simp [isObject, hasKeys]
    · rintro ⟨n, source⟩
      exact noSource n source

theorem judged_ofJson (place : Nat) (item : Json.Value) :
    Judged item place (Record.ofJson place item) := by
  have noObject (h : ∀ fields, item ≠ .object fields) :
      Judged item place (.error .notAnObject) := by
    refine .broken ⟨[], [.keys, .source, .type, .binding], rfl, List.forall_mem_nil _, ?_⟩ .object
    rintro ⟨fields, same⟩
    exact h fields same
  cases item with
  | object fields => exact judged_ofFields place fields
  | _ => exact noObject fun _ => nofun

/-- The items from a place on: each is read as its record, and keeps all rules. -/
theorem reads_of_recordsFrom (h : recordsFrom n items = .ok records) :
    (∀ item ∈ items, ∀ rule : Rule, rule.Kept item) ∧
      List.Forall₂ (fun item r => r.Reads item.1 item.2) (items.zipIdx n) records := by
  induction items generalizing n records with
  | nil =>
    cases h
    exact ⟨List.forall_mem_nil _, .nil⟩
  | cons item items ih =>
    have judged := judged_ofJson n item
    rw [recordsFrom] at h
    split at h
    next => cases h
    next r read =>
      rw [read] at judged
      obtain ⟨others, rest, rfl⟩ := map_eq_ok_iff.mp h
      obtain ⟨kept, reads⟩ := ih rest
      cases judged with
      | kept first firstReads =>
        exact ⟨List.forall_mem_cons.mpr ⟨first, kept⟩, .cons firstReads reads⟩

/-- The fault of items from a place on is that of the first one that breaks a rule. -/
theorem broken_of_recordsFrom {fault : ShapeFault} (h : recordsFrom n items = .error fault) :
    ∃ before item after, ∃ rule : Rule, ∃ cause, items = before ++ item :: after ∧
      (∀ earlier ∈ before, ∀ rule : Rule, rule.Kept earlier) ∧
      rule.FirstBroken item ∧ rule.Complaint item cause.message ∧
      fault = .record (n + before.length) cause := by
  induction items generalizing n with
  | nil => cases h
  | cons item items ih =>
    have judged := judged_ofJson n item
    rw [recordsFrom] at h
    split at h
    next cause refused =>
      cases h
      rw [refused] at judged
      cases judged with
      | broken first complaint =>
        exact ⟨[], item, items, _, cause, rfl, List.forall_mem_nil _, first, complaint, rfl⟩
    next r read =>
      rw [read] at judged
      obtain ⟨before, x, after, rule, cause, rfl, kept, broken, complaint, rfl⟩ :=
        ih (map_eq_error_iff.mp h)
      cases judged with
      | kept first =>
        refine ⟨item :: before, x, after, rule, cause, rfl,
          List.forall_mem_cons.mpr ⟨first, kept⟩, broken, complaint, ?_⟩
        rw [List.length_cons, Nat.add_right_comm, Nat.add_assoc]

/-- What is said of a value that is no trace. -/
inductive Blamed : Json.Value → Text → Prop
  | notAList {data : Json.Value} : (∀ items, data ≠ .array items) →
      Blamed data "trace must be a JSON list of records"
  | item {before after : List Json.Value} {item : Json.Value} {rule : Rule} {cause : Text} :
      (∀ earlier ∈ before, ∀ rule : Rule, rule.Kept earlier) → rule.FirstBroken item →
      rule.Complaint item cause →
      Blamed (.array (before ++ item :: after))
        (.concat ["record #", Numeral.ofNat before.length, ": ", cause])

theorem not_blamed {message : Text} (kept : ∀ item ∈ items, ∀ rule : Rule, rule.Kept item) :
    ¬Blamed (.array items) message := by
  rintro (noList | @⟨before, after, item, rule, cause, -, broken, -⟩)
  · exact noList items rfl
  · exact broken.not_kept (kept item (by simp) rule)

theorem reads_of_parse (h : parse file data = .ok records) : ∃ items, data = .array items ∧
    (∀ item ∈ items, ∀ rule : Rule, rule.Kept item) ∧
      List.Forall₂ (fun item r => r.Reads item.1 item.2) items.zipIdx records := by
  rw [parse] at h
  split at h
  next found =>
    cases h
    cases data with
    | array items => exact ⟨items, rfl, reads_of_recordsFrom found⟩
    | _ => cases found
  next => cases h

theorem blamed_of_parse (h : parse file data = .error e) :
    e.span = ⟨file, none, none⟩ ∧ Blamed data e.message := by
  rw [parse] at h
  split at h
  next => cases h
  next fault refused =>
    cases h
    refine ⟨by cases fault <;> rfl, ?_⟩
    cases data with
    | array items =>
      obtain ⟨before, item, after, rule, cause, rfl, kept, broken, complaint, rfl⟩ :=
        broken_of_recordsFrom refused
      rw [Nat.zero_add]
      exact .item kept broken complaint
    | _ =>
      cases refused
      exact .notAList fun _ => nofun

/-- A value gives records exactly when it is a list of which every item keeps every rule, and then one
for each item, in order. Of any other value it is said what is wrong with it first. -/
theorem records_or_first_fault (file : Option Text) (data : Json.Value) :
    ((∃ records, parse file data = .ok records) ↔
      ∃ items, data = .array items ∧ ∀ item ∈ items, ∀ rule : Rule, rule.Kept item) ∧
    (∀ records, parse file data = .ok records → ∃ items, data = .array items ∧
      List.Forall₂ (fun item r => r.Reads item.1 item.2) items.zipIdx records) ∧
    ∀ e, parse file data = .error e →
      e.span = ⟨file, none, none⟩ ∧ Blamed data e.message := by
  refine ⟨⟨?_, ?_⟩, ?_, fun e => blamed_of_parse⟩
  · rintro ⟨records, h⟩
    obtain ⟨items, rfl, kept, -⟩ := reads_of_parse h
    exact ⟨items, rfl, kept⟩
  · rintro ⟨items, rfl, kept⟩
    cases h : parse file (.array items) with
    | ok records => exact ⟨records, rfl⟩
    | error e => exact absurd (blamed_of_parse h).2 (not_blamed kept)
  · intro records h
    obtain ⟨items, rfl, -, reads⟩ := reads_of_parse h
    exact ⟨items, rfl, reads⟩

/-- Of the second item it is said which keys it should not have, and not that its source is none. -/
theorem records_or_first_fault_unexpected :
    let good : Json.Value := .object [("type", .string "int"), ("source", .int 7)]
    let bad : Json.Value := .object [("zz", .null), ("source", .bool true), ("a", .null)]
    let e : Error := ⟨some "t.json", .shape (.record 1 (.unexpectedKeys ["a", "zz"]))⟩
    parse none (.array [good]) = .ok [⟨"_", 7, "int", 0⟩] ∧
    Record.Reads good 0 ⟨"_", 7, "int", 0⟩ ∧
    parse (some "t.json") (.array [good, bad, .null]) = .error e ∧
    e.span = ⟨some "t.json", none, none⟩ ∧
    e.message = "record #1: unexpected key(s) a, zz" ∧
    Blamed (.array [good, bad, .null]) e.message := by
  intro good bad e
  have accepted : parse none (.array [good]) = .ok [⟨"_", 7, "int", 0⟩] := by decide +kernel
  have names : unexpectedKeys bad.fields = (["a", "zz"] : List Text) :=
    unexpectedKeys_eq (by decide) (by decide)
  have unexpected : Record.ofJson 1 bad = .error (.unexpectedKeys ["a", "zz"]) := by
    change Record.ofFields 1 bad.fields = _
    rw [Record.ofFields, names, if_pos (by decide)]
  have refused : parse (some "t.json") (.array [good, bad, .null]) = .error e := by
    have kept : Record.ofJson 0 good = .ok ⟨"_", 7, "int", 0⟩ := by decide +kernel
    rw [parse, recordsOfJson, recordsFrom, kept, recordsFrom, unexpected]
    rfl
  obtain ⟨-, reads, -⟩ := records_or_first_fault none (.array [good])
  obtain ⟨items, same, each⟩ := reads _ accepted
  cases same
  obtain ⟨first, -⟩ := List.forall₂_cons.mp each
  obtain ⟨-, -, blamed⟩ := records_or_first_fault (some "t.json") (.array [good, bad, .null])
  obtain ⟨place, message⟩ := blamed e refused
  exact ⟨accepted, first, refused, place, by decide, message⟩

end Trace
end TypeLedger
