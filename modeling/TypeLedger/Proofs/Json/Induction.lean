import TypeLedger.Json.Reader
import Mathlib.Data.List.Basic

/-! Induction over the values that JSON texts write: a property that tokens give to values, and that
arrays and objects have if all their parts do, holds of what is read. -/
namespace TypeLedger.Json

variable {K : Token → Prop} {P : Value → Prop} {limit : Option Nat} {text : Text} {v : Value}

/-- A property of values that the parts hand on, where the tokens have the property `K`. -/
structure Inherited (limit : Option Nat) (K : Token → Prop) (P : Value → Prop) : Prop where
  string : ∀ t, K (.string t) → P (.string t)
  scalar : ∀ v, K (.scalar v) → P v
  int : ∀ negative digits n, K (.integer negative digits) → Numeral.read limit digits = .ok n →
    P (.int (if negative then -n else n))
  array : ∀ items, (∀ v ∈ items, P v) → P (.array items)
  object : ∀ fields : List (Text × Value), (∀ f ∈ fields, P f.2) → P (.object fields)

theorem forall_put {key : Text} {fields : List (Text × Value)} (new : P v)
    (old : ∀ f ∈ fields, P f.2) : ∀ f ∈ put key v fields, P f.2 := by
  induction fields with
  | nil => exact List.forall_mem_cons.mpr ⟨new, List.forall_mem_nil _⟩
  | cons first rest ih =>
    obtain ⟨one, others⟩ := List.forall_mem_cons.mp old
    rw [put]
    split
    · exact List.forall_mem_cons.mpr ⟨new, others⟩
    · exact List.forall_mem_cons.mpr ⟨one, ih others⟩

/-- All values that have been read for the frame have the property. -/
def Frame.All (P : Value → Prop) : Frame → Prop
  | items read => ∀ v ∈ read, P v
  | field read _ => ∀ f ∈ read, P f.2

namespace State

variable {s next : State} {stack : List Frame} {place : Nat} {tok : Token} {stop : Located Stop}
  {toks : List (Located Token)}

/-- All values that have been read have the property. -/
def All (P : Value → Prop) : State → Prop
  | value stack | firstItem stack | firstKey stack => ∀ f ∈ stack, f.All P
  | key read stack | colon read _ stack => (∀ f ∈ read, P f.2) ∧ ∀ f ∈ stack, f.All P
  | complete v stack => P v ∧ ∀ f ∈ stack, f.All P

variable (inherited : Inherited limit K P)

include inherited

theorem all_takeValue (h : takeValue limit stack place tok = .ok next) (kept : K tok)
    (open_ : ∀ f ∈ stack, f.All P) : next.All P := by
  revert h
  fun_cases takeValue limit stack place tok with
  | case1 | case2 =>
    rintro ⟨⟩
    exact open_
  | case3 t =>
    rintro ⟨⟩
    exact ⟨inherited.string t kept, open_⟩
  | case4 v =>
    rintro ⟨⟩
    exact ⟨inherited.scalar v kept, open_⟩
  | case5 negative digits n read =>
    rintro ⟨⟩
    exact ⟨inherited.int negative digits n kept read, open_⟩
  | _ => exact nofun

theorem All.step (h : s.All P) (kept : K tok) (hs : s.step limit place tok = .ok next) :
    next.All P := by
  revert hs
  fun_cases State.step limit place tok s with
  | case1 stack => exact fun hs => all_takeValue inherited hs kept h
  | case2 stack =>
    rintro ⟨⟩
    exact ⟨inherited.array [] (List.forall_mem_nil _), h⟩
  | case3 stack =>
    intro hs
    exact all_takeValue inherited hs kept (List.forall_mem_cons.mpr ⟨List.forall_mem_nil _, h⟩)
  | case4 stack =>
    rintro ⟨⟩
    exact ⟨inherited.object [] (List.forall_mem_nil _), h⟩
  | case5 stack k =>
    rintro ⟨⟩
    exact ⟨List.forall_mem_nil _, h⟩
  | case7 read stack k =>
    rintro ⟨⟩
    exact h
  | case9 read k stack =>
    rintro ⟨⟩
    exact List.forall_mem_cons.mpr h
  | case11 v read stack =>
    rintro ⟨⟩
    obtain ⟨items, others⟩ := List.forall_mem_cons.mp h.2
    exact List.forall_mem_cons.mpr ⟨List.forall_mem_cons.mpr ⟨h.1, items⟩, others⟩
  | case12 v read stack =>
    rintro ⟨⟩
    obtain ⟨items, others⟩ := List.forall_mem_cons.mp h.2
    refine ⟨inherited.array _ fun w mem => ?_, others⟩
    exact List.forall_mem_cons.mpr ⟨h.1, items⟩ w (List.mem_reverse.mp mem)
  | case14 v read k stack =>
    rintro ⟨⟩
    obtain ⟨fields, others⟩ := List.forall_mem_cons.mp h.2
    exact ⟨forall_put h.1 fields, others⟩
  | case15 v read k stack =>
    rintro ⟨⟩
    obtain ⟨fields, others⟩ := List.forall_mem_cons.mp h.2
    exact ⟨inherited.object _ (forall_put h.1 fields), others⟩
  | _ => exact nofun

theorem All.run (h : s.All P) (kept : ∀ tok ∈ toks, K tok.item)
    (hr : s.run limit stop toks = .ok v) : P v := by
  induction toks generalizing s with
  | nil =>
    revert hr
    rw [State.run]
    fun_cases finish stop s with
    | case1 w =>
      rintro ⟨⟩
      exact h.1
    | _ => exact nofun
  | cons tok toks ih =>
    obtain ⟨first, others⟩ := List.forall_mem_cons.mp kept
    rw [State.run] at hr
    split at hr
    next => cases hr
    next next stepped => exact ih (h.step inherited first stepped) others hr

end State

theorem Inherited.of_read (inherited : Inherited limit K P) (h : read limit text = .ok v)
    (kept : ∀ tok ∈ (tokens 0 text).1, K tok.item) : P v := by
  rw [read] at h
  split at h
  next => cases h
  next =>
    have start : (State.value []).All P := List.forall_mem_nil _
    exact start.run inherited kept h

end TypeLedger.Json
