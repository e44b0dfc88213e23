import TypeLedger.Ty.Basic

/-! When two types are the same: equal in shape, names and values, but a union is the set of its
members. Members of two unions are compared once for each pair, so that the time taken is bounded by
the product of the sizes; `same_union` gives the result as two inclusions. -/
namespace TypeLedger.Ty

mutual

def same (a b : Ty) : Bool :=
  match a, b with
  | unknown, unknown => true
  | any, any => true
  | never, never => true
  | null, null => true
  | named n as, named m bs => n = m && sameArgs as bs
  | literal a v, literal b w => same a b && v = w
  | union as, union bs => sameMembers as (bs.map fun b => (b, false))
  | _, _ => false
termination_by structural a

/-- The same number of types, the same one by one. -/
def sameArgs (as bs : List Ty) : Bool :=
  match as, bs with
  | [], [] => true
  | a :: as, b :: bs => same a b && sameArgs as bs
  | _, _ => false
termination_by structural as

/-- Each type is the same as a candidate, and each candidate that is not marked yet is the same as a
type. -/
def sameMembers (as : List Ty) (candidates : List (Ty × Bool)) : Bool :=
  match as with
  | [] => candidates.all fun (_, marked) => marked
  | a :: as =>
    let row := candidates.map fun (b, marked) => (b, marked, same a b)
    row.any (fun (_, _, found) => found) &&
      sameMembers as (row.map fun (b, marked, found) => (b, marked || found))
termination_by structural as

end

/-- One of the types is the same as `t`. -/
def contains (types : List Ty) (t : Ty) : Bool := types.any fun candidate => candidate.same t

theorem same_named (n m : Text) (as bs : List Ty) :
    (named n as).same (named m bs) = (decide (n = m) && sameArgs as bs) := rfl

theorem same_literal (a b : Ty) (v w : LiteralValue) :
    (literal a v).same (literal b w) = (a.same b && decide (v = w)) := rfl

theorem sameMembers_eq (as : List Ty) (candidates : List (Ty × Bool)) :
    sameMembers as candidates =
      (as.all (fun a => candidates.any fun c => same a c.1) &&
        candidates.all fun c => c.2 || contains as c.1) := by
  induction as generalizing candidates with
  | nil => simp [sameMembers, contains]
  | cons a as ih =>
    rw [Bool.eq_iff_iff]
    simp only [sameMembers, ih, contains, List.map_map, List.any_map, List.all_map,
      List.any_cons, List.all_cons, Function.comp_def, Bool.and_eq_true, Bool.or_assoc, and_assoc]

theorem same_union (as bs : List Ty) :
    same (union as) (union bs) =
      (as.all (fun a => bs.any fun b => same a b) && bs.all fun b => contains as b) := by
  change sameMembers as (bs.map fun b => (b, false)) = _
  simp [sameMembers_eq, List.any_map, List.all_map, Function.comp_def]

end TypeLedger.Ty
