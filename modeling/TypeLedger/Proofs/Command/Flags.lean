import TypeLedger.Command.Report

/-! Flags in front of the arguments. Each spelling of a flag but help, put before any arguments, sets
its option and has no other effect on what the arguments ask for. -/
namespace TypeLedger.Command

variable {p : Progress} {f : Flag} {flags : List Flag} {args : List Arg} {words : List Text}
  {o : Options} {spelling : Text}

/-- The options with a flag set. Help is no option. -/
def Options.set (o : Options) : Flag → Options
  | .help => o
  | .json => { o with json := true }
  | .fixpointCheck => { o with fixpointCheck := true }
  | .verbose => { o with verbosity := o.verbosity + 1 }

def Request.set (f : Flag) : Request → Request
  | .help => .help
  | .replay o => .replay (o.set f)

/-- The progress with a flag set. -/
def Progress.mark (p : Progress) : Flag → Progress
  | .help => p
  | .json => { p with json := true }
  | .fixpointCheck => { p with fixpointCheck := true }
  | .verbose => { p with verbosity := p.verbosity + 1 }

theorem Progress.set_singleton (some : f ≠ .help) : p.set [f] = .some (p.mark f) := by
  cases f with
  | help => contradiction
  | _ => rfl

theorem Progress.mark_comm (f g : Flag) : (p.mark f).mark g = (p.mark g).mark f := by
  cases f <;> cases g <;> rfl

theorem Progress.set_cons (some : f ≠ .help) : p.set (f :: flags) = (p.mark f).set flags := by
  cases f with
  | help => contradiction
  | _ => rfl

theorem Progress.set_mark : (p.mark f).set flags = (p.set flags).map (·.mark f) := by
  induction flags generalizing p with
  | nil => rfl
  | cons g flags ih =>
    by_cases help : g = .help
    · subst help
      rfl
    · rw [set_cons help, set_cons help, mark_comm, ih]

@[simp] theorem Progress.trace_mark : (p.mark f).trace = p.trace := by
  cases f <;> rfl

@[simp] theorem Progress.extras_mark : (p.mark f).extras = p.extras := by
  cases f <;> rfl

theorem Progress.trace_mark_comm (trace : Option Text) :
    { p.mark f with trace := trace } = ({ p with trace := trace } : Progress).mark f := by
  cases f <;> rfl

theorem Progress.extras_mark_comm (extras : List Text) :
    { p.mark f with extras := extras } = ({ p with extras := extras } : Progress).mark f := by
  cases f <;> rfl

theorem Progress.finish_mark : (p.mark f).finish = (p.finish).map (Request.set f) := by
  rw [finish, finish, trace_mark, extras_mark]
  split
  · rfl
  · split
    · rfl
    · cases f <;> rfl

theorem Progress.take_mark : (p.mark f).take args = (p.take args).map (Request.set f) := by
  fun_induction Progress.take p args with
  | case1 => exact finish_mark
  | case2 p text rest ih =>
    rw [take, extras_mark, extras_mark_comm, ih]
  | case3 p g long attached rest e fault =>
    simp only [take, fault]
    rfl
  | case4 p g long attached rest flags found stop =>
    simp only [take, found, set_mark, stop]
    rfl
  | case5 p g long attached rest flags found next set ih =>
    simp only [take, found, set_mark, set]
    exact ih
  | case6 p text rest first ih | case9 p text rest first ih | case11 p text rest _ first ih =>
    have first' : (p.mark f).trace.isNone = true := by rwa [trace_mark]
    simp only [take, if_pos first', trace_mark_comm, ih]
  | case7 p text rest further ih | case10 p text rest further ih
  | case12 p text rest _ further ih =>
    have further' : ¬(p.mark f).trace.isNone = true := by rwa [trace_mark]
    simp only [take, if_neg further', extras_mark, extras_mark_comm, ih]
  | case8 p rest _ ih =>
    simp only [take, extras_mark, extras_mark_comm, ih]

theorem classify_spelling {f : Flag} (mem : (spelling, f) ∈ spellings) :
    classify spelling = .ok (.flag f (isLong spelling) none) := by
  simp only [spellings, List.mem_cons, Prod.mk.injEq, List.not_mem_nil, or_false] at mem
  rcases mem with ⟨rfl, rfl⟩ | ⟨rfl, rfl⟩ | ⟨rfl, rfl⟩ | ⟨rfl, rfl⟩ | ⟨rfl, rfl⟩ | ⟨rfl, rfl⟩ <;> rfl

theorem classifyAll_cons_spelling {f : Flag} (mem : (spelling, f) ∈ spellings) :
    classifyAll (spelling :: words) =
      (classifyAll words).map (.flag f (isLong spelling) none :: ·) := by
  have others : ∀ known ∈ spellings, known.1 ≠ divider := by decide
  rw [classifyAll, if_neg (others _ mem), classify_spelling mem]
  cases classifyAll words <;> rfl

/-- What is asked for with a flag in front is what is asked for without it, and the flag. -/
theorem ofArgs_cons_spelling (mem : (spelling, f) ∈ spellings) (some : f ≠ .help) :
    Request.ofArgs (spelling :: words) = (Request.ofArgs words).map (Request.set f) := by
  rw [Request.ofArgs, Request.ofArgs, classifyAll_cons_spelling mem]
  cases classifyAll words with
  | error => rfl
  | ok args =>
    have taken : Progress.take {} (.flag f (isLong spelling) none :: args) =
        (Progress.mark {} f).take args := by
      rw [Progress.take, flagsOf]
      simp only [Progress.set_singleton some]
    exact taken.trans Progress.take_mark

theorem plan_cons_spelling (mem : (spelling, f) ∈ spellings) (some : f ≠ .help) :
    plan (spelling :: words) = (plan words).map (·.set f) := by
  rw [plan, plan, ofArgs_cons_spelling mem some]
  rcases Request.ofArgs words with _ | _ | _ <;> rfl

end TypeLedger.Command
