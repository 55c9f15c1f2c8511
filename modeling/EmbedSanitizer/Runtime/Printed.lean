import EmbedSanitizer.Runtime.RaceReport

/-!
# The race lists the run-time prints

`reportRaceOnRead` and `reportRaceOnWrite` insert the race and then call `printRaces()`, which
prints every race of the set; `pushFunction` and `popFunction` print only their entry line and
their error. A call adds to the race lists printed the set after it when it reports a race, and
nothing otherwise (`printedRaces_step`). Along every sequence of calls from start-up the run-time
so prints one race list per report, the list printed last is the race set at the time, and every
list printed before is still contained in it: a race once printed is never dropped
(`printed_races_run`).
-/

namespace EmbedSanitizer

namespace Etsan

variable {α : Type}

/-- The races an output prints, when it is that of `printRaces()`. -/
def Output.races? : Output α → Option (List (Race α))
  | .races rs => some rs
  | _ => none

/-- The race lists printed, in the order they were printed. -/
def printedRaces (out : List (Output α)) : List (List (Race α)) := out.filterMap Output.races?

@[simp] theorem printedRaces_append (out out' : List (Output α)) :
    printedRaces (out ++ out') = printedRaces out ++ printedRaces out' :=
  List.filterMap_append ..

/-- What is printed agrees with the race set: every list printed so far is contained in the set,
and the last one is the set itself, or nothing has been printed and the set is empty. -/
def PrintedAgrees (s : State α) : Prop :=
  (∀ rs ∈ printedRaces s.output, ∀ r ∈ rs, r ∈ s.races) ∧
    (printedRaces s.output).getLast?.getD [] = s.races

theorem printedAgrees_init : PrintedAgrees (State.init : State α) :=
  ⟨by simp [State.init, printedRaces], rfl⟩

variable [DecidableEq α] (less : Race α → Race α → Bool)

section Step

variable (self : Nat) (req : Request α) (s : State α)

/-- A call prints the race set after it when it reports a race, and no race list otherwise. -/
theorem printedRaces_step :
    printedRaces (step less self req s).output =
      printedRaces s.output ++ if req.isReport then [(step less self req s).races] else [] := by
  cases req with
  | pushFunction f => simp [step, pushFunction, printedRaces, Output.races?, Request.isReport]
  | popFunction f =>
    rw [step, popFunction_eq]
    split <;> simp [printedRaces, Output.races?, Request.isReport]
  | reportRaceOnRead | reportRaceOnWrite =>
    simp [step, reportRaceOnRead, reportRaceOnWrite, reportRace, printedRaces, Output.races?,
      Request.isReport]

theorem races_step_of_not_isReport (h : req.isReport = false) :
    (step less self req s).races = s.races := by
  cases req with
  | pushFunction f => rfl
  | popFunction f =>
    rw [step, popFunction_eq]
    split <;> rfl
  | reportRaceOnRead | reportRaceOnWrite => cases h

end Step

theorem PrintedAgrees.step {s : State α} (h : PrintedAgrees s) (self : Nat) (req : Request α) :
    PrintedAgrees (step less self req s) := by
  unfold PrintedAgrees
  rw [printedRaces_step]
  cases hr : req.isReport
  · -- no race list printed, and the set as it was
    simpa [races_step_of_not_isReport less self req s hr] using h
  · refine ⟨fun rs hrs r hr => ?_, by simp⟩
    rcases List.mem_append.1 hrs with hrs | hrs
    · exact (races_step less self req s).1 r (h.1 rs hrs r hr)
    · rw [if_pos rfl, List.mem_singleton] at hrs
      rwa [hrs] at hr

theorem PrintedAgrees.run {s : State α} (h : PrintedAgrees s) :
    ∀ calls : List (Nat × Request α), PrintedAgrees (run less s calls)
  | [] => h
  | c :: calls => (h.step less c.1 c.2).run calls

/-- A run prints one race list per report. -/
theorem length_printedRaces_run : ∀ (s : State α) (calls : List (Nat × Request α)),
    (printedRaces (run less s calls).output).length =
      (printedRaces s.output).length + (calls.filter (·.2.isReport)).length
  | s, [] => rfl
  | s, c :: calls => by
    rw [run_cons, length_printedRaces_run _ calls, printedRaces_step, List.filter_cons]
    split <;> simp [Nat.add_assoc, Nat.add_comm 1]

/-- Along every sequence of calls from start-up, the run-time prints one race list per report;
the list printed last is the race set at the end, the empty set when no race list was printed;
and every record of every list printed is still in the set. -/
theorem printed_races_run (calls : List (Nat × Request α)) :
    (printedRaces (run less State.init calls).output).length =
        (calls.filter (·.2.isReport)).length ∧
      (printedRaces (run less State.init calls).output).getLast?.getD [] =
        (run less State.init calls).races ∧
      ∀ rs ∈ printedRaces (run less State.init calls).output, ∀ r ∈ rs,
        r ∈ (run less State.init calls).races := by
  have h := printedAgrees_init.run less calls
  refine ⟨?_, h.2, h.1⟩
  rw [length_printedRaces_run]
  simp [State.init, printedRaces]

end Etsan

end EmbedSanitizer
