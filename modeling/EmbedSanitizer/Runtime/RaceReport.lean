import Mathlib.Algebra.Group.Nat.Basic
import Mathlib.Logic.Function.Basic

/-!
# The run-time: call stacks and race records

`race_report.h` keeps, for every thread, the stack of the instrumented functions it is in, and
the set of races found. `pushFunction` and `popFunction`, which the entry and exit probes call,
push and pop the stack of the calling thread; `reportRaceOnRead` and `reportRaceOnWrite` record
a race with the calling thread's stack as its trace.

The stacks are kept in one map keyed by `(unsigned int)pthread_self()`: a thread's `pthread_t`
modulo `2 ^ 32` (`threadKey`). A call into the run-time changes the stack of its own key only
(`callStack_step`), so after any sequence of calls the stack at a key is the one the calls of that
key build (`callStack_run`), and the calls of other keys can be left out (`callStack_run_filter`).
Where `pthread_t` is wider than 32 bits, two threads can share a key, and with it a stack
(`distinct_threads_share_stack`).

A call leaves the race records as they are, or inserts the race of the calling thread
(`races_step_cases`). When `race_compare` is a strict order, as `std::set` requires, the records
stay in increasing order (`pairwise_races_run`), so no two of them are equivalent, and an insert
leaves the race or a record equivalent to it in the set (`exists_equiv_insertRace`).

Here each call is one step. `races.insert` and the loop of `printRaces()` hold no lock, so a
report is not one step of the program: `Runtime.Steps` splits it at its locks and shows that a
run in which no two reports overlap has the effect of these steps. The check and the `pop_back`
of `popFunction` run after `stackFrameLock` is released, which matters only when two threads
share a key.
-/

namespace EmbedSanitizer

namespace Etsan

variable {α : Type}

/-- `(unsigned int)pthread_self()`: the key of a thread's stack, its `pthread_t` modulo
`2 ^ 32`. -/
def threadKey (self : Nat) : Nat := self % 2 ^ 32

/-- A race record: `Race race(tid, lineNo, accessType, objName, fileName)` and its `trace`,
modelled from the call sites (`race.h` is not among the sources). Names are `char *`, compared as
pointers. -/
structure Race (α : Type) where
  tid : Nat
  lineNo : Int
  accessType : String
  objName : α
  fileName : α
  trace : List α
  deriving DecidableEq, Repr

/-- What the run-time prints. -/
inductive Output (α : Type) where
  /-- `printf("EmbedSanitizer: function entry: %s\n", funcName)`. -/
  | functionEntry (funcName : α)
  /-- `std::cout << "Something wrong with Function Stack: " << funcName << "\n"`. -/
  | stackError (funcName : α)
  /-- `printRaces()`, of the races recorded at the time. -/
  | races (rs : List (Race α))
  deriving DecidableEq, Repr

/-- The text of an output, given the string each pointer points to and the message
`createRaceMessage` (in `race.h`, not among the sources) makes of the races. -/
def Output.text (str : α → String) (raceMessage : List (Race α) → String) : Output α → String
  | .functionEntry f => "EmbedSanitizer: function entry: " ++ str f ++ "\n"
  | .stackError f => "Something wrong with Function Stack: " ++ str f ++ "\n"
  | .races rs => "EmbedSanitizer: races: " ++ raceMessage rs ++ "\n"

/-- Whether an output is the error of `popFunction`. -/
def Output.isStackError : Output α → Bool
  | .stackError _ => true
  | _ => false

/-- The shared state of the run-time. `callStack` is read and written only through
`operator[]`, which makes an empty vector for a key it has not seen: it is the vector at each
key. `races` is the `std::set<Race, race_compare>`, in its order; `output` is what has been
printed. -/
structure State (α : Type) where
  callStack : Nat → List α
  races : List (Race α)
  output : List (Output α)

/-- The state at start-up. -/
def State.init : State α := ⟨fun _ => [], [], []⟩

/-- `races.insert(race)`, with `less` the order `race_compare` (in `race.h`, not among the
sources): the set is kept in increasing order, and a race equivalent to one in it is not
inserted. -/
def insertRace (less : Race α → Race α → Bool) (race : Race α) : List (Race α) → List (Race α)
  | [] => [race]
  | r :: rs =>
    if less race r then race :: r :: rs
    else if less r race then r :: insertRace less race rs
    else r :: rs

/-- `pushFunction(funcName)`, called by the thread whose `pthread_t` is `self`. -/
def pushFunction (self : Nat) (funcName : α) (s : State α) : State α :=
  let tid := threadKey self
  { s with
    callStack := Function.update s.callStack tid (s.callStack tid ++ [funcName])
    output := s.output ++ [.functionEntry funcName] }

/-- `getStack(tid)`. -/
def getStack (tid : Nat) (s : State α) : List α := s.callStack tid

/-- `printStack()`: a line for each frame of the calling thread's stack, outermost first, indented
by a `depth` that starts at `1` and grows by `4` from line to line. -/
def printStack (str : α → String) (self : Nat) (s : State α) : String :=
  ((s.callStack (threadKey self)).foldl (fun (acc : String × Nat) func =>
    (acc.1 ++ String.mk (List.replicate acc.2 ' ') ++ " \x27--->" ++ str func ++ "(...)" ++ "\n",
      acc.2 + 4)) ("", 1)).1

/-- `reportRaceOnRead` and `reportRaceOnWrite`: record the race of the calling thread, with the
stack of its key as the trace, then print the races (`printRaces()`). -/
def reportRace (less : Race α → Race α → Bool) (accessType : String) (self : Nat) (lineNo : Int)
    (objName fileName : α) (s : State α) : State α :=
  let tid := threadKey self
  let race : Race α := ⟨tid, lineNo, accessType, objName, fileName, getStack tid s⟩
  let races := insertRace less race s.races
  { s with races := races, output := s.output ++ [.races races] }

/-- `reportRaceOnRead(lineNo, objName, fileName)`. -/
def reportRaceOnRead (less : Race α → Race α → Bool) (self : Nat) (lineNo : Int)
    (objName fileName : α) (s : State α) : State α :=
  reportRace less "read" self lineNo objName fileName s

/-- `reportRaceOnWrite(lineNo, objName, fileName)`. -/
def reportRaceOnWrite (less : Race α → Race α → Bool) (self : Nat) (lineNo : Int)
    (objName fileName : α) (s : State α) : State α :=
  reportRace less "write" self lineNo objName fileName s

/-- A call into the run-time. -/
inductive Request (α : Type) where
  | pushFunction (funcName : α)
  | popFunction (funcName : α)
  | reportRaceOnRead (lineNo : Int) (objName fileName : α)
  | reportRaceOnWrite (lineNo : Int) (objName fileName : α)
  deriving DecidableEq, Repr

/-- Whether a call reports a race. -/
def Request.isReport : Request α → Bool
  | .reportRaceOnRead .. | .reportRaceOnWrite .. => true
  | _ => false

variable [DecidableEq α]

/-- `popFunction(funcName)`: pop the top of the calling thread's stack when it is the pointer
`funcName`, and print an error otherwise. -/
def popFunction (self : Nat) (funcName : α) (s : State α) : State α :=
  let tid := threadKey self
  let stackFrame := s.callStack tid
  if stackFrame.length ≠ 0 ∧ stackFrame.getLast? = some funcName then
    { s with callStack := Function.update s.callStack tid stackFrame.dropLast }
  else
    { s with output := s.output ++ [.stackError funcName] }

/-- The call `req`, made by the thread whose `pthread_t` is `self`. -/
def step (less : Race α → Race α → Bool) (self : Nat) : Request α → State α → State α
  | .pushFunction f => pushFunction self f
  | .popFunction f => popFunction self f
  | .reportRaceOnRead l o f => reportRaceOnRead less self l o f
  | .reportRaceOnWrite l o f => reportRaceOnWrite less self l o f

/-- Calls by any threads, one after another. -/
def run (less : Race α → Race α → Bool) (s : State α) (calls : List (Nat × Request α)) :
    State α :=
  calls.foldl (fun s c => step less c.1 c.2 s) s

@[simp] theorem run_nil (less : Race α → Race α → Bool) (s : State α) : run less s [] = s := rfl

@[simp] theorem run_cons (less : Race α → Race α → Bool) (s : State α) (c : Nat × Request α)
    (calls : List (Nat × Request α)) :
    run less s (c :: calls) = run less (step less c.1 c.2 s) calls := rfl

/-! ### One key -/

/-- What a call does to the stack of its own key. -/
def Request.onStack (req : Request α) (st : List α) : List α :=
  match req with
  | .pushFunction f => st ++ [f]
  | .popFunction f => if st.getLast? = some f then st.dropLast else st
  | _ => st

/-- The stack errors a call prints, given the stack of its key. -/
def Request.stackErrors (req : Request α) (st : List α) : List (Output α) :=
  match req with
  | .popFunction f => if st.getLast? = some f then [] else [.stackError f]
  | _ => []

/-- The stack of a key, and the stack errors printed, along the calls `reqs` of that key from the
stack `st`. -/
def keyRun : List α → List (Request α) → List α × List (Output α)
  | st, [] => (st, [])
  | st, req :: reqs =>
    ((keyRun (req.onStack st) reqs).1, req.stackErrors st ++ (keyRun (req.onStack st) reqs).2)

theorem keyRun_append (st : List α) (reqs reqs' : List (Request α)) :
    keyRun st (reqs ++ reqs') =
      ((keyRun (keyRun st reqs).1 reqs').1, (keyRun st reqs).2 ++ (keyRun (keyRun st reqs).1 reqs').2) := by
  induction reqs generalizing st with
  | nil => simp [keyRun]
  | cons req reqs ih => simp [keyRun, ih]

section Step

variable (less : Race α → Race α → Bool) (self : Nat)

/-- `popFunction` pops the stack of its key when the top is the pointer, and prints the error
otherwise: the size check only guards `back()`. -/
theorem popFunction_eq (f : α) (s : State α) :
    popFunction self f s = if (s.callStack (threadKey self)).getLast? = some f then
        { s with callStack :=
          Function.update s.callStack (threadKey self) (s.callStack (threadKey self)).dropLast }
      else { s with output := s.output ++ [.stackError f] } := by
  have h : ∀ st : List α, (st.length ≠ 0 ∧ st.getLast? = some f) ↔ st.getLast? = some f :=
    fun st => by cases st <;> simp
  simp only [popFunction, h]

/-- A call changes the stack of its own key only, as `Request.onStack` says. -/
theorem callStack_step (req : Request α) (s : State α) (k : Nat) :
    (step less self req s).callStack k =
      if k = threadKey self then req.onStack (s.callStack k) else s.callStack k := by
  cases req with
  | pushFunction f =>
    simp only [step, pushFunction, Function.update_apply, Request.onStack]
    split <;> simp_all
  | popFunction f =>
    rw [step, popFunction_eq]
    by_cases hk : k = threadKey self
    · subst hk
      split <;> simp [Request.onStack, *]
    · split <;> simp [Function.update_apply, hk]
  | reportRaceOnRead | reportRaceOnWrite => split <;> rfl

/-- A call prints a stack error only when it is an exit whose function is not on top of the
stack of its key. -/
theorem output_filter_step (req : Request α) (s : State α) :
    (step less self req s).output.filter Output.isStackError =
      s.output.filter Output.isStackError ++ req.stackErrors (s.callStack (threadKey self)) := by
  cases req with
  | pushFunction f => simp [step, pushFunction, Output.isStackError, Request.stackErrors]
  | popFunction f =>
    simp only [step, popFunction_eq, Request.stackErrors]
    split <;> simp [Output.isStackError]
  | reportRaceOnRead | reportRaceOnWrite =>
    simp [step, reportRaceOnRead, reportRaceOnWrite, reportRace, Output.isStackError,
      Request.stackErrors]

end Step

/-- After any interleaving of calls, the stack at a key is the one the calls of that key build. -/
theorem callStack_run (less : Race α → Race α → Bool) (k : Nat) :
    ∀ (s : State α) (calls : List (Nat × Request α)),
      (run less s calls).callStack k =
        (keyRun (s.callStack k) ((calls.filter fun c => threadKey c.1 = k).map (·.2))).1
  | s, [] => rfl
  | s, c :: calls => by
    rw [run_cons, callStack_run less k _ calls, callStack_step, List.filter_cons]
    by_cases hk : k = threadKey c.1
    · simp [hk, keyRun]
    · simp [hk, Ne.symm hk]

/-- Along calls of one key, the stack errors printed are those of `keyRun`. -/
theorem output_filter_run (less : Race α → Race α → Bool) (t : Nat) :
    ∀ (s : State α) (calls : List (Nat × Request α)), (∀ c ∈ calls, threadKey c.1 = t) →
      (run less s calls).output.filter Output.isStackError =
        s.output.filter Output.isStackError ++ (keyRun (s.callStack t) (calls.map (·.2))).2
  | s, [], _ => by simp [keyRun]
  | s, c :: calls, hcalls => by
    have hc : threadKey c.1 = t := hcalls c (List.mem_cons_self _ _)
    rw [run_cons, output_filter_run less t _ calls fun c' h => hcalls c' (List.mem_cons_of_mem _ h),
      output_filter_step, callStack_step, if_pos hc.symm, hc]
    simp [keyRun]

/-! ### Race records -/

section Races

variable (less : Race α → Race α → Bool) (race : Race α)

omit [DecidableEq α] in
theorem mem_insertRace_of_mem {r : Race α} : ∀ {rs : List (Race α)}, r ∈ rs → r ∈ insertRace less race rs
  | [], h => absurd h (List.not_mem_nil _)
  | x :: xs, h => by
    unfold insertRace
    split
    · exact List.mem_cons_of_mem _ h
    · split
      · rcases List.mem_cons.1 h with rfl | h
        exacts [List.mem_cons_self _ _, List.mem_cons_of_mem _ (mem_insertRace_of_mem h)]
      · exact h

omit [DecidableEq α] in
theorem mem_insertRace {r : Race α} : ∀ {rs : List (Race α)}, r ∈ insertRace less race rs →
    r = race ∨ r ∈ rs
  | [], h => .inl (List.mem_singleton.1 h)
  | x :: xs, h => by
    unfold insertRace at h
    split at h
    · exact List.mem_cons.1 h
    · split at h
      · rcases List.mem_cons.1 h with rfl | h
        · exact .inr (List.mem_cons_self _ _)
        · exact (mem_insertRace h).imp_right (List.mem_cons_of_mem _)
      · exact .inr h

omit [DecidableEq α] in
/-- `insert` into records in increasing order keeps them so, when the order is transitive. -/
theorem pairwise_insertRace (htrans : ∀ a b c, less a b = true → less b c = true → less a c = true) :
    ∀ {rs : List (Race α)}, rs.Pairwise (less · · = true) →
      (insertRace less race rs).Pairwise (less · · = true)
  | [], _ => List.pairwise_singleton _ _
  | r :: rs, h => by
    obtain ⟨hr, hrs⟩ := List.pairwise_cons.1 h
    unfold insertRace
    split
    · -- the race goes in front of `r`, and so of everything behind it
      rename_i hlt
      refine List.Pairwise.cons (fun x hx => ?_) h
      rcases List.mem_cons.1 hx with rfl | hx
      exacts [hlt, htrans _ _ _ hlt (hr x hx)]
    · split
      · rename_i hgt
        refine List.Pairwise.cons (fun x hx => ?_) (pairwise_insertRace htrans hrs)
        rcases mem_insertRace less race hx with rfl | hx
        exacts [hgt, hr x hx]
      · exact h

omit [DecidableEq α] in
/-- After `insert`, the records hold the race or one equivalent to it, when the order is
irreflexive. -/
theorem exists_equiv_insertRace (hirr : ∀ r, less r r = false) :
    ∀ rs : List (Race α), ∃ r ∈ insertRace less race rs, less r race = false ∧ less race r = false
  | [] => ⟨race, List.mem_singleton_self _, hirr race, hirr race⟩
  | r :: rs => by
    unfold insertRace
    split
    · exact ⟨race, List.mem_cons_self _ _, hirr race, hirr race⟩
    · rename_i hlt
      split
      · obtain ⟨x, hx, h⟩ := exists_equiv_insertRace hirr rs
        exact ⟨x, List.mem_cons_of_mem _ hx, h⟩
      · rename_i hgt
        exact ⟨r, List.mem_cons_self _ _, Bool.eq_false_iff.2 hgt, Bool.eq_false_iff.2 hlt⟩

/-- What a call does to the race records: nothing, or `races.insert` of the race of the calling
thread, with the stack of its key as the trace. -/
theorem races_step_cases (self : Nat) (req : Request α) (s : State α) :
    (step less self req s).races = s.races ∨ ∃ accessType lineNo objName fileName,
      (step less self req s).races = insertRace less
        ⟨threadKey self, lineNo, accessType, objName, fileName, s.callStack (threadKey self)⟩ s.races := by
  cases req with
  | pushFunction f => exact .inl rfl
  | popFunction f =>
    refine .inl ?_
    simp only [step, popFunction]
    split <;> rfl
  | reportRaceOnRead l o f => exact .inr ⟨"read", l, o, f, rfl⟩
  | reportRaceOnWrite l o f => exact .inr ⟨"write", l, o, f, rfl⟩

/-- A call keeps every race record; a record it adds is made by the calling thread, with the
stack of its key as the trace. -/
theorem races_step (self : Nat) (req : Request α) (s : State α) :
    (∀ r ∈ s.races, r ∈ (step less self req s).races) ∧
      ∀ r ∈ (step less self req s).races, r ∈ s.races ∨
        r.tid = threadKey self ∧ r.trace = s.callStack (threadKey self) := by
  rcases races_step_cases less self req s with h | ⟨_, _, _, _, h⟩ <;> rw [h]
  · exact ⟨fun r h => h, fun r h => .inl h⟩
  · refine ⟨fun r h => mem_insertRace_of_mem less _ h, fun r h => ?_⟩
    rcases mem_insertRace less _ h with rfl | h
    exacts [.inr ⟨rfl, rfl⟩, .inl h]

/-- A run keeps every race record, and each record it adds was made by a call of a thread with
its key, with the stack of that key just before the call as the trace. -/
theorem races_run : ∀ (s : State α) (calls : List (Nat × Request α)),
    (∀ r ∈ s.races, r ∈ (run less s calls).races) ∧
      ∀ r ∈ (run less s calls).races, r ∈ s.races ∨ ∃ pre c post, calls = pre ++ c :: post ∧
        threadKey c.1 = r.tid ∧ r.trace = (run less s pre).callStack r.tid
  | s, [] => ⟨fun _ h => h, fun _ h => .inl h⟩
  | s, c :: calls => by
    obtain ⟨hkeep, hnew⟩ := races_step less c.1 c.2 s
    obtain ⟨ihkeep, ihnew⟩ := races_run (step less c.1 c.2 s) calls
    refine ⟨fun r hr => ihkeep r (hkeep r hr), fun r hr => ?_⟩
    rcases ihnew r hr with hr' | ⟨pre, c', post, rfl, hc', htr⟩
    · rcases hnew r hr' with h | ⟨htid, htr⟩
      · exact .inl h
      · exact .inr ⟨[], c, calls, rfl, htid.symm, by rw [htr, htid]; rfl⟩
    · exact .inr ⟨c :: pre, c', post, rfl, hc', htr⟩

/-- A run keeps the records in increasing order, when the order is transitive. -/
theorem pairwise_races_run (htrans : ∀ a b c, less a b = true → less b c = true → less a c = true) :
    ∀ (s : State α) (calls : List (Nat × Request α)), s.races.Pairwise (less · · = true) →
      (run less s calls).races.Pairwise (less · · = true)
  | s, [], h => h
  | s, c :: calls, h => by
    refine pairwise_races_run htrans _ calls ?_
    rcases races_step_cases less c.1 c.2 s with hs | ⟨_, _, _, _, hs⟩ <;> rw [hs]
    exacts [h, pairwise_insertRace less _ htrans h]

end Races

/-! ### Threads -/

/-- The calls of threads with another key leave the stack at a key alone. -/
theorem callStack_run_filter (less : Race α → Race α → Bool) (s : State α)
    (calls : List (Nat × Request α)) (k : Nat) :
    (run less s calls).callStack k =
      (run less s (calls.filter fun c => threadKey c.1 = k)).callStack k := by
  simp only [callStack_run, List.filter_filter, Bool.and_self]

/-- Where `pthread_t` is 64 bits wide, the threads `5` and `2 ^ 32 + 5` differ but share a key: a
function entry of the second stands on the stack of the first, and in the trace of its race
report. -/
theorem distinct_threads_share_stack :
    (5 : Nat) ≠ 2 ^ 32 + 5 ∧ 2 ^ 32 + 5 < 2 ^ 64 ∧
      (run (fun _ _ => false) State.init [(2 ^ 32 + 5, .pushFunction (1 : Nat))]).callStack
        (threadKey 5) = [1] ∧
      (run (fun _ _ => false) State.init
        [(2 ^ 32 + 5, .pushFunction (1 : Nat)), (5, .reportRaceOnRead 10 2 3)]).races =
        [⟨threadKey 5, 10, "read", 2, 3, [1]⟩] :=
  ⟨by simp, by simp, rfl, rfl⟩

end Etsan

end EmbedSanitizer
