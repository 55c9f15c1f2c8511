import EmbedSanitizer.Runtime.RaceReport

/-!
# The stack of a thread along bracketed runs

The entry probe of an instrumented function calls `pushFunction` with its name, and every exit
probe calls `popFunction` with it. An entry puts its name on top of the stack of its key; an exit
pops the top exactly when the top is the same pointer, and otherwise prints
`Something wrong with Function Stack` and changes nothing else (`popFunction_of_top`,
`popFunction_of_not_top`).

A run is bracketed when every exit closes the innermost open entry of the same function
(`Bracketed`). The open frames after a prefix of such a run are the entries not yet closed, in
the order they were made (`OpenAfter`); every prefix has them (`exists_openAfter`). Along calls of
one key whose requests form such a prefix, no stack error is printed, and the stack of the key,
`getStack` and `printStack` show exactly the open frames on top of the frames there before,
outermost first (`callStack_open_frames`).
-/

namespace EmbedSanitizer

namespace Etsan

variable {α : Type}

/-! ### Bracketed runs -/

/-- The calls of one thread when every function it enters returns or unwinds through its exit
probe: each `popFunction` closes the innermost open `pushFunction` of the same name; race
reports may come anywhere. -/
inductive Bracketed : List (Request α) → Prop
  | nil : Bracketed []
  | call (f : α) {body rest : List (Request α)} : Bracketed body → Bracketed rest →
      Bracketed (.pushFunction f :: body ++ .popFunction f :: rest)
  | report {req : Request α} {rest : List (Request α)} : req.isReport = true → Bracketed rest →
      Bracketed (req :: rest)

/-- The functions a thread is in after the calls `reqs`, a prefix of a bracketed run: the
entries not yet closed, outermost first. -/
inductive OpenAfter : List (Request α) → List α → Prop
  | closed {reqs : List (Request α)} : Bracketed reqs → OpenAfter reqs []
  | enter {reqs : List (Request α)} {fs : List α} (f : α) {body : List (Request α)} :
      OpenAfter reqs fs → Bracketed body → OpenAfter (reqs ++ .pushFunction f :: body) (fs ++ [f])

theorem Bracketed.append {reqs reqs' : List (Request α)} (h : Bracketed reqs)
    (h' : Bracketed reqs') : Bracketed (reqs ++ reqs') := by
  induction h with
  | nil => exact h'
  | call f _ _ _ ih => simpa using Bracketed.call f ‹_› ih
  | report hr _ ih => exact .report hr ih

theorem OpenAfter.bracketed_append {pre reqs : List (Request α)} {fs : List α}
    (hpre : Bracketed pre) (h : OpenAfter reqs fs) : OpenAfter (pre ++ reqs) fs := by
  induction h with
  | closed h => exact .closed (hpre.append h)
  | enter f _ hb ih => simpa using ih.enter f hb

theorem OpenAfter.push (f : α) {reqs : List (Request α)} {fs : List α} (h : OpenAfter reqs fs) :
    OpenAfter (.pushFunction f :: reqs) (f :: fs) := by
  induction h with
  | closed h => exact .enter f (.closed .nil) h
  | enter g _ hb ih => simpa using ih.enter g hb

/-- Every prefix of a bracketed run leaves some frames open. -/
theorem exists_openAfter {reqs post : List (Request α)} (h : Bracketed (reqs ++ post)) :
    ∃ fs, OpenAfter reqs fs := by
  generalize hr : reqs ++ post = run at h
  induction h generalizing reqs post with
  | nil =>
    obtain ⟨rfl, -⟩ := List.append_eq_nil.1 hr
    exact ⟨[], .closed .nil⟩
  | @call f body rest hb hrest ihb ihr =>
    rcases reqs with _ | ⟨r, reqs⟩
    · exact ⟨[], .closed .nil⟩
    rw [List.cons_append, List.cons_append, List.cons.injEq] at hr
    obtain ⟨rfl, hr⟩ := hr
    -- the prefix ends inside the body, or after the exit that closes `f`
    rcases List.append_eq_append_iff.1 hr with ⟨mid, hbody, -⟩ | ⟨mid, rfl, hmid⟩
    · obtain ⟨fs, hfs⟩ := ihb hbody.symm
      exact ⟨f :: fs, hfs.push f⟩
    · rcases mid with _ | ⟨r, mid⟩
      · obtain ⟨fs, hfs⟩ := ihb (show (body ++ []) ++ [] = body by simp)
        exact ⟨f :: fs, hfs.push f⟩
      · rw [List.cons_append, List.cons.injEq] at hmid
        obtain ⟨rfl, hrest⟩ := hmid
        obtain ⟨fs, hfs⟩ := ihr hrest.symm
        exact ⟨fs, by simpa using hfs.bracketed_append (Bracketed.call f hb .nil)⟩
  | @report req rest hrep hrest ih =>
    rcases reqs with _ | ⟨r, reqs⟩
    · exact ⟨[], .closed .nil⟩
    rw [List.cons_append, List.cons.injEq] at hr
    obtain ⟨rfl, hr⟩ := hr
    obtain ⟨fs, hfs⟩ := ih hr
    exact ⟨fs, by simpa using hfs.bracketed_append (Bracketed.report hrep .nil)⟩

/-! ### The stack of one key -/

section Key

variable [DecidableEq α]

@[simp] theorem Request.onStack_popFunction_top (f : α) (st : List α) :
    (Request.popFunction f).onStack (st ++ [f]) = st := by
  simp [Request.onStack]

@[simp] theorem Request.stackErrors_popFunction_top (f : α) (st : List α) :
    (Request.popFunction f).stackErrors (st ++ [f]) = [] := by
  simp [Request.stackErrors]

theorem Request.onStack_of_isReport {req : Request α} (h : req.isReport = true) (st : List α) :
    req.onStack st = st ∧ req.stackErrors st = [] := by
  cases req <;> simp_all [Request.isReport, Request.onStack, Request.stackErrors]

/-- A bracketed run leaves the stack as it found it and prints no stack error. -/
theorem keyRun_bracketed {reqs : List (Request α)} (h : Bracketed reqs) (st : List α) :
    keyRun st reqs = (st, []) := by
  induction h generalizing st with
  | nil => rfl
  | call f _ _ ihb ihr =>
    simp [keyRun, keyRun_append, Request.onStack, Request.stackErrors, ihb, ihr]
  | report hr _ ih =>
    obtain ⟨h1, h2⟩ := Request.onStack_of_isReport hr st
    simp [keyRun, h1, h2, ih]

/-- After a prefix of a bracketed run, the open frames stand on top of the stack, and no stack
error has been printed. -/
theorem keyRun_openAfter {reqs : List (Request α)} {fs : List α} (h : OpenAfter reqs fs)
    (st : List α) : keyRun st reqs = (st ++ fs, []) := by
  induction h generalizing st with
  | closed h => simpa using keyRun_bracketed h st
  | enter f _ hb ih =>
    simp [keyRun_append, ih, keyRun, Request.onStack, Request.stackErrors, keyRun_bracketed hb]

end Key

/-! ### Printing the stack -/

/-- The line the loop of `printStack()` (`race_report.h`, lines 109 to 115) writes for the frame
`f` at nesting `n`, the outermost frame at `0`: `std::string msg(depth, ' ')` with `depth`
`1 + 4 * n`, then `" '--->" << func << "(...)" << std::endl`. -/
def frameLine (str : α → String) (n : Nat) (f : α) : String :=
  String.mk (List.replicate (1 + 4 * n) ' ') ++ " \x27--->" ++ str f ++ "(...)" ++ "\n"

/-- The lines of the frames `fs`, the first at nesting `n`. -/
def frameLines (str : α → String) : Nat → List α → String
  | _, [] => ""
  | n, f :: fs => frameLine str n f ++ frameLines str (n + 1) fs

theorem foldl_printStack (str : α → String) : ∀ (fs : List α) (acc : String) (n : Nat),
    (fs.foldl (fun (acc : String × Nat) func =>
      (acc.1 ++ String.mk (List.replicate acc.2 ' ') ++ " \x27--->" ++ str func ++ "(...)" ++ "\n",
        acc.2 + 4)) (acc, 1 + 4 * n)).1 = acc ++ frameLines str n fs
  | [], acc, _ => (String.append_empty acc).symm
  | f :: fs, acc, n => by
    rw [List.foldl_cons, show 1 + 4 * n + 4 = 1 + 4 * (n + 1) by omega, foldl_printStack str fs]
    simp only [frameLines, frameLine, String.append_assoc]

/-- `printStack` writes a line for each frame of the calling thread's stack, outermost first. -/
theorem printStack_eq (str : α → String) (self : Nat) (s : State α) :
    printStack str self s = frameLines str 0 (s.callStack (threadKey self)) := by
  simpa using foldl_printStack str (s.callStack (threadKey self)) "" 0

/-! ### Entries and exits -/

section Calls

variable [DecidableEq α]

/-- An exit whose function is on top of the stack of its key pops it, and changes nothing
else. -/
theorem popFunction_of_top {self : Nat} {f : α} {s : State α} {st : List α}
    (h : s.callStack (threadKey self) = st ++ [f]) :
    popFunction self f s = { s with callStack := Function.update s.callStack (threadKey self) st } := by
  simp [popFunction_eq, h]

/-- An exit whose function is not on top of the stack of its key prints the stack error, and
changes nothing else. -/
theorem popFunction_of_not_top {self : Nat} {f : α} {s : State α}
    (h : ∀ st, s.callStack (threadKey self) ≠ st ++ [f]) :
    popFunction self f s = { s with output := s.output ++ [.stackError f] } := by
  rw [popFunction_eq, if_neg]
  intro hl
  obtain ⟨st, hst⟩ := List.getLast?_eq_some_iff.1 hl
  exact h st hst

/-- Along the calls of one key, the stack of the key is the list of the entries not yet closed,
in the order they were made: an entry pushes its name, and an exit pops the top when the top is
the same pointer and otherwise only prints the stack error. After a prefix of a bracketed run,
and every prefix of one is such, no stack error has been printed, and the stack, `getStack` and
`printStack` give the open frames, outermost first, on top of the frames there before. -/
theorem callStack_open_frames (less : Race α → Race α → Bool) (str : α → String) (s : State α) :
    (∀ self f, (pushFunction self f s).callStack (threadKey self) =
        s.callStack (threadKey self) ++ [f]) ∧
      (∀ self f st, s.callStack (threadKey self) = st ++ [f] →
        popFunction self f s = { s with callStack := Function.update s.callStack (threadKey self) st }) ∧
      (∀ self f, (∀ st, s.callStack (threadKey self) ≠ st ++ [f]) →
        popFunction self f s = { s with output := s.output ++ [.stackError f] }) ∧
      (∀ reqs post : List (Request α), Bracketed (reqs ++ post) → ∃ fs, OpenAfter reqs fs) ∧
      ∀ (t : Nat) (calls : List (Nat × Request α)) (fs : List α), (∀ c ∈ calls, threadKey c.1 = t) →
        OpenAfter (calls.map (·.2)) fs →
          (run less s calls).output.filter Output.isStackError =
              s.output.filter Output.isStackError ∧
            getStack t (run less s calls) = s.callStack t ++ fs ∧
            ∀ self, threadKey self = t →
              printStack str self (run less s calls) = frameLines str 0 (s.callStack t ++ fs) := by
  refine ⟨fun self f => by simp [pushFunction], fun _ _ _ h => popFunction_of_top h,
    fun _ _ h => popFunction_of_not_top h, fun _ _ h => exists_openAfter h, ?_⟩
  intro t calls fs hcalls hopen
  have hkey : (calls.filter fun c => threadKey c.1 = t) = calls :=
    List.filter_eq_self.2 fun c hc => by simpa using hcalls c hc
  have hstack : (run less s calls).callStack t = s.callStack t ++ fs := by
    rw [callStack_run, hkey, keyRun_openAfter hopen]
  refine ⟨?_, hstack, fun self hself => ?_⟩
  · rw [output_filter_run less t s calls hcalls, keyRun_openAfter hopen, List.append_nil]
  · rw [printStack_eq, hself, hstack]

/-- Thread `7` enters `1` and `2`, reports a race, leaves `2` and enters `3`. -/
def nestedCalls : List (Nat × Request Nat) :=
  [(7, .pushFunction 1), (7, .pushFunction 2), (7, .reportRaceOnRead 40 5 6), (7, .popFunction 2),
    (7, .pushFunction 3)]

/-- In `nestedCalls` the frames `1` and `3` are open at the end. -/
theorem callStack_open_frames_nested :
    (∀ c ∈ nestedCalls, threadKey c.1 = 7) ∧ OpenAfter (nestedCalls.map (·.2)) [1, 3] ∧
      getStack 7 (run (fun _ _ => false) State.init nestedCalls) =
        (State.init : State Nat).callStack 7 ++ [1, 3] :=
  have hkey : ∀ c ∈ nestedCalls, threadKey c.1 = 7 := by decide
  have hrep : Bracketed [Request.reportRaceOnRead (40 : Int) (5 : Nat) 6] := .report rfl .nil
  have hb : Bracketed [Request.pushFunction (2 : Nat), .reportRaceOnRead 40 5 6, .popFunction 2] :=
    .call 2 hrep .nil
  have hopen : OpenAfter (nestedCalls.map (·.2)) [1, 3] :=
    OpenAfter.enter 3 (OpenAfter.enter 1 (.closed .nil) hb) .nil
  ⟨hkey, hopen, ((callStack_open_frames (fun _ _ => false) toString State.init).2.2.2.2 7
    nestedCalls [1, 3] hkey hopen).2.1⟩

end Calls

end Etsan

end EmbedSanitizer
