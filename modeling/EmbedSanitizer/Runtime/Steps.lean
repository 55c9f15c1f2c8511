import EmbedSanitizer.Runtime.Printed

/-!
# The run-time between its locks

`Etsan.run` takes each call into the run-time as one step, but `race_report.h` does not lock the
race set. `reportRaceOnRead` and `reportRaceOnWrite` take the stack under `stackFrameLock` in
`getStack`; then `races.insert(race)`, and the loop of `printRaces()` over the set that builds
the message, run with no lock held; only the `printf` of the message holds `racePrintLock`. Here
a report is the steps it takes between those points (`Event`): its start, up to `getStack`; the
`insert`; the loop, read as one snapshot of the set; and the `printf`. `pushFunction` and
`popFunction` stay one step each: their unlocked part reads and writes only the stack of the
caller's key.

When two reports overlap, the list printed last can miss a race of the set (the example after
`printed_races`), and on the real `std::set` two `insert`s at once are a data race.
In a run in which a report starts only while no other is in progress (`Config.apart`), the
steps of a report after its start touch nothing the other threads' `pushFunction` and
`popFunction` read or write, so the whole report can be moved to its start. Finishing the
report in progress (`Config.abs`) gives the stacks, race set, race lists printed and stack
errors (`State.view`) of the atomic run of the calls in the order they started
(`Config.view_abs_run`). The properties of the stacks, of the race set and of the race lists
printed carry over to such runs once every report has finished (`stacks_separate`,
`races_form_set`, `printed_races`).
-/

namespace EmbedSanitizer

namespace Etsan

variable {α : Type}

/-- The race a report by the thread `self` records, with `stack`, what `getStack` returned, as
its trace; `none` for the calls that report nothing. -/
def Request.race? (self : Nat) (stack : List α) : Request α → Option (Race α)
  | .reportRaceOnRead l o f => some ⟨threadKey self, l, "read", o, f, stack⟩
  | .reportRaceOnWrite l o f => some ⟨threadKey self, l, "write", o, f, stack⟩
  | _ => none

theorem race?_eq_none_iff {self : Nat} {stack : List α} {req : Request α} :
    req.race? self stack = none ↔ req.isReport = false := by
  cases req <;> simp [Request.race?, Request.isReport]

/-- Where a thread is in `reportRaceOnRead` or `reportRaceOnWrite` once `getStack` has returned:
before `races.insert(race)`, before the loop of `printRaces()`, or before the `printf` of the
message made of `rs`. -/
inductive Phase (α : Type) where
  | insert (race : Race α)
  | collect
  | print (rs : List (Race α))
  deriving DecidableEq, Repr

/-- A step of a thread: a call, which for a report runs up to `getStack`; and, inside a report,
the `insert`, the loop of `printRaces()` and its `printf`. -/
inductive Event (α : Type) where
  | call (req : Request α)
  | insert
  | collect
  | print
  deriving DecidableEq, Repr

/-- The call an event starts. -/
def Event.call? : Event α → Option (Request α)
  | .call req => some req
  | _ => none

/-- The calls a run makes, in the order they start. -/
def callsOf (evs : List (Nat × Event α)) : List (Nat × Request α) :=
  evs.filterMap fun e => e.2.call?.map (e.1, ·)

theorem callsOf_cons (self : Nat) (e : Event α) (evs : List (Nat × Event α)) :
    callsOf ((self, e) :: evs) = (e.call?.map (self, ·)).toList ++ callsOf evs := by
  cases e <;> rfl

/-- The shared state, and the threads inside a report with the step each takes next. -/
structure Config (α : Type) where
  st : State α
  reports : List (Nat × Phase α)

/-- Start-up: no thread is in a report. -/
def Config.init : Config α := ⟨State.init, []⟩

variable [DecidableEq α] (less : Race α → Race α → Bool)

theorem run_append (s : State α) (calls calls' : List (Nat × Request α)) :
    run less s (calls ++ calls') = run less (run less s calls) calls' :=
  List.foldl_append ..

/-- The rest of a report, from `ph` to its end, in one go. -/
def Phase.finish : Phase α → State α → State α
  | .insert race, s =>
    let races := insertRace less race s.races
    { s with races := races, output := s.output ++ [.races races] }
  | .collect, s => { s with output := s.output ++ [.races s.races] }
  | .print rs, s => { s with output := s.output ++ [.races rs] }

/-- The step `e` of the thread `self`, when the thread can take it. -/
def Config.step (self : Nat) (e : Event α) (cfg : Config α) : Option (Config α) :=
  let others := cfg.reports.filter (·.1 ≠ self)
  match e, cfg.reports.lookup self with
  | .call req, none =>
    match req.race? self (getStack (threadKey self) cfg.st) with
    | some race => some ⟨cfg.st, (self, .insert race) :: cfg.reports⟩
    | none => some ⟨Etsan.step less self req cfg.st, cfg.reports⟩
  | .insert, some (.insert race) =>
    some ⟨{ cfg.st with races := insertRace less race cfg.st.races }, (self, .collect) :: others⟩
  | .collect, some .collect => some ⟨cfg.st, (self, .print cfg.st.races) :: others⟩
  | .print, some (.print rs) =>
    some ⟨{ cfg.st with output := cfg.st.output ++ [.races rs] }, others⟩
  | _, _ => none

/-- The steps `evs`, one after another, as long as each can be taken. -/
def Config.run (cfg : Config α) : List (Nat × Event α) → Option (Config α)
  | [] => some cfg
  | (self, e) :: evs => (cfg.step less self e).bind fun cfg' => cfg'.run evs

/-- Whether, along the steps `evs`, at most one thread is inside a report at any time: a report
starts only while no other is in progress. -/
def Config.apart (cfg : Config α) : List (Nat × Event α) → Bool
  | [] => true
  | (self, e) :: evs =>
    match cfg.step less self e with
    | some cfg' => decide (cfg'.reports.length ≤ 1) && cfg'.apart evs
    | none => true

/-- The state once the reports in progress have run to their end. -/
def Config.abs (cfg : Config α) : State α :=
  cfg.reports.foldr (fun p s => p.2.finish less s) cfg.st

/-- What the properties of the run-time read of a state: the stacks, the race set, the race
lists printed and the stack errors printed. -/
def State.view (s : State α) :
    (Nat → List α) × List (Race α) × List (List (Race α)) × List (Output α) :=
  (s.callStack, s.races, printedRaces s.output, s.output.filter Output.isStackError)

/-! ### The atomic steps act through the view -/

/-- A report does what `Phase.finish` does from its first step on. -/
theorem step_of_race? {self : Nat} {req : Request α} {s : State α} {race : Race α}
    (h : req.race? self (getStack (threadKey self) s) = some race) :
    step less self req s = (Phase.insert race).finish less s := by
  cases req <;> cases h <;> rfl

/-- What a call does to the race set: the `insert` of its race, if it reports one. -/
theorem races_step_eq (self : Nat) (req : Request α) (s : State α) :
    (step less self req s).races = ((req.race? self (s.callStack (threadKey self))).map
      fun race => insertRace less race s.races).getD s.races := by
  cases h : req.race? self (s.callStack (threadKey self)) with
  | none => exact races_step_of_not_isReport less self req s (race?_eq_none_iff.1 h)
  | some race => rw [step_of_race? less h]; rfl

/-- A call acts on the view of a state through the view alone. -/
theorem view_step_congr {s t : State α} (h : s.view = t.view) (self : Nat) (req : Request α) :
    (step less self req s).view = (step less self req t).view := by
  simp only [State.view, Prod.mk.injEq] at h ⊢
  obtain ⟨hc, hr, hp, he⟩ := h
  refine ⟨funext fun k => ?_, ?_, ?_, ?_⟩
  · rw [callStack_step, callStack_step, hc]
  · rw [races_step_eq, races_step_eq, hr, hc]
  · rw [printedRaces_step, printedRaces_step, hp, races_step_eq, races_step_eq, hr, hc]
  · rw [output_filter_step, output_filter_step, he, hc]

theorem view_run_congr {s t : State α} (h : s.view = t.view) :
    ∀ calls, (run less s calls).view = (run less t calls).view
  | [] => h
  | c :: calls => view_run_congr (view_step_congr less h c.1 c.2) calls

/-- The rest of a report commutes, up to the view, with a `pushFunction` or `popFunction` of
another thread: neither reads what the other writes. -/
theorem view_finish_step {self : Nat} {req : Request α} (hreq : req.isReport = false)
    (ph : Phase α) (s : State α) :
    (ph.finish less (step less self req s)).view = (step less self req (ph.finish less s)).view := by
  have hc : ∀ t : State α, (ph.finish less t).callStack = t.callStack := by
    cases ph <;> intro t <;> rfl
  have hr := races_step_of_not_isReport less self req
  have hp : ∀ rs : List (Race α), printedRaces [Output.races rs] = [rs] := fun _ => rfl
  simp only [State.view, Prod.mk.injEq]
  refine ⟨funext fun k => ?_, ?_, ?_, ?_⟩
  · rw [hc, callStack_step, callStack_step, hc]
  · cases ph <;> simp [Phase.finish, hr _ hreq]
  · cases ph <;> simp [Phase.finish, printedRaces_step, hreq, hr _ hreq, hp]
  · cases ph <;> simp [Phase.finish, output_filter_step, Output.isStackError]

/-! ### One step, and a run -/

/-- Everything a step can do. -/
theorem Config.step_cases {self : Nat} {e : Event α} {cfg cfg' : Config α}
    (h : cfg.step less self e = some cfg') :
    (∃ req race, e = .call req ∧ cfg.reports.lookup self = none ∧
      req.race? self (getStack (threadKey self) cfg.st) = some race ∧
      cfg' = ⟨cfg.st, (self, .insert race) :: cfg.reports⟩) ∨
    (∃ req, e = .call req ∧ cfg.reports.lookup self = none ∧
      req.race? self (getStack (threadKey self) cfg.st) = none ∧
      cfg' = ⟨Etsan.step less self req cfg.st, cfg.reports⟩) ∨
    (∃ race, e = .insert ∧ cfg.reports.lookup self = some (.insert race) ∧
      cfg' = ⟨{ cfg.st with races := insertRace less race cfg.st.races },
        (self, .collect) :: cfg.reports.filter (·.1 ≠ self)⟩) ∨
    (e = .collect ∧ cfg.reports.lookup self = some .collect ∧
      cfg' = ⟨cfg.st, (self, .print cfg.st.races) :: cfg.reports.filter (·.1 ≠ self)⟩) ∨
    (∃ rs, e = .print ∧ cfg.reports.lookup self = some (.print rs) ∧
      cfg' = ⟨{ cfg.st with output := cfg.st.output ++ [.races rs] },
        cfg.reports.filter (·.1 ≠ self)⟩) := by
  unfold Config.step at h
  generalize cfg.reports.lookup self = o at h ⊢
  cases e with
  | call req =>
    cases o with
    | none =>
      dsimp only at h
      generalize hr : req.race? self (getStack (threadKey self) cfg.st) = r at h
      cases r with
      | some race => exact .inl ⟨req, race, rfl, rfl, hr, (Option.some.inj h).symm⟩
      | none => exact .inr (.inl ⟨req, rfl, rfl, hr, (Option.some.inj h).symm⟩)
    | some ph => cases h
  | insert =>
    rcases o with _ | (race | _ | rs) <;> dsimp only at h <;>
      first | cases h; done | exact .inr (.inr (.inl ⟨race, rfl, rfl, (Option.some.inj h).symm⟩))
  | collect =>
    rcases o with _ | (race | _ | rs) <;> dsimp only at h <;>
      first | cases h; done | exact .inr (.inr (.inr (.inl ⟨rfl, rfl, (Option.some.inj h).symm⟩)))
  | print =>
    rcases o with _ | (race | _ | rs) <;> dsimp only at h <;>
      first | cases h; done | exact .inr (.inr (.inr (.inr ⟨rs, rfl, rfl, (Option.some.inj h).symm⟩)))

omit [DecidableEq α] in
@[simp] theorem Config.abs_nil (st : State α) : Config.abs less ⟨st, []⟩ = st := rfl

omit [DecidableEq α] in
@[simp] theorem Config.abs_singleton (st : State α) (t : Nat) (ph : Phase α) :
    Config.abs less ⟨st, [(t, ph)]⟩ = ph.finish less st := rfl

/-- A step from a configuration with at most one report in progress to one with at most one:
with the reports finished, it is the call the step starts, if any, up to the view. -/
theorem Config.view_abs_step {self : Nat} {e : Event α} {cfg cfg' : Config α}
    (hstep : cfg.step less self e = some cfg') (h : cfg.reports.length ≤ 1)
    (h' : cfg'.reports.length ≤ 1) :
    (cfg'.abs less).view = (Etsan.run less (cfg.abs less) (e.call?.map (self, ·)).toList).view := by
  obtain ⟨st, reports⟩ := cfg
  match reports, h with
  | [], _ =>
    rcases Config.step_cases less hstep with ⟨req, race, rfl, -, hr, rfl⟩ | ⟨req, rfl, -, -, rfl⟩ |
      ⟨_, -, hl, -⟩ | ⟨-, hl, -⟩ | ⟨_, -, hl, -⟩
    · simp [Event.call?, step_of_race? less hr]
    · rfl
    all_goals cases hl
  | [(t, ph)], _ =>
    by_cases hst : self = t
    · -- the next step of the report in progress
      subst hst
      rcases Config.step_cases less hstep with ⟨-, -, -, hl, -⟩ | ⟨-, -, hl, -⟩ |
        ⟨race, rfl, hl, rfl⟩ | ⟨rfl, hl, rfl⟩ | ⟨rs, rfl, hl, rfl⟩
      · simp at hl
      · simp at hl
      all_goals
        simp only [List.lookup_cons_self, Option.some.injEq] at hl
        subst hl
        simp [Event.call?, Phase.finish]
    · -- a call of another thread, which commutes with the report in progress
      rcases Config.step_cases less hstep with ⟨req, race, rfl, -, -, rfl⟩ | ⟨req, rfl, -, hr, rfl⟩ |
        ⟨_, -, hl, -⟩ | ⟨-, hl, -⟩ | ⟨_, -, hl, -⟩
      · simp at h'
      · exact view_finish_step less (race?_eq_none_iff.1 hr) ph st
      all_goals simp [List.lookup_cons, beq_false_of_ne hst] at hl

/-- Along steps in which a report starts only while no other is in progress, finishing the
report in progress at the end gives the view of the atomic run of the calls in the order they
started. -/
theorem Config.view_abs_run : ∀ (evs : List (Nat × Event α)) {cfg cfg' : Config α} {s : State α},
    cfg.reports.length ≤ 1 → (cfg.abs less).view = s.view → cfg.run less evs = some cfg' →
    cfg.apart less evs = true →
      (cfg'.abs less).view = (Etsan.run less s (callsOf evs)).view ∧ cfg'.reports.length ≤ 1
  | [], _, _, _, h, hv, hrun, _ => by cases hrun; exact ⟨hv, h⟩
  | (self, e) :: evs, cfg, cfg', s, h, hv, hrun, hap => by
    obtain ⟨cfg₁, h₁, hrun⟩ := Option.bind_eq_some.1 hrun
    simp only [Config.apart, h₁, Bool.and_eq_true, decide_eq_true_eq] at hap
    rw [callsOf_cons, run_append]
    exact Config.view_abs_run evs hap.1
      ((Config.view_abs_step less h₁ h hap.1).trans (view_run_congr less hv _)) hrun hap.2

theorem Config.run_append : ∀ (evs evs' : List (Nat × Event α)) (cfg : Config α),
    cfg.run less (evs ++ evs') = (cfg.run less evs).bind fun cfg₁ => cfg₁.run less evs'
  | [], _, _ => rfl
  | (self, e) :: evs, evs', cfg => by
    simp only [List.cons_append, Config.run]
    cases cfg.step less self e with
    | none => rfl
    | some cfg₁ => exact run_append evs evs' cfg₁

theorem Config.apart_append : ∀ (evs evs' : List (Nat × Event α)) {cfg cfg₁ : Config α},
    cfg.run less evs = some cfg₁ →
      cfg.apart less (evs ++ evs') = (cfg.apart less evs && cfg₁.apart less evs')
  | [], _, _, _, h => by cases h; rfl
  | (self, e) :: evs, evs', cfg, cfg₁, h => by
    obtain ⟨cfg₂, h₂, h⟩ := Option.bind_eq_some.1 h
    simp only [List.cons_append, Config.apart, h₂, List.append_eq, apart_append evs evs' h,
      Bool.and_assoc]

/-- No step takes a race out of the set, whether or not reports overlap. -/
theorem Config.races_step_mono {self : Nat} {e : Event α} {cfg cfg' : Config α}
    (h : cfg.step less self e = some cfg') : ∀ r ∈ cfg.st.races, r ∈ cfg'.st.races := by
  rcases Config.step_cases less h with ⟨-, -, -, -, -, rfl⟩ | ⟨req, -, -, -, rfl⟩ |
    ⟨race, -, -, rfl⟩ | ⟨-, -, rfl⟩ | ⟨-, -, -, rfl⟩
  · exact fun _ hr => hr
  · exact (races_step less self req cfg.st).1
  · exact fun _ hr => mem_insertRace_of_mem less race hr
  all_goals exact fun _ hr => hr

theorem Config.races_run_mono : ∀ (evs : List (Nat × Event α)) {cfg cfg' : Config α},
    cfg.run less evs = some cfg' → ∀ r ∈ cfg.st.races, r ∈ cfg'.st.races
  | [], _, _, h => by cases h; exact fun _ hr => hr
  | (self, e) :: evs, _, _, h => by
    obtain ⟨cfg₁, h₁, h⟩ := Option.bind_eq_some.1 h
    exact fun r hr => races_run_mono evs h r (races_step_mono less h₁ r hr)

theorem Config.view_abs_run_init {evs : List (Nat × Event α)} {cfg : Config α}
    (hrun : Config.init.run less evs = some cfg) (hap : Config.init.apart less evs = true) :
    (cfg.abs less).view = (Etsan.run less State.init (callsOf evs)).view ∧
      cfg.reports.length ≤ 1 :=
  have h0 : (Config.init : Config α).reports.length ≤ 1 := Nat.zero_le 1
  Config.view_abs_run less evs h0 rfl hrun hap

/-- A run from start-up in which no two reports overlap, once every report has finished, has
the view of the atomic run of its calls in the order they started. -/
theorem view_of_apart {evs : List (Nat × Event α)} {cfg : Config α}
    (hrun : Config.init.run less evs = some cfg) (hap : Config.init.apart less evs = true)
    (hdone : cfg.reports = []) : cfg.st.view = (run less State.init (callsOf evs)).view := by
  simpa [Config.abs, hdone] using (Config.view_abs_run_init less hrun hap).1

/-! ### Runs in which reports do not overlap -/

/-- An order by line number, for the runs below. -/
def byLine (a b : Race α) : Bool := decide (a.lineNo < b.lineNo)

omit [DecidableEq α] in
theorem byLine_irrefl (r : Race α) : byLine r r = false := by simp [byLine]

omit [DecidableEq α] in
theorem byLine_trans (a b c : Race α) (hab : byLine a b = true) (hbc : byLine b c = true) :
    byLine a c = true := by
  simp only [byLine, decide_eq_true_eq] at *
  omega

/-- Thread `1` starts a report of a read on line `20`; thread `2` enters `7` while the report is
in progress, and reports a write on line `10` once it has ended. -/
def entryDuringReport : List (Nat × Event Nat) :=
  [(1, .call (.reportRaceOnRead 20 0 0)), (2, .call (.pushFunction 7)), (1, .insert),
    (1, .collect), (1, .print), (2, .call (.reportRaceOnWrite 10 0 0)), (2, .insert),
    (2, .collect), (2, .print)]

/-- With `race_compare` a strict order, as `std::set` requires, along a run from start-up in which
no two reports overlap, once every report has finished: the race records are in increasing
order, so no two of them are equivalent; and a race reported is never lost: the set holds it or
a record equivalent to it. -/
theorem races_form_set (hirr : ∀ r, less r r = false)
    (htrans : ∀ a b c, less a b = true → less b c = true → less a c = true)
    {evs : List (Nat × Event α)} {cfg : Config α}
    (hrun : Config.init.run less evs = some cfg) (hap : Config.init.apart less evs = true)
    (hdone : cfg.reports = []) :
    cfg.st.races.Pairwise (less · · = true) ∧
      ∀ pre post (cfg₁ : Config α) (t : Nat) (race : Race α), evs = pre ++ post →
        Config.init.run less pre = some cfg₁ → (t, Phase.insert race) ∈ cfg₁.reports →
        ∃ r ∈ cfg.st.races, less r race = false ∧ less race r = false := by
  have hv := view_of_apart less hrun hap hdone
  simp only [State.view, Prod.mk.injEq] at hv
  refine ⟨hv.2.1 ▸ pairwise_races_run less htrans _ _ List.Pairwise.nil, ?_⟩
  rintro pre post cfg₁ t race rfl h₁ hmem
  rw [Config.run_append, h₁] at hrun
  rw [Config.apart_append less pre post h₁, Bool.and_eq_true] at hap
  obtain ⟨-, hlen⟩ := Config.view_abs_run_init less h₁ hap.1
  -- the report of `t` is the one in progress, and finishing it inserts its race
  have habs : (cfg₁.abs less).races = insertRace less race cfg₁.st.races := by
    obtain ⟨st, _ | ⟨p, _ | ⟨q, l⟩⟩⟩ := cfg₁
    · cases hmem
    · obtain rfl := List.mem_singleton.1 hmem; rfl
    · simp at hlen
  have hend := (Config.view_abs_run less post hlen rfl hrun hap.2).1
  simp only [Config.abs, hdone, List.foldr_nil, State.view, Prod.mk.injEq] at hend
  obtain ⟨r, hr, heq⟩ := exists_equiv_insertRace less race hirr cfg₁.st.races
  exact ⟨r, hend.2.1 ▸ (races_run less _ _).1 r (habs ▸ hr), heq⟩

/-- In `entryDuringReport`, the two races stand in the set by line. -/
theorem races_form_set_entryDuringReport :
    (∀ r : Race Nat, byLine r r = false) ∧
      (∀ a b c : Race Nat, byLine a b = true → byLine b c = true → byLine a c = true) ∧
      ∃ cfg, Config.init.run byLine entryDuringReport = some cfg ∧
        Config.init.apart byLine entryDuringReport = true ∧ cfg.reports = [] ∧
        cfg.st.races = [⟨2, 10, "write", 0, 0, [7]⟩, ⟨1, 20, "read", 0, 0, []⟩] ∧
        (cfg.st.races.Pairwise (byLine · · = true) ∧
          ∀ pre post (cfg₁ : Config Nat) (t : Nat) (race : Race Nat), entryDuringReport = pre ++ post →
            Config.init.run byLine pre = some cfg₁ → (t, Phase.insert race) ∈ cfg₁.reports →
            ∃ r ∈ cfg.st.races, byLine r race = false ∧ byLine race r = false) :=
  ⟨byLine_irrefl, byLine_trans, _, rfl, rfl, rfl, rfl,
    races_form_set byLine byLine_irrefl byLine_trans rfl rfl rfl⟩

/-- Along a run from start-up in which no two reports overlap, once every report has finished,
the run-time has printed one race list per report; the list printed last is the race set, the
empty set when no list was printed; and every record of every list printed is still in the
set. -/
theorem printed_races {evs : List (Nat × Event α)} {cfg : Config α}
    (hrun : Config.init.run less evs = some cfg) (hap : Config.init.apart less evs = true)
    (hdone : cfg.reports = []) :
    (printedRaces cfg.st.output).length = ((callsOf evs).filter (·.2.isReport)).length ∧
      (printedRaces cfg.st.output).getLast?.getD [] = cfg.st.races ∧
      ∀ rs ∈ printedRaces cfg.st.output, ∀ r ∈ rs, r ∈ cfg.st.races := by
  have hv := view_of_apart less hrun hap hdone
  simp only [State.view, Prod.mk.injEq] at hv
  rw [hv.2.1, hv.2.2.1]
  exact printed_races_run less _

/-- In `entryDuringReport`, the second list printed holds both races. -/
theorem printed_races_entryDuringReport :
    ∃ cfg, Config.init.run byLine entryDuringReport = some cfg ∧
      Config.init.apart byLine entryDuringReport = true ∧ cfg.reports = [] ∧
      printedRaces cfg.st.output =
        [[⟨1, 20, "read", 0, 0, []⟩], [⟨2, 10, "write", 0, 0, [7]⟩, ⟨1, 20, "read", 0, 0, []⟩]] ∧
      ((printedRaces cfg.st.output).length =
          ((callsOf entryDuringReport).filter (·.2.isReport)).length ∧
        (printedRaces cfg.st.output).getLast?.getD [] = cfg.st.races ∧
        ∀ rs ∈ printedRaces cfg.st.output, ∀ r ∈ rs, r ∈ cfg.st.races) :=
  ⟨_, rfl, rfl, rfl, rfl, printed_races byLine rfl rfl rfl⟩

/-- Thread `1` takes its snapshot of the set, thread `2` inserts its race and prints, and then
thread `1` prints its snapshot. -/
def overlappingReports : List (Nat × Event Nat) :=
  [(1, .call (.reportRaceOnRead 20 0 0)), (1, .insert), (1, .collect),
    (2, .call (.reportRaceOnWrite 10 0 0)), (2, .insert), (2, .collect), (2, .print), (1, .print)]

/- When reports overlap, the list printed last can miss a race of the set. -/
example : Config.init.apart byLine overlappingReports = false ∧
    ∃ cfg, Config.init.run byLine overlappingReports = some cfg ∧ cfg.reports = [] ∧
      (printedRaces cfg.st.output).getLast?.getD [] = [⟨1, 20, "read", 0, 0, []⟩] ∧
      cfg.st.races = [⟨2, 10, "write", 0, 0, []⟩, ⟨1, 20, "read", 0, 0, []⟩] :=
  ⟨rfl, _, rfl, rfl, rfl, rfl⟩

end Etsan

end EmbedSanitizer
