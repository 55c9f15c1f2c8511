import EmbedSanitizer.Pass.Callbacks

/-!
# Choosing the loads and stores to instrument

`chooseInstructionsToInstrument` scans one call-free run of plain loads and stores,
`LocalLoadsAndStores`, from its end. A store records its address in `WriteTargets`; a load of
an address in `WriteTargets`, that is one written later in the run, is dropped. Before testing
an access the scan inserts a call to `__tsan_print_variables` in front of it.

For address tests that do not depend on the IR, `chosenWith` says which accesses the scan adds
to `AllLoadsAndStores`: an access is kept or dropped according to the stores that follow it.
-/

namespace EmbedSanitizer

variable {α : Type}

/-- The tests the scan makes on an address. The capture test reads the calls the pass has
inserted so far. -/
structure AddressTests (α : Type) where
  /-- `shouldInstrumentReadWriteFromAddress`. -/
  shouldInstrument : α → Bool
  /-- `addrPointsToConstantData`. -/
  pointsToConstantData : α → Bool
  /-- `isa<AllocaInst>(GetUnderlyingObject(Addr, DL))`. -/
  underlyingIsAlloca : α → Bool
  /-- `PointerMayBeCaptured(Addr, true, true)`, given the calls inserted so far. -/
  mayBeCaptured : List (Call α) → α → Bool

/-- Address tests fixed in advance: an excluded address, constant data, and a stack slot that
is not captured. -/
def AddressTests.ofFixed (excluded constant uncapturedStack : α → Bool) : AddressTests α where
  shouldInstrument a := !excluded a
  pointsToConstantData := constant
  underlyingIsAlloca := uncapturedStack
  mayBeCaptured _ _ := false

/-- An entry of `LocalLoadsAndStores`: a plain load or store and its position. -/
structure Candidate (α : Type) where
  pos : Pos
  isWrite : Bool
  access : Access α

/-- The call to `__tsan_print_variables` the scan inserts before an access; `tag` is `391` for a
store and `403` for a load. -/
def printVariables (tag : Nat) (a : Access α) : Call α :=
  ⟨tsanPrintVariables, [.constInt 32 tag, .pointerCast (.operand a.addr) .i8Ptr,
    .intCast (.lineNumber a.loc) (.int 8), .objectName a.addr]⟩

/-- The print call the scan inserts for a candidate, with the position it stands before. -/
def Candidate.printCall (c : Candidate α) : Pos × Call α :=
  (c.pos, printVariables (if c.isWrite then 391 else 403) c.access)

/-- What the scan reads and writes: `WriteTargets`, `AllLoadsAndStores`, and the print calls
inserted so far with the position each stands before. -/
structure ChooseState (α : Type) where
  writeTargets : List α
  all : List Pos
  printCalls : List (Pos × Call α)

/-- The tail of the loop body: skip a stack slot that is not captured, else keep the access. -/
def keepUnlessUncaptured (T : AddressTests α) (c : Candidate α) (st : ChooseState α) :
    ChooseState α :=
  if T.underlyingIsAlloca c.access.addr &&
      !T.mayBeCaptured (st.printCalls.map (·.2)) c.access.addr then st
  else { st with all := st.all ++ [c.pos] }

variable [DecidableEq α]

/-- One iteration of the loop of `chooseInstructionsToInstrument`. -/
def chooseStep (T : AddressTests α) (c : Candidate α) (st : ChooseState α) : ChooseState α :=
  let a := c.access.addr
  let st := { st with
    printCalls := st.printCalls ++ [(c.pos, printVariables (if c.isWrite then 391 else 403) c.access)] }
  if c.isWrite then
    if !T.shouldInstrument a then st
    else keepUnlessUncaptured T c { st with writeTargets := a :: st.writeTargets }
  else if !T.shouldInstrument a then st
  else if st.writeTargets.contains a then st
  else if T.pointsToConstantData a then st
  else keepUnlessUncaptured T c st

/-- `chooseInstructionsToInstrument(Local, All, DL)`: the loop over `reverse(Local)`, from an
empty `WriteTargets`; the new `All` and print calls. -/
def chooseInstructionsToInstrument (T : AddressTests α) (locals : List (Candidate α))
    (all : List Pos) (printCalls : List (Pos × Call α)) : List Pos × List (Pos × Call α) :=
  let st := locals.foldr (chooseStep T) ⟨[], all, printCalls⟩
  (st.all, st.printCalls)

/-- Each step of the scan inserts one print call, in front of the access it looks at. -/
theorem chooseStep_printCalls (T : AddressTests α) (c : Candidate α) (st : ChooseState α) :
    (chooseStep T c st).printCalls = st.printCalls ++ [c.printCall] := by
  simp only [chooseStep, keepUnlessUncaptured, apply_ite ChooseState.printCalls, ite_self]
  rfl

/-- The scan of a run inserts one print call per access of the run, the last access first. -/
theorem chooseInstructionsToInstrument_printCalls (T : AddressTests α) (l : List (Candidate α))
    (all : List Pos) (printCalls : List (Pos × Call α)) :
    (chooseInstructionsToInstrument T l all printCalls).2 =
      printCalls ++ l.reverse.map Candidate.printCall := by
  suffices ∀ st : ChooseState α, (l.foldr (chooseStep T) st).printCalls =
      st.printCalls ++ l.reverse.map Candidate.printCall from this _
  induction l with
  | nil => simp
  | cons c l ih => simp [chooseStep_printCalls, ih]

/-! ### The scan for fixed tests -/

section Fixed

variable (excluded constant uncapturedStack : α → Bool)

/-- The addresses the stores of a run add to `WriteTargets`. -/
def storeTargets : List (Candidate α) → List α
  | [] => []
  | c :: l => (if c.isWrite && !excluded c.access.addr then [c.access.addr] else []) ++
      storeTargets l

/-- Whether the scan keeps an access, given the addresses written after it. -/
def keeps (c : Candidate α) (ahead : List α) : Bool :=
  !excluded c.access.addr && !uncapturedStack c.access.addr &&
    (c.isWrite || (!ahead.contains c.access.addr && !constant c.access.addr))

theorem keeps_eq_true {c : Candidate α} {ahead : List α} :
    keeps excluded constant uncapturedStack c ahead = true ↔
      excluded c.access.addr = false ∧ uncapturedStack c.access.addr = false ∧
        (c.isWrite = true ∨ (c.access.addr ∉ ahead ∧ constant c.access.addr = false)) := by
  simp [keeps, and_assoc]

/-- The positions the scan adds for a run, given the addresses written after the run. -/
def chosenWith : List (Candidate α) → List α → List Pos
  | [], _ => []
  | c :: l, ahead => chosenWith l ahead ++
      (if keeps excluded constant uncapturedStack c (storeTargets excluded l ++ ahead)
        then [c.pos] else [])

theorem chooseStep_ofFixed_writeTargets (c : Candidate α) (st : ChooseState α) :
    (chooseStep (.ofFixed excluded constant uncapturedStack) c st).writeTargets =
      storeTargets excluded [c] ++ st.writeTargets := by
  rcases c with ⟨pos, _ | _, acc⟩ <;> cases he : excluded acc.addr <;>
    cases hu : uncapturedStack acc.addr <;> cases hc : constant acc.addr <;>
    by_cases hw : acc.addr ∈ st.writeTargets <;>
    simp [chooseStep, keepUnlessUncaptured, AddressTests.ofFixed, storeTargets, he, hu, hc, hw]

theorem chooseStep_ofFixed_all (c : Candidate α) (st : ChooseState α) :
    (chooseStep (.ofFixed excluded constant uncapturedStack) c st).all = st.all ++
      (if keeps excluded constant uncapturedStack c st.writeTargets then [c.pos] else []) := by
  rcases c with ⟨pos, _ | _, acc⟩ <;> cases he : excluded acc.addr <;>
    cases hu : uncapturedStack acc.addr <;> cases hc : constant acc.addr <;>
    by_cases hw : acc.addr ∈ st.writeTargets <;>
    simp [chooseStep, keepUnlessUncaptured, AddressTests.ofFixed, keeps, he, hu, hc, hw]

/-- The scan of a run adds the positions `chosenWith` names and the run's store addresses. -/
theorem foldr_chooseStep_ofFixed (l : List (Candidate α)) (st : ChooseState α) :
    (l.foldr (chooseStep (.ofFixed excluded constant uncapturedStack)) st).writeTargets =
        storeTargets excluded l ++ st.writeTargets ∧
      (l.foldr (chooseStep (.ofFixed excluded constant uncapturedStack)) st).all =
        st.all ++ chosenWith excluded constant uncapturedStack l st.writeTargets := by
  induction l with
  | nil => simp [storeTargets, chosenWith]
  | cons c l ih =>
    simp only [List.foldr_cons, chooseStep_ofFixed_writeTargets, chooseStep_ofFixed_all, ih.1,
      ih.2, storeTargets, chosenWith, List.append_assoc, List.nil_append, and_self]

omit [DecidableEq α] in
theorem storeTargets_append (l m : List (Candidate α)) :
    storeTargets excluded (l ++ m) = storeTargets excluded l ++ storeTargets excluded m := by
  induction l with
  | nil => rfl
  | cons c l ih => simp [storeTargets, ih]

/-- A run scanned as two parts: the later part first, then the earlier one against the stores
of the later part. -/
theorem chosenWith_append (l m : List (Candidate α)) (ahead : List α) :
    chosenWith excluded constant uncapturedStack (l ++ m) ahead =
      chosenWith excluded constant uncapturedStack m ahead ++
        chosenWith excluded constant uncapturedStack l (storeTargets excluded m ++ ahead) := by
  induction l with
  | nil => simp [chosenWith]
  | cons c l ih => simp [chosenWith, ih, storeTargets_append]

theorem chooseInstructionsToInstrument_ofFixed (l : List (Candidate α)) (all : List Pos)
    (printCalls : List (Pos × Call α)) :
    (chooseInstructionsToInstrument (.ofFixed excluded constant uncapturedStack) l all
      printCalls).1 = all ++ chosenWith excluded constant uncapturedStack l [] := by
  simp [chooseInstructionsToInstrument, (foldr_chooseStep_ofFixed excluded constant
    uncapturedStack l _).2]

end Fixed

end EmbedSanitizer
