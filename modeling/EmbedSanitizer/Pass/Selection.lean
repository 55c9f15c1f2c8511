import EmbedSanitizer.Pass.Traverse
import EmbedSanitizer.Pass.Address

/-!
# The accesses the pass selects

The traversal run with the pass's own address tests. The capture test runs after the scan has
inserted, in front of the access, a call to `__tsan_print_variables` that takes the address:
capture tracking then always finds the address captured, and no stack slot is skipped. The
selection is that of fixed tests in which nothing is an uncaptured stack slot.
-/

namespace EmbedSanitizer

/-- The address tests of the pass; `capturedInProgram` is capture tracking's answer on the
function as given. -/
def passTests (capturedInProgram : Value → Bool) : AddressTests Value where
  shouldInstrument := shouldInstrumentReadWriteFromAddress
  pointsToConstantData := addrPointsToConstantData
  underlyingIsAlloca := underlyingObjectIsAlloca
  mayBeCaptured := pointerMayBeCaptured capturedInProgram

/-- Fixed tests with the pass's exclusion and constant-data tests, and no uncaptured slot. -/
def selectionTests : AddressTests Value :=
  .ofFixed (fun a => !shouldInstrumentReadWriteFromAddress a) addrPointsToConstantData
    fun _ => false

theorem Value.derivesFrom_self (v : Value) : v.derivesFrom v = true := by
  cases v <;> simp [Value.derivesFrom]

/-- The print call in front of an access captures its address. -/
theorem pointerMayBeCaptured_printVariables (capturedInProgram : Value → Bool)
    (calls : List (Call Value)) (tag : Nat) (acc : Access Value) :
    pointerMayBeCaptured capturedInProgram (calls ++ [printVariables tag acc]) acc.addr = true := by
  simp [pointerMayBeCaptured, printVariables, Arg.passedPointer, Value.derivesFrom_self]

theorem chooseStep_passTests (capturedInProgram : Value → Bool) (c : Candidate Value)
    (st : ChooseState Value) :
    chooseStep (passTests capturedInProgram) c st = chooseStep selectionTests c st := by
  rcases c with ⟨pos, _ | _, acc⟩ <;>
    simp [chooseStep, keepUnlessUncaptured, passTests, selectionTests, AddressTests.ofFixed,
      pointerMayBeCaptured_printVariables]

theorem Traversal.flush_passTests (capturedInProgram : Value → Bool) (st : Traversal Value) :
    st.flush (passTests capturedInProgram) = st.flush selectionTests := by
  have : chooseStep (passTests capturedInProgram) = chooseStep selectionTests :=
    funext fun c => funext (chooseStep_passTests capturedInProgram c)
  simp [Traversal.flush, chooseInstructionsToInstrument, this]

theorem visitInsts_passTests (capturedInProgram : Value → Bool) (b : Nat) :
    ∀ (i : Nat) (is : List (Inst Value)) (st : Traversal Value),
      visitInsts (passTests capturedInProgram) b i is st = visitInsts selectionTests b i is st
  | _, [], _ => rfl
  | i, I :: is, st => by
    have : visitInst (passTests capturedInProgram) st (b, i) I = visitInst selectionTests st (b, i) I := by
      unfold visitInst
      split <;> simp [Traversal.flush_passTests]
    rw [visitInsts, visitInsts, this, visitInsts_passTests capturedInProgram b (i + 1) is]

/-- The pass selects what the fixed tests select: its capture test never skips an access. -/
theorem traverse_passTests (capturedInProgram : Value → Bool) (F : Function Value) :
    traverse (passTests capturedInProgram) F = traverse selectionTests F := by
  suffices ∀ b blks st, visitBlocks (passTests capturedInProgram) b blks st =
      visitBlocks selectionTests b blks st from this 0 F.blocks .init
  intro b blks
  induction blks generalizing b with
  | nil => intro st; rfl
  | cons blk blks ih =>
    intro st
    simp [visitBlocks, visitInsts_passTests, Traversal.flush_passTests, ih]

/-- The selection of the pass, read off `allLoadsAndStores_spec`. -/
theorem mem_traverse_passTests (capturedInProgram : Value → Bool) (F : Function Value) (p : Pos) :
    p ∈ (traverse (passTests capturedInProgram) F).all ↔
      ∃ I w acc, F.instAt p = some I ∧ I.plainAccess = some (w, acc) ∧
        shouldInstrumentReadWriteFromAddress acc.addr = true ∧
        (w = true ∨ (addrPointsToConstantData acc.addr = false ∧ ¬ F.StoreFollows p acc.addr)) := by
  rw [traverse_passTests, selectionTests, ((allLoadsAndStores_spec _ _ _ F).2 p)]
  simp

/-- A naturally aligned plain 32-bit access, at line 1 of `t.c`. -/
def Access.plain32 (addr : Value) : Access Value :=
  ⟨addr, .int 32, 32, 0, none, .crossThread, false, ⟨1, "t.c"⟩⟩

/-- A stack slot, written and then read, with no call: the function never captures it. -/
def stackSlotStoreLoad : Function Value :=
  ⟨"f", [[.store (.plain32 (.alloca 0 false)) (.other 1 0) (.int 32),
    .load (.plain32 (.alloca 0 false)), .ret]], true, false, true⟩

/-- Both accesses to the uncaptured stack slot are selected for instrumentation. -/
theorem stackSlotStoreLoad_selected :
    underlyingObjectIsAlloca (.alloca 0 false) = true ∧
      (traverse (passTests fun _ => false) stackSlotStoreLoad).all = [(0, 1), (0, 0)] := by
  decide

/-- A load the traversal drops although its address passes the exclusion and constant-data
tests is followed in its block by a plain store to the same address, with no call or invoke
between them. -/
theorem dropped_load_has_later_store (capturedInProgram : Value → Bool) (F : Function Value)
    (p : Pos) (I : Inst Value) (acc : Access Value) (hI : F.instAt p = some I)
    (hload : I.plainAccess = some (false, acc))
    (hs : shouldInstrumentReadWriteFromAddress acc.addr = true)
    (hc : addrPointsToConstantData acc.addr = false)
    (hout : p ∉ (traverse (passTests capturedInProgram) F).all) :
    F.StoreFollows p acc.addr := by
  by_contra h
  exact hout ((mem_traverse_passTests capturedInProgram F p).2
    ⟨I, false, acc, hI, hload, hs, .inr ⟨hc, h⟩⟩)

/-- A mutable global. -/
def counter : GlobalVariable := ⟨"counter", none, false, 0⟩

/-- A read of a global, a fence, and a write of the same global. -/
def loadFenceStore : Function Value :=
  ⟨"f", [[.load (.plain32 (.global counter)), .fence .sequentiallyConsistent .crossThread,
    .store (.plain32 (.global counter)) (.other 1 0) (.int 32), .ret]], true, false, true⟩

theorem dropped_load_has_later_store_loadFenceStore :
    shouldInstrumentReadWriteFromAddress (.global counter) = true ∧
      addrPointsToConstantData (.global counter) = false ∧
      (0, 0) ∉ (traverse (passTests fun _ => false) loadFenceStore).all ∧
      loadFenceStore.StoreFollows (0, 0) (.global counter) :=
  ⟨by decide, by decide, by decide,
    dropped_load_has_later_store (fun _ => false) loadFenceStore (0, 0) _ _ rfl rfl (by decide)
      (by decide) (by decide)⟩

/-- The read is dropped for the later write although a fence, which synchronises, stands
between them. -/
theorem load_dropped_across_fence :
    loadFenceStore.instAt (0, 0) = some (.load (.plain32 (.global counter))) ∧
      shouldInstrumentReadWriteFromAddress (.global counter) = true ∧
      addrPointsToConstantData (.global counter) = false ∧
      (0, 0) ∉ (traverse (passTests fun _ => false) loadFenceStore).all ∧
      loadFenceStore.instAt (0, 1) = some (.fence .sequentiallyConsistent .crossThread) ∧
      (loadFenceStore.instAt (0, 2)).bind Inst.plainStoreAddr = some (.global counter) := by
  decide

/-- A plain load from a constant global, or through one `getelementptr` instruction on it, is
not selected. -/
theorem constant_global_load_not_selected (capturedInProgram : Value → Bool) (F : Function Value)
    (p : Pos) (I : Inst Value) (acc : Access Value) (g : GlobalVariable)
    (hI : F.instAt p = some I) (hload : I.plainAccess = some (false, acc))
    (hg : g.isConstant = true)
    (haddr : acc.addr = .global g ∨ ∃ id inBounds, acc.addr = .gepInst id inBounds (.global g)) :
    p ∉ (traverse (passTests capturedInProgram) F).all := by
  have hconst : addrPointsToConstantData acc.addr = true := by
    rcases haddr with h | ⟨id, inBounds, h⟩ <;> simp [h, addrPointsToConstantData, hg]
  rw [mem_traverse_passTests]
  rintro ⟨I', w, acc', hI', hload', -, hw⟩
  rw [hI] at hI'
  cases hI'
  rw [hload] at hload'
  cases hload'
  simp [hconst] at hw

/-- A constant table. -/
def table : GlobalVariable := ⟨"table", none, true, 0⟩

/-- A read of the constant table through a `bitcast` constant expression. -/
def castLoad : Function Value :=
  ⟨"f", [[.load (.plain32 (.bitCastExpr (.int 32) (.global table))), .ret]], true, false, true⟩

theorem constant_global_load_not_selected_table :
    table.isConstant = true ∧ (0, 0) ∉ (traverse (passTests fun _ => false)
      ⟨"f", [[.load (.plain32 (.gepInst 0 true (.global table))), .ret]], true, false, true⟩).all :=
  ⟨rfl, constant_global_load_not_selected (fun _ => false) _ (0, 0) _ _ table rfl rfl rfl
    (.inr ⟨0, true, rfl⟩)⟩

/-- The exclusion test strips the cast down to the constant table, the constant-data test does
not, and the read is selected. -/
theorem constant_global_through_cast_selected :
    (Value.bitCastExpr (.int 32) (.global table)).stripInBoundsOffsets = .global table ∧
      table.isConstant = true ∧
      (traverse (passTests fun _ => false) castLoad).all = [(0, 0)] := by
  decide

end EmbedSanitizer
