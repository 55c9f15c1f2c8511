import EmbedSanitizer.Pass.Atomic
import EmbedSanitizer.Pass.Traverse
import EmbedSanitizer.Semantics.Paths

/-!
# `runOnFunction`

The pass over one function. Each instruction of the function keeps a slot: the instructions
the pass inserts in front of it (`IRBuilder<> IRB(I)` puts each new one right before `I`, so
after those inserted earlier), and what stands at its place afterwards, the instruction itself,
an instruction that replaced it, or nothing once it is erased. `EscapeEnumerator` adds cleanup
blocks after the blocks of the function.

In order, the pass inserts the print calls of the scan, instruments the selected loads and
stores, lowers the atomics and the memory intrinsics, brackets a function marked
`sanitize_thread_no_checking_at_run_time` that has calls with `__tsan_ignore_thread_begin` and
`__tsan_ignore_thread_end`, and then, if it instrumented something or the function has calls,
puts `__tsan_func_entry` at the entry and `__tsan_func_exit` (and, in `main`,
`__tsan_main_func_exit`) on every way out.

`EmbedSanitizer::InstrIfSynchronization` and `maybeMarkSanitizerLibraryCallNoBuiltin`, which the
walk calls on every call, are not modelled: the first lives in `EmbedSanitizerExtension.h`,
which is not in the sources and which the spec does not describe, the second only sets an
attribute of the call.
-/

namespace EmbedSanitizer

variable {α : Type}

/-! ### Slots -/

/-- What stands at the place of an instruction of the function after the pass. -/
inductive Placed (α : Type) where
  /-- The instruction of the function; a call may have become an invoke. -/
  | kept (I : Inst α)
  /-- An instruction the pass put there: the call that replaced an atomic, or the landing pad
  or `resume` of a cleanup block. -/
  | created (I : Inst α)
  /-- Nothing: the instruction was erased. -/
  | erased
  deriving DecidableEq, Repr

/-- The instruction at the place, if any. -/
def Placed.inst? : Placed α → Option (Inst α)
  | .kept I | .created I => some I
  | .erased => none

/-- Apply `f` to the instruction at the place. -/
def Placed.map (f : Inst α → Inst α) : Placed α → Placed α
  | .kept I => .kept (f I)
  | .created I => .created (f I)
  | .erased => .erased

/-- Whether a `ret` or a `resume` stands at the place. -/
def Placed.isExit (P : Placed α) : Bool :=
  match P.inst? with
  | some .ret | some .resume => true
  | _ => false

/-- The place of an instruction of the function, or of a cleanup block, in the instrumented
function. -/
structure Slot (α : Type) where
  /-- The instructions inserted in front of the place, in order. -/
  before : List (Inst α)
  placed : Placed α
  deriving DecidableEq, Repr

/-- The instructions of a slot, in order. -/
def Slot.insts (s : Slot α) : List (Inst α) := s.before ++ s.placed.inst?.toList

/-- The instructions of a place, flagged as the pass's own when it created them. -/
def Placed.items : Placed α → List (Inst α × Bool)
  | .kept I => [(I, false)]
  | .created I => [(I, true)]
  | .erased => []

/-- The instructions of a slot, in order, flagged as the pass's own when it created them. -/
def Slot.items (s : Slot α) : List (Inst α × Bool) := s.before.map (·, true) ++ s.placed.items

/-- Insert instructions at the end of what stands in front of the place. -/
def Slot.insertBefore (is : List (Inst α)) (s : Slot α) : Slot α :=
  { s with before := s.before ++ is }

@[simp] theorem Slot.insertBefore_before (is : List (Inst α)) (s : Slot α) :
    (s.insertBefore is).before = s.before ++ is := rfl

@[simp] theorem Slot.insertBefore_placed (is : List (Inst α)) (s : Slot α) :
    (s.insertBefore is).placed = s.placed := rfl

/-- The blocks of the function under instrumentation, one slot per instruction. -/
abbrev Blocks (α : Type) := List (List (Slot α))

/-- The slot at a position. -/
def Blocks.slotAt (G : Blocks α) (p : Pos) : Option (Slot α) :=
  G[p.1]? >>= (·[p.2]?)

/-- Apply `f` to the slot at `p`. -/
def Blocks.modifySlot (f : Slot α → Slot α) (p : Pos) (G : Blocks α) : Blocks α :=
  G.modify (List.modify f p.2) p.1

theorem Blocks.slotAt_modifySlot (f : Slot α → Slot α) (p q : Pos) (G : Blocks α) :
    (G.modifySlot f p).slotAt q = if q = p then (G.slotAt q).map f else G.slotAt q := by
  obtain ⟨b, i⟩ := p
  obtain ⟨c, j⟩ := q
  simp only [Blocks.slotAt, Blocks.modifySlot, List.getElem?_modify, Prod.mk.injEq]
  by_cases hb : c = b <;> by_cases hi : j = i
  all_goals cases G[c]? <;> simp_all [List.getElem?_modify, eq_comm]

/-- Whether `p` is the last position of its block. -/
def Blocks.IsLast (G : Blocks α) (p : Pos) : Prop := (G.map List.length)[p.1]? = some (p.2 + 1)

instance (G : Blocks α) (p : Pos) : Decidable (G.IsLast p) :=
  inferInstanceAs (Decidable (_ = _))

theorem Blocks.map_length_modifySlot (f : Slot α → Slot α) (p : Pos) (G : Blocks α) :
    (G.modifySlot f p).map List.length = G.map List.length := by
  refine List.ext_getElem? fun n => ?_
  simp only [Blocks.modifySlot, List.getElem?_map, List.getElem?_modify]
  cases G[n]? <;> simp
  split <;> simp [List.length_modify]

theorem List.getElem?_modifyLast {β : Type} (f : β → β) (l : List β) (i : Nat) :
    (l.modifyLast f)[i]? = if l.length = i + 1 then l[i]?.map f else l[i]? := by
  rcases l.eq_nil_or_concat with rfl | ⟨L, b, rfl⟩
  · simp [List.modifyLast, List.modifyLast.go]
  · rw [List.concat_eq_append, List.modifyLast_append_one]
    rcases Nat.lt_trichotomy i L.length with h | rfl | h
    · simp [List.getElem?_append_left h, h.ne']
    · simp
    · simp [List.getElem?_eq_none, h.ne, Nat.succ_le_of_lt h]

@[simp] theorem List.length_modifyLast {β : Type} (f : β → β) (l : List β) :
    (l.modifyLast f).length = l.length := by
  rcases l.eq_nil_or_concat with rfl | ⟨L, b, rfl⟩
  · simp [List.modifyLast, List.modifyLast.go]
  · simp [List.modifyLast_append_one]

theorem Blocks.isLast_map_modifyLast (g : Slot α → Slot α) (G : Blocks α) (p : Pos) :
    Blocks.IsLast (G.map (List.modifyLast g)) p ↔ G.IsLast p := by
  simp [Blocks.IsLast, Function.comp_def]

theorem Blocks.isLast_map_map (g : Slot α → Slot α) (G : Blocks α) (p : Pos) :
    Blocks.IsLast (G.map (List.map g)) p ↔ G.IsLast p := by
  simp [Blocks.IsLast, Function.comp_def]

theorem Blocks.slotAt_map_modifyLast (g : Slot α → Slot α) (G : Blocks α) (p : Pos) :
    Blocks.slotAt (G.map (List.modifyLast g)) p = if G.IsLast p then (G.slotAt p).map g else G.slotAt p := by
  simp only [Blocks.slotAt, Blocks.IsLast, List.getElem?_map]
  cases G[p.1]? <;> simp [List.getElem?_modifyLast]

theorem Blocks.slotAt_map_map (g : Slot α → Slot α) (G : Blocks α) (p : Pos) :
    Blocks.slotAt (G.map (List.map g)) p = (G.slotAt p).map g := by
  simp only [Blocks.slotAt, List.getElem?_map]
  cases G[p.1]? <;> simp [List.getElem?_map]

theorem Blocks.slotAt_append_of_lt {G : Blocks α} (H : Blocks α) {p : Pos} (hp : p.1 < G.length) :
    Blocks.slotAt (G ++ H) p = G.slotAt p := by
  simp [Blocks.slotAt, List.getElem?_append_left hp]

theorem Blocks.slotAt_append_of_le {G : Blocks α} (H : Blocks α) {p : Pos} (hp : G.length ≤ p.1) :
    Blocks.slotAt (G ++ H) p = H.slotAt (p.1 - G.length, p.2) := by
  simp [Blocks.slotAt, List.getElem?_append_right hp]

/-- The slots of a block of two. -/
theorem Blocks.slotAt_pair {a b s : Slot α} {q : Pos} :
    Blocks.slotAt [[a, b]] q = some s ↔ q = (0, 0) ∧ s = a ∨ q = (0, 1) ∧ s = b := by
  rcases q with ⟨_ | _, _ | _ | _⟩ <;> simp [Blocks.slotAt, eq_comm, Prod.ext_iff]

theorem Blocks.isLast_append_of_lt {G : Blocks α} (H : Blocks α) {p : Pos} (hp : p.1 < G.length) :
    Blocks.IsLast (G ++ H) p ↔ G.IsLast p := by
  simp [Blocks.IsLast, List.getElem?_append_left (by simpa using hp : p.1 < (G.map List.length).length)]

theorem Blocks.isLast_append_of_le {G : Blocks α} (H : Blocks α) {p : Pos} (hp : G.length ≤ p.1) :
    Blocks.IsLast (G ++ H) p ↔ H.IsLast (p.1 - G.length, p.2) := by
  simp [Blocks.IsLast, List.getElem?_append_right (by simpa using hp : (G.map List.length).length ≤ p.1)]

/-- The instrumented function, block by block, each instruction flagged as the pass's own when
it created it. -/
def Blocks.code (G : Blocks α) : Code α := G.map (·.flatMap Slot.items)

/-- The function before the pass: every instruction in its own slot. -/
def initialBlocks (F : Function α) : Blocks α :=
  F.blocks.map (·.map fun I => ⟨[], .kept I⟩)

theorem slotAt_initialBlocks (F : Function α) (p : Pos) :
    (initialBlocks F).slotAt p = (F.instAt p).map fun I => ⟨[], .kept I⟩ := by
  simp only [Blocks.slotAt, initialBlocks, Function.instAt, List.getElem?_map]
  cases F.blocks[p.1]? <;> simp [List.getElem?_map]

/-! ### The callbacks the pass calls -/

/-- The `cl::opt` switches the pass reads, with their defaults. -/
structure Options where
  instrumentMemoryAccesses : Bool := true
  instrumentFuncEntryExit : Bool := true
  handleCxxExceptions : Bool := true
  instrumentAtomics : Bool := true
  instrumentMemIntrinsics : Bool := true
  deriving DecidableEq, Repr

/-- `kTsanModuleCtorName`: the module constructor the pass leaves alone. -/
def kTsanModuleCtorName : String := "tsan.module_ctor"

/-- Modelled from the spec: `EmbedSanitizer::getFuncName(F)`, which yields the function's name,
and its cast to `i8*`. -/
def funcNameArg (F : Function α) : Arg α := .pointerCast (.funcName F.name) .i8Ptr

/-- `__tsan_func_entry(i8* name)`. -/
def funcEntryCall (F : Function α) : Call α := ⟨tsanFuncEntry, [funcNameArg F]⟩

/-- `__tsan_func_exit(i8* name)`. -/
def funcExitCall (F : Function α) : Call α := ⟨tsanFuncExit, [funcNameArg F]⟩

/-- `__tsan_main_func_exit(i8* name)`. -/
def mainFuncExitCall (F : Function α) : Call α := ⟨tsanMainFuncExit, [funcNameArg F]⟩

/-- `__tsan_ignore_thread_begin()`. -/
def ignoreBeginCall : Call α := ⟨tsanIgnoreBegin, []⟩

/-- `__tsan_ignore_thread_end()`. -/
def ignoreEndCall : Call α := ⟨tsanIgnoreEnd, []⟩

section Pass

variable (intptrTy : IRType)

/-- `IRB.CreateCall(Callee, Args)` or `CallInst::Create(Callee, Args)`: a call that does not
throw when `initializeCallbacks` declares its callee `nounwind`. -/
def createCall (c : Call α) : Inst α :=
  .call c ((declarationOf (initializeCallbacks intptrTy) c.callee).elim false (·.noUnwind)) none

/-! ### `EscapeEnumerator` -/

/-- `changeToInvokeAndSplitBasicBlock(CI, CleanupBB)` for a call that may throw. -/
def Inst.toInvoke (cleanup : Nat) : Inst α → Inst α
  | .call c false none => .call c false (some cleanup)
  | I => I

theorem Inst.toInvoke_of_mayThrowCall {I : Inst α} (h : I.mayThrowCall = false) (n : Nat) :
    I.toInvoke n = I := by
  unfold Inst.toInvoke
  split
  · simp [Inst.mayThrowCall] at h
  · rfl

@[simp] theorem Inst.mayThrowCall_toInvoke (n : Nat) (I : Inst α) :
    (I.toInvoke n).mayThrowCall = false := by
  unfold Inst.toInvoke
  split
  · rfl
  · unfold Inst.mayThrowCall; split <;> simp_all

@[simp] theorem Inst.isExit_toInvoke (n : Nat) (I : Inst α) : (I.toInvoke n).isExit = I.isExit := by
  unfold Inst.toInvoke
  split <;> rfl

@[simp] theorem probeOf_toInvoke (n : Nat) (I : Inst α) (b : Bool) :
    probeOf (I.toInvoke n, b) = probeOf (I, b) := by
  unfold Inst.toInvoke
  split
  · cases b <;> rfl
  · rfl

/-- An invoke leads to the cleanup block besides the successors the instruction had. -/
theorem Inst.successors_toInvoke (n : Nat) (I : Inst α) :
    ∀ b ∈ (I.toInvoke n).successors, b = n ∨ b ∈ I.successors := by
  unfold Inst.toInvoke
  split
  · simp [Inst.successors]
  · exact fun b hb => .inr hb

/-- Turn the calls of a slot that may throw into invokes of the cleanup block. -/
def Slot.toInvoke (cleanup : Nat) (s : Slot α) : Slot α :=
  ⟨s.before.map (Inst.toInvoke cleanup), s.placed.map (Inst.toInvoke cleanup)⟩

@[simp] theorem Placed.items_map (f : Inst α → Inst α) (P : Placed α) :
    (P.map f).items = P.items.map fun x => (f x.1, x.2) := by
  cases P <;> rfl

@[simp] theorem Placed.inst?_map (f : Inst α → Inst α) (P : Placed α) :
    (P.map f).inst? = P.inst?.map f := by
  cases P <;> rfl

@[simp] theorem Slot.toInvoke_before (n : Nat) (s : Slot α) :
    (s.toInvoke n).before = s.before.map (Inst.toInvoke n) := rfl

@[simp] theorem Slot.toInvoke_placed (n : Nat) (s : Slot α) :
    (s.toInvoke n).placed = s.placed.map (Inst.toInvoke n) := rfl

/-- `AtExit->CreateCall(...)` at an exit: in front of the `ret` or `resume` that ends a block. -/
def Slot.atExit (exit : Inst α) (s : Slot α) : Slot α :=
  if s.placed.isExit then s.insertBefore [exit] else s

/-- `EscapeEnumerator EE(F, Name, HandleExceptions)` driven to its end (`EE.Next()` in LLVM's
`EscapeEnumerator.cpp`), with the call `exit` created at each exit it yields. The exits are
first the `ret` and `resume` instructions that end the blocks; then, when exceptions are
handled, the function may throw and some call may throw, every such call becomes an invoke
whose landing pad is a new cleanup block, and the last exit is that block's `resume`. -/
def escapeEnumerator (handleExceptions doesNotThrow : Bool) (exit : Inst α) (G : Blocks α) :
    Blocks α :=
  let G := G.map (List.modifyLast (Slot.atExit exit))
  if handleExceptions && !doesNotThrow && G.any (·.any (·.insts.any Inst.mayThrowCall)) then
    G.map (·.map (Slot.toInvoke G.length)) ++
      [[⟨[], .created .landingPad⟩, ⟨[exit], .created .resume⟩]]
  else G

/-- A slot of the blocks after `EscapeEnumerator`: the exit call in front of it if it ends its
block with an exit, then, if the calls were converted, invokes in place of the calls that may
throw. -/
theorem slotAt_escapeEnumerator_of_slotAt (hx dnt : Bool) (exit : Inst α) {G : Blocks α} {p : Pos}
    {s : Slot α} (h : G.slotAt p = some s) :
    ∃ f : Slot α → Slot α, (f = id ∨ ∃ n, f = Slot.toInvoke n) ∧
      (escapeEnumerator hx dnt exit G).slotAt p =
        some (f (if G.IsLast p then s.atExit exit else s)) := by
  have hG : p.1 < G.length := by
    obtain ⟨blk, hblk, -⟩ := Option.bind_eq_some.1 h
    exact (List.getElem?_eq_some_iff.1 hblk).1
  have h1 : Blocks.slotAt (G.map (List.modifyLast (Slot.atExit exit))) p =
      some (if G.IsLast p then s.atExit exit else s) := by
    rw [Blocks.slotAt_map_modifyLast, h]
    split <;> rfl
  unfold escapeEnumerator
  dsimp only
  split
  · refine ⟨Slot.toInvoke (G.map (List.modifyLast (Slot.atExit exit))).length, .inr ⟨_, rfl⟩, ?_⟩
    rw [Blocks.slotAt_append_of_lt _ (by simpa using hG), Blocks.slotAt_map_map, h1]
    rfl
  · exact ⟨id, .inl rfl, h1⟩

/-- The slots `EscapeEnumerator` adds form a cleanup block behind the blocks of the function,
which are not empty when it is added: the landing pad, and the exit call in front of the `resume`,
none of them in the entry block. -/
theorem slotAt_escapeEnumerator_of_none {hx dnt : Bool} {exit : Inst α} {G : Blocks α} {p : Pos}
    {s : Slot α} (h : (escapeEnumerator hx dnt exit G).slotAt p = some s) (hp : G.slotAt p = none) :
    0 < p.1 ∧ (s = ⟨[], .created .landingPad⟩ ∨ s = ⟨[exit], .created .resume⟩) := by
  have h1 : Blocks.slotAt (G.map (List.modifyLast (Slot.atExit exit))) p = none := by
    rw [Blocks.slotAt_map_modifyLast, hp]
    split <;> rfl
  unfold escapeEnumerator at h
  dsimp only at h
  split at h
  · rename_i hany
    obtain ⟨blk, hblk, -⟩ := List.any_eq_true.1 (Bool.and_eq_true_iff.1 hany).2
    have hlen : 0 < G.length := by
      simpa using List.length_pos_of_mem hblk
    rcases Nat.lt_or_ge p.1 G.length with hG | hG
    · rw [Blocks.slotAt_append_of_lt _ (by simpa using hG), Blocks.slotAt_map_map, h1] at h
      cases h
    · rw [Blocks.slotAt_append_of_le _ (by simpa using hG), Blocks.slotAt_pair] at h
      exact ⟨by omega, h.imp And.right And.right⟩
  · rw [h1] at h
    cases h

/-- Insert instructions at the front of what stands in front of the place. -/
def Slot.prepend (is : List (Inst α)) (s : Slot α) : Slot α :=
  { s with before := is ++ s.before }

@[simp] theorem Slot.prepend_before (is : List (Inst α)) (s : Slot α) :
    (s.prepend is).before = is ++ s.before := rfl

@[simp] theorem Slot.prepend_placed (is : List (Inst α)) (s : Slot α) :
    (s.prepend is).placed = s.placed := rfl

/-- Put instructions in front of the first instruction of the entry block
(`IRBuilder<> IRB(F.getEntryBlock().getFirstNonPHI())`). -/
def Blocks.atEntry (is : List (Inst α)) (G : Blocks α) : Blocks α :=
  G.modifySlot (Slot.prepend is) (0, 0)

/-- `InsertRuntimeIgnores(F)`. -/
def insertRuntimeIgnores (handleExceptions doesNotThrow : Bool) (G : Blocks α) : Blocks α :=
  escapeEnumerator handleExceptions doesNotThrow (createCall intptrTy ignoreEndCall)
    (G.atEntry [createCall intptrTy ignoreBeginCall])

/-! ### Lowering at a slot -/

/-- The calls the lowering of a load or store inserts in front of it. -/
def instrumentLoadOrStoreAt (F : Function Value) (G : Blocks Value) (p : Pos) :
    Blocks Value × Bool :=
  let r := match F.instAt p with
    | some (.load a) => instrumentLoadOrStore a none
    | some (.store a v ty) => instrumentLoadOrStore a (some (v, ty))
    | _ => ([], false)
  (G.modifySlot (·.insertBefore (r.1.map (createCall intptrTy))) p, r.2)

/-- What a lowering does to the slot of an atomic instruction. The cast of an atomic load's
result, the comparison, `inttoptr` and the two `insertvalue` of a `cmpxchg` are `other`
instructions. -/
def AtomicLowering.apply : AtomicLowering α → Slot α → Slot α
  | .keep, s => s
  | .replaceUses c _, s => s.insertBefore [createCall intptrTy c, .other]
  | .replaceInst c, s => { s with placed := .created (createCall intptrTy c) }
  | .cmpXchg c _ oldValTy, s =>
    ⟨s.before ++ ([createCall intptrTy c, .other] ++ (if oldValTy.isSome then [.other] else []) ++
      [.other, .other]), .erased⟩

/-- `instrumentAtomic(I, DL)` for the atomic instruction at `p`. -/
def instrumentAtomicAt (F : Function α) (G : Blocks α) (p : Pos) : Blocks α × Bool :=
  match F.instAt p with
  | some I => (G.modifySlot ((instrumentAtomic I).1.apply intptrTy) p, (instrumentAtomic I).2)
  | none => (G, false)

/-- `instrumentMemIntrinsic(I)` for the memory intrinsic at `p`: the call in front, the
intrinsic erased. -/
def instrumentMemIntrinsicAt (F : Function α) (G : Blocks α) (p : Pos) : Blocks α :=
  match F.instAt p with
  | some (.memIntrinsic m) =>
    G.modifySlot (fun s => ⟨s.before ++ [createCall intptrTy (instrumentMemIntrinsic intptrTy m)],
      .erased⟩) p
  | _ => G

/-- `for (auto Inst : List) Res |= instrument(Inst)`. -/
def instrumentEach (step : Blocks α → Pos → Blocks α × Bool) (ps : List Pos) (G : Blocks α)
    (res : Bool) : Blocks α × Bool :=
  ps.foldl (fun acc p => let r := step acc.1 p; (r.1, acc.2 || r.2)) (G, res)

/-! ### The pass -/

/-- The accesses, atomics and memory intrinsics of the function, instrumented; and `Res`. -/
def instrumentBody (opts : Options) (T : AddressTests Value) (F : Function Value) :
    Blocks Value × Bool :=
  let st := traverse T F
  let G := st.printCalls.foldl (fun G pc => G.modifySlot (·.insertBefore [createCall intptrTy pc.2])
    pc.1) (initialBlocks F)
  let r := if opts.instrumentMemoryAccesses && F.sanitizeThread then
      instrumentEach (instrumentLoadOrStoreAt intptrTy F) st.all G false
    else (G, false)
  let r := if opts.instrumentAtomics then
      instrumentEach (instrumentAtomicAt intptrTy F) st.atomics r.1 r.2
    else r
  if opts.instrumentMemIntrinsics && F.sanitizeThread then
    (st.memIntrinCalls.foldl (instrumentMemIntrinsicAt intptrTy F) r.1, r.2)
  else r

/-- Whether `runOnFunction` puts entry and exit probes into the function. -/
def instrumentsEntryExit (opts : Options) (T : AddressTests Value) (F : Function Value) : Bool :=
  F.name != kTsanModuleCtorName &&
    ((instrumentBody intptrTy opts T F).2 || (traverse T F).hasCalls) &&
    opts.instrumentFuncEntryExit

/-- `runOnFunction(F)`: the instrumented function and the result `Res`. -/
def runOnFunction (opts : Options) (T : AddressTests Value) (F : Function Value) :
    Blocks Value × Bool :=
  if F.name = kTsanModuleCtorName then (initialBlocks F, false)
  else
    let hasCalls := (traverse T F).hasCalls
    let r := instrumentBody intptrTy opts T F
    let G := if F.noCheckingAtRunTime && hasCalls then
        insertRuntimeIgnores intptrTy opts.handleCxxExceptions F.doesNotThrow r.1
      else r.1
    if (r.2 || hasCalls) && opts.instrumentFuncEntryExit then
      let G := escapeEnumerator opts.handleCxxExceptions F.doesNotThrow
        (createCall intptrTy (funcExitCall F)) (G.atEntry [createCall intptrTy (funcEntryCall F)])
      let G := if F.name = "main" then
          escapeEnumerator opts.handleCxxExceptions F.doesNotThrow
            (createCall intptrTy (mainFuncExitCall F)) G
        else G
      (G, true)
    else (G, r.2)

end Pass

end EmbedSanitizer
