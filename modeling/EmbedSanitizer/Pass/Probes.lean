import EmbedSanitizer.Pass.Intrinsics

/-!
# The calls the pass inserts, against their declarations

Three callbacks are called otherwise than `initializeCallbacks` declares them:
`__tsan_print_variables` is declared `void(i32, i8*)` and called with four arguments, and
`__tsan_func_exit` and `__tsan_main_func_exit` are declared `void()` and called with the
function's name. The print call also takes the address of every access the scan looks at,
`swifterror` slots included, whose only legal uses are loads, stores and call arguments of
`swifterror` parameters (`swiftErrorStore_calls`).

These three are the only ones: every other call the pass inserts, whatever the function and the
options, names a callback that `initializeCallbacks` declares with as many parameters as the call
passes arguments (`insertedCalls_declared`). The property of the calls inserted into each slot
(`Blocks.CallsSatisfy`) is carried through the loops of the body by `instrumentBody_induction`,
with one lemma per lowering, and through the entry and exit probes by `runOnFunction_induction`.

Every probe of a load or a store passes its line as `IRB.CreateIntCast(Line, Int8Ty)`: the
run-time receives the line modulo `2 ^ 8` (`storeOnLine256_line`).
-/

namespace EmbedSanitizer

variable {α : Type}

/-- The values of the function an argument uses; names, lines and constants use none. -/
def Arg.operands : Arg α → List α
  | .operand v => [v]
  | .pointerCast a _ | .intCast a _ | .bitOrPointerCast a _ | .intToPtr a _ | .extractElement a _ =>
    a.operands
  | _ => []

/-- The calls the pass inserted, in the order of the instrumented function. -/
def Blocks.insertedCalls (G : Blocks α) : List (Call α) :=
  (G.code.flatMap id).flatMap probeOf

section Declarations

variable (intptrTy : IRType)

/-- The print call uses the address of the access. -/
theorem addr_mem_printVariables_operands (tag : Nat) (a : Access α) :
    a.addr ∈ (printVariables tag a).args.flatMap Arg.operands := by
  simp [printVariables, Arg.operands]

end Declarations

/-! ### Callees declared with the arguments they get -/

/-- Whether `decls` declares the callee of `c` with as many parameters as `c` passes arguments. -/
def Call.declared (decls : List Declaration) (c : Call α) : Bool :=
  decls.any fun d => d.name == c.callee && d.type.params.length == c.args.length

section Declared

variable (intptrTy : IRType)

/-- `__tsan_func_exit` is declared without parameters and called with the function's name. -/
theorem funcExitCall_not_declared (F : Function α) :
    (funcExitCall F).declared (initializeCallbacks intptrTy) = false := rfl

/-- `__tsan_main_func_exit` is declared without parameters and called with the function's name. -/
theorem mainFuncExitCall_not_declared (F : Function α) :
    (mainFuncExitCall F).declared (initializeCallbacks intptrTy) = false := rfl

/-- `__tsan_print_variables` is declared with two parameters and called with four arguments. -/
theorem printVariables_not_declared (tag : Nat) (a : Access α) :
    (printVariables tag a).declared (initializeCallbacks intptrTy) = false := rfl

theorem declared_of_mem {decls : List Declaration} {c : Call α} {d : Declaration} (hd : d ∈ decls)
    (hn : d.name = c.callee) (hl : d.type.params.length = c.args.length) :
    c.declared decls = true :=
  List.any_eq_true.2 ⟨d, hd, by simp [hn, hl]⟩

theorem mem_initializeCallbacks_of_sized {i : Nat} (hi : i < kNumberOfAccessSizes)
    {d : Declaration} (hd : d ∈ sizedCallbacks i) : d ∈ initializeCallbacks intptrTy := by
  simp only [initializeCallbacks, List.mem_append, List.mem_flatMap, List.mem_range]
  exact .inl (.inr ⟨i, hi, hd⟩)

/-- A callback of access size `i`, declared with the parameters `ps`. -/
theorem declared_of_sized {i : Nat} (hi : i < kNumberOfAccessSizes) {c : Call α} (ret : IRType)
    (ps : List IRType) (hd : ⟨c.callee, ⟨ret, ps⟩, true⟩ ∈ sizedCallbacks i)
    (hl : ps.length = c.args.length) : c.declared (initializeCallbacks intptrTy) = true :=
  declared_of_mem (mem_initializeCallbacks_of_sized intptrTy hi hd) rfl hl

/-- The read and write callbacks of access size `i` take four arguments. -/
theorem declared_access {i : Nat} (hi : i < kNumberOfAccessSizes) {c : Call α}
    (hc : c.callee ∈ [tsanRead i, tsanWrite i, tsanUnalignedRead i, tsanUnalignedWrite i])
    (hl : c.args.length = 4) : c.declared (initializeCallbacks intptrTy) = true := by
  refine declared_of_sized intptrTy hi .void [.i8Ptr, .int 8, .i8Ptr, .i8Ptr] ?_ hl.symm
  simp only [List.mem_cons, List.not_mem_nil, or_false] at hc
  rcases hc with h | h | h | h <;> simp [sizedCallbacks, h]

/-- The call `instrumentLoadOrStore` makes has a declared callee, with its number of
arguments. -/
theorem instrumentLoadOrStore_declared (a : Access Value) (stored : Option (Value × IRType)) :
    ∀ c ∈ (instrumentLoadOrStore a stored).1, c.declared (initializeCallbacks intptrTy) = true := by
  unfold instrumentLoadOrStore
  split
  · simp
  split
  · simp
  rename_i idx hidx
  have hi := (getMemoryAccessFuncIndex_eq_some.1 hidx).1
  -- the vtable callbacks, declared behind the sized ones
  split <;> simp only [List.mem_singleton, forall_eq]
  · exact declared_of_mem (List.mem_append_right _ (List.mem_iff_getElem?.2 ⟨0, rfl⟩)) rfl rfl
  · exact declared_of_mem (List.mem_append_right _ (List.mem_iff_getElem?.2 ⟨1, rfl⟩)) rfl rfl
  · exact declared_access intptrTy hi (by split <;> split <;> simp) rfl

/-- The call the lowering of an atomic instruction makes has a declared callee, with its number
of arguments. -/
theorem instrumentAtomic_declared (I : Inst α) :
    ∀ c ∈ (instrumentAtomic I).1.call?, c.declared (initializeCallbacks intptrTy) = true := by
  intro c hc
  cases I with
  | load a =>
    simp only [instrumentAtomic] at hc
    split at hc <;> simp only [AtomicLowering.call?, Option.mem_def, Option.some.injEq,
      reduceCtorEq] at hc
    rename_i idx _ hidx _
    subst hc
    exact declared_of_sized intptrTy (getMemoryAccessFuncIndex_eq_some.1 hidx).1
      (.int (bitSize idx)) [.ptr (.int (bitSize idx)), .int 32] (by simp [sizedCallbacks]) rfl
  | store a =>
    simp only [instrumentAtomic] at hc
    split at hc <;> simp only [AtomicLowering.call?, Option.mem_def, Option.some.injEq,
      reduceCtorEq] at hc
    rename_i idx _ hidx _
    subst hc
    exact declared_of_sized intptrTy (getMemoryAccessFuncIndex_eq_some.1 hidx).1 .void
      [.ptr (.int (bitSize idx)), .int (bitSize idx), .int 32] (by simp [sizedCallbacks]) rfl
  | atomicRMW r =>
    simp only [instrumentAtomic] at hc
    split at hc; · simp [AtomicLowering.call?] at hc
    split at hc <;> simp only [AtomicLowering.call?, Option.mem_def, Option.some.injEq,
      reduceCtorEq] at hc
    rename_i idx hidx _ f hf
    subst hc
    refine declared_of_sized intptrTy (getMemoryAccessFuncIndex_eq_some.1 hidx).1
      (.int (bitSize idx)) [.ptr (.int (bitSize idx)), .int (bitSize idx), .int 32] ?_ rfl
    simp only [sizedCallbacks, List.mem_append, List.mem_filterMap]
    exact .inl (.inr ⟨r.op, by cases r.op <;> simp, by simp [hf]⟩)
  | cmpXchg x =>
    simp only [instrumentAtomic] at hc
    split at hc <;> simp only [AtomicLowering.call?, Option.mem_def, Option.some.injEq,
      reduceCtorEq] at hc
    rename_i idx hidx
    subst hc
    exact declared_of_sized intptrTy (getMemoryAccessFuncIndex_eq_some.1 hidx).1
      (.int (bitSize idx))
      [.ptr (.int (bitSize idx)), .int (bitSize idx), .int (bitSize idx), .int 32, .int 32]
      (by simp [sizedCallbacks]) rfl
  | fence =>
    simp only [instrumentAtomic, AtomicLowering.call?, Option.mem_def, Option.some.injEq] at hc
    subst hc
    -- the fence callbacks, declared behind the sized ones
    split
    · exact declared_of_mem (List.mem_append_right _ (List.mem_iff_getElem?.2 ⟨3, rfl⟩)) rfl rfl
    · exact declared_of_mem (List.mem_append_right _ (List.mem_iff_getElem?.2 ⟨2, rfl⟩)) rfl rfl
  | _ => simp [instrumentAtomic, AtomicLowering.call?] at hc

/-- The library function that replaces a memory intrinsic is declared with three parameters. -/
theorem instrumentMemIntrinsic_declared (m : MemIntrinsic α) :
    (instrumentMemIntrinsic intptrTy m).declared (initializeCallbacks intptrTy) = true := by
  -- the library functions, declared last
  unfold instrumentMemIntrinsic
  split
  · exact declared_of_mem (List.mem_append_right _ (List.mem_iff_getElem?.2 ⟨6, rfl⟩)) rfl rfl
  · split
    · exact declared_of_mem (List.mem_append_right _ (List.mem_iff_getElem?.2 ⟨5, rfl⟩)) rfl rfl
    · exact declared_of_mem (List.mem_append_right _ (List.mem_iff_getElem?.2 ⟨4, rfl⟩)) rfl rfl

end Declared

/-! ### A function with a `swifterror` slot -/

/-- `f` stores to a `swifterror` slot, then calls `g`. -/
def swiftErrorStore : Function Value :=
  ⟨"f", [[.store (.plain32 (.alloca 0 true)) (.other 1 0) (.int 32), .call ⟨"g", []⟩ true none,
    .ret]], true, false, true⟩

/-- Among the calls inserted into `swiftErrorStore`, `__tsan_func_exit` and
`__tsan_print_variables` disagree with their declarations in the number of arguments, and the
print call uses the `swifterror` slot; `__tsan_main_func_exit`, which `main` gets, disagrees with
its declaration in every function. -/
theorem swiftErrorStore_calls :
    (Value.alloca 0 true).isSwiftError = true ∧
      funcExitCall swiftErrorStore ∈
        (runOnFunction (.int 64) {} (passTests fun _ => false) swiftErrorStore).1.insertedCalls ∧
      (funcExitCall swiftErrorStore).declared (initializeCallbacks (.int 64)) = false ∧
      printVariables 391 (.plain32 (.alloca 0 true)) ∈
        (runOnFunction (.int 64) {} (passTests fun _ => false) swiftErrorStore).1.insertedCalls ∧
      (printVariables 391 (Access.plain32 (.alloca 0 true))).declared
        (initializeCallbacks (.int 64)) = false ∧
      Value.alloca 0 true ∈
        (printVariables 391 (Access.plain32 (.alloca 0 true))).args.flatMap Arg.operands ∧
      ∀ F : Function Value, (mainFuncExitCall F).declared (initializeCallbacks (.int 64)) = false :=
  ⟨rfl, by decide, funcExitCall_not_declared _ _, by decide, printVariables_not_declared _ _ _,
    addr_mem_printVariables_operands _ _, mainFuncExitCall_not_declared _⟩

/-! ### Lines -/

/-- A store to `counter` on line 256 of `f.c`. -/
def storeOnLine256 : Function Value :=
  ⟨"f", [[.store ⟨.global counter, .int 32, 32, 0, none, .crossThread, false, ⟨256, "f.c"⟩⟩
    (.other 1 0) (.int 32), .ret]], true, false, true⟩

/-- The store on line 256 gets `__tsan_print_variables` and `__tsan_write4`, and both receive the
line as `0`. -/
theorem storeOnLine256_line (env : Value → Nat) :
    (runOnFunction (.int 64) {} (passTests fun _ => false) storeOnLine256).1.insertedCalls.map
        (·.callee) = [tsanFuncEntry, tsanPrintVariables, tsanWrite 2, tsanFuncExit] ∧
      ∀ c ∈ (runOnFunction (.int 64) {} (passTests fun _ => false) storeOnLine256).1.insertedCalls,
        c.callee ∈ [tsanPrintVariables, tsanWrite 2] →
          lineArg ⟨256, "f.c"⟩ ∈ c.args ∧ (lineArg ⟨256, "f.c"⟩ : Arg Value).eval env = some 0 := by
  have hline : ∀ c ∈ (runOnFunction (.int 64) {} (passTests fun _ => false) storeOnLine256).1.insertedCalls,
      c.callee ∈ [tsanPrintVariables, tsanWrite 2] → lineArg ⟨256, "f.c"⟩ ∈ c.args := by
    decide
  exact ⟨by decide, fun c hc hcallee => ⟨hline c hc hcallee, eval_lineArg env _⟩⟩

/-! ### The inserted calls through the stages -/

/-- Every call the pass inserted into the slot satisfies `Q`. -/
def Slot.CallsSatisfy (Q : Call α → Prop) (s : Slot α) : Prop :=
  ∀ x ∈ s.items, ∀ c ∈ probeOf x, Q c

/-- Every call the pass inserted into the blocks satisfies `Q`. -/
def Blocks.CallsSatisfy (Q : Call α → Prop) (G : Blocks α) : Prop :=
  ∀ p s, G.slotAt p = some s → s.CallsSatisfy Q

section Satisfy

variable {Q : Call α → Prop}

@[simp] theorem probeOf_other : probeOf ((.other : Inst α), true) = [] := rfl

@[simp] theorem probeOf_landingPad : probeOf ((.landingPad : Inst α), true) = [] := rfl

@[simp] theorem probeOf_resume : probeOf ((.resume : Inst α), true) = [] := rfl

/-- A slot that keeps what stands in front of its place, adds `is` behind it, and puts `P` at the
place. -/
theorem Slot.CallsSatisfy.rebuild {s : Slot α} (h : s.CallsSatisfy Q) (is : List (Inst α))
    (his : ∀ I ∈ is, ∀ c ∈ probeOf (I, true), Q c) (P : Placed α)
    (hP : ∀ x ∈ P.items, ∀ c ∈ probeOf x, Q c) : (⟨s.before ++ is, P⟩ : Slot α).CallsSatisfy Q := by
  simp only [Slot.CallsSatisfy, Slot.items, List.map_append, List.mem_append, or_imp, forall_and,
    List.forall_mem_map] at h ⊢
  exact ⟨⟨h.1, his⟩, hP⟩

theorem Slot.CallsSatisfy.insertBefore {s : Slot α} (h : s.CallsSatisfy Q) {is : List (Inst α)}
    (his : ∀ I ∈ is, ∀ c ∈ probeOf (I, true), Q c) : (s.insertBefore is).CallsSatisfy Q :=
  h.rebuild is his s.placed fun x hx => h x (by simp [Slot.items, hx])

theorem Slot.CallsSatisfy.prepend {s : Slot α} (h : s.CallsSatisfy Q) {is : List (Inst α)}
    (his : ∀ I ∈ is, ∀ c ∈ probeOf (I, true), Q c) : (s.prepend is).CallsSatisfy Q := by
  simp only [Slot.CallsSatisfy, Slot.items_prepend, List.mem_append, List.mem_map]
  rintro x (⟨I, hI, rfl⟩ | hx)
  exacts [his I hI, h x hx]

theorem Slot.CallsSatisfy.toInvoke {s : Slot α} (h : s.CallsSatisfy Q) (n : Nat) :
    (s.toInvoke n).CallsSatisfy Q := by
  simp only [Slot.CallsSatisfy, Slot.items, Slot.toInvoke_before, Slot.toInvoke_placed,
    Placed.items_map, List.map_map, List.mem_append, List.mem_map, Function.comp_def] at h ⊢
  rintro _ (⟨I, hI, rfl⟩ | ⟨x, hx, rfl⟩) <;> rw [probeOf_toInvoke]
  exacts [h _ (.inl ⟨I, hI, rfl⟩), h x (.inr hx)]

theorem Slot.CallsSatisfy.atExit {s : Slot α} (h : s.CallsSatisfy Q) {exit : Inst α}
    (hexit : ∀ c ∈ probeOf (exit, true), Q c) : (s.atExit exit).CallsSatisfy Q := by
  unfold Slot.atExit
  split
  · exact h.insertBefore (by simpa using hexit)
  · exact h

theorem Blocks.CallsSatisfy.modifySlot {G : Blocks α} (h : G.CallsSatisfy Q) {f : Slot α → Slot α}
    {p : Pos} (hf : ∀ s, s.CallsSatisfy Q → (f s).CallsSatisfy Q) :
    (G.modifySlot f p).CallsSatisfy Q := by
  intro q s hs
  rw [Blocks.slotAt_modifySlot] at hs
  split at hs
  · obtain ⟨s', hs', rfl⟩ := Option.map_eq_some'.1 hs
    exact hf s' (h _ s' hs')
  · exact h q s hs

theorem Blocks.CallsSatisfy.atEntry {G : Blocks α} (h : G.CallsSatisfy Q) {is : List (Inst α)}
    (his : ∀ I ∈ is, ∀ c ∈ probeOf (I, true), Q c) : (G.atEntry is).CallsSatisfy Q :=
  h.modifySlot fun _ hs => hs.prepend his

theorem Blocks.CallsSatisfy.escapeEnumerator {G : Blocks α} (h : G.CallsSatisfy Q) (hx dnt : Bool)
    {exit : Inst α} (hexit : ∀ c ∈ probeOf (exit, true), Q c) :
    (escapeEnumerator hx dnt exit G).CallsSatisfy Q := by
  intro p t ht
  cases hs : G.slotAt p with
  | some s =>
    obtain ⟨f, hf, hft⟩ := slotAt_escapeEnumerator_of_slotAt hx dnt exit hs
    have hs' : (if G.IsLast p then s.atExit exit else s).CallsSatisfy Q := by
      split
      exacts [(h p s hs).atExit hexit, h p s hs]
    rw [ht, Option.some.injEq] at hft
    rcases hf with rfl | ⟨n, rfl⟩ <;> rw [hft]
    exacts [hs', hs'.toInvoke n]
  | none =>
    -- a slot of the new cleanup block
    rcases (slotAt_escapeEnumerator_of_none ht hs).2 with rfl | rfl
    · simp [Slot.CallsSatisfy, Slot.items, Placed.items]
    · simpa [Slot.CallsSatisfy, Slot.items, Placed.items] using hexit

theorem callsSatisfy_initialBlocks (F : Function α) : (initialBlocks F).CallsSatisfy Q := by
  intro p s hs
  rw [slotAt_initialBlocks] at hs
  obtain ⟨I, -, rfl⟩ := Option.map_eq_some'.1 hs
  simp [Slot.CallsSatisfy, Slot.items, Placed.items]

/-- The calls inserted into the blocks are those inserted into their slots. -/
theorem Blocks.CallsSatisfy.insertedCalls {G : Blocks α} (h : G.CallsSatisfy Q) :
    ∀ c ∈ G.insertedCalls, Q c := by
  intro c hc
  simp only [Blocks.insertedCalls, Blocks.code, List.flatMap_id, List.mem_flatMap, List.mem_flatten,
    List.mem_map] at hc
  obtain ⟨x, ⟨_, ⟨blk, hblk, rfl⟩, hx⟩, hc⟩ := hc
  obtain ⟨s, hs, hx⟩ := List.mem_flatMap.1 hx
  obtain ⟨b, hb⟩ := List.mem_iff_getElem?.1 hblk
  obtain ⟨i, hi⟩ := List.mem_iff_getElem?.1 hs
  exact h (b, i) s (by simp [Blocks.slotAt, hb, hi]) x hx c hc

end Satisfy

section Run

variable (intptrTy : IRType)

/-- An atomic lowering keeps `Q` when the call it makes satisfies it. -/
theorem Slot.CallsSatisfy.apply {Q : Call α → Prop} {s : Slot α} (h : s.CallsSatisfy Q)
    {L : AtomicLowering α} (hL : ∀ c ∈ L.call?, Q c) : (L.apply intptrTy s).CallsSatisfy Q := by
  cases L with
  | keep => exact h
  | replaceUses c ty => exact h.insertBefore (by simpa using hL c rfl)
  | replaceInst c =>
    simpa using h.rebuild [] (by simp) (.created (createCall intptrTy c))
      (by simpa [Placed.items] using hL c rfl)
  | cmpXchg c cmp ty =>
    refine h.rebuild _ ?_ .erased (by simp [Placed.items])
    split <;> simpa using hL c rfl

/-- The callbacks the pass calls otherwise than declared. -/
def undeclaredCallees : List String := [tsanPrintVariables, tsanFuncExit, tsanMainFuncExit]

/-- Every call the body instrumentation inserts has a callee that `initializeCallbacks` declares
with as many parameters as it passes arguments, but the print calls. -/
theorem callsSatisfy_instrumentBody (opts : Options) (T : AddressTests Value) (F : Function Value) :
    (instrumentBody intptrTy opts T F).1.CallsSatisfy fun c =>
      c.declared (initializeCallbacks intptrTy) = true ∨ c.callee ∈ undeclaredCallees := by
  refine instrumentBody_induction intptrTy opts T F (callsSatisfy_initialBlocks F) ?print ?ls
    ?atomic ?mem
  case print =>
    refine fun G pc hpc hG => hG.modifySlot fun s hs => hs.insertBefore ?_
    obtain ⟨tag, a, hpc⟩ := traverse_printCalls T F pc hpc
    simp [hpc, printVariables, undeclaredCallees]
  case ls =>
    refine fun G p hG => hG.modifySlot fun s hs => hs.insertBefore fun I hI => ?_
    obtain ⟨c, hc, rfl⟩ := List.mem_map.1 hI
    simp only [probeOf_createCall, List.mem_singleton, forall_eq]
    split at hc
    · exact .inl (instrumentLoadOrStore_declared intptrTy _ _ c hc)
    · exact .inl (instrumentLoadOrStore_declared intptrTy _ _ c hc)
    · simp at hc
  case atomic =>
    intro G p hG
    unfold instrumentAtomicAt
    split
    · exact hG.modifySlot fun s hs =>
        hs.apply intptrTy fun c hc => .inl (instrumentAtomic_declared intptrTy _ c hc)
    · exact hG
  case mem =>
    intro G p hG
    unfold instrumentMemIntrinsicAt
    split
    · exact hG.modifySlot fun s hs => hs.rebuild _
        (by simpa using .inl (instrumentMemIntrinsic_declared intptrTy _)) .erased
        (by simp [Placed.items])
    · exact hG

/-- Every call the pass inserts names a callback that `initializeCallbacks` declares with as many
parameters as the call passes arguments, but the calls to `__tsan_print_variables`,
`__tsan_func_exit` and `__tsan_main_func_exit`. -/
theorem insertedCalls_declared (opts : Options) (T : AddressTests Value) (F : Function Value) :
    ∀ c ∈ (runOnFunction intptrTy opts T F).1.insertedCalls,
      c.declared (initializeCallbacks intptrTy) = true ∨ c.callee ∈ undeclaredCallees := by
  refine Blocks.CallsSatisfy.insertedCalls ?_
  by_cases hname : F.name = kTsanModuleCtorName
  · simpa [runOnFunction, hname] using callsSatisfy_initialBlocks F
  -- the entry and exit probes, by their places in the table of `initializeCallbacks`
  have hentry : ∀ c ∈ [ignoreBeginCall, funcEntryCall F],
      c.declared (initializeCallbacks intptrTy) = true ∨ c.callee ∈ undeclaredCallees := by
    simp only [List.forall_mem_cons, List.not_mem_nil, false_imp_iff, implies_true, and_true]
    exact ⟨.inl (declared_of_mem (List.mem_iff_getElem?.2 ⟨4, rfl⟩) rfl rfl),
      .inl (declared_of_mem (List.mem_iff_getElem?.2 ⟨2, rfl⟩) rfl rfl)⟩
  have hexit : ∀ c ∈ [ignoreEndCall, funcExitCall F, mainFuncExitCall F],
      c.declared (initializeCallbacks intptrTy) = true ∨ c.callee ∈ undeclaredCallees := by
    simp only [List.forall_mem_cons, List.not_mem_nil, false_imp_iff, implies_true, and_true]
    exact ⟨.inl (declared_of_mem (List.mem_iff_getElem?.2 ⟨5, rfl⟩) rfl rfl),
      .inr (by simp [undeclaredCallees, funcExitCall]),
      .inr (by simp [undeclaredCallees, mainFuncExitCall])⟩
  exact runOnFunction_induction intptrTy opts T hname (callsSatisfy_instrumentBody intptrTy opts T F)
    (fun G c hc hG => hG.atEntry (by simpa using hentry c hc))
    fun G c hc hG => hG.escapeEnumerator _ _ (by simpa using hexit c hc)

/-- The probe of the store on line 256 is `__tsan_write4`, declared with its four parameters. -/
theorem insertedCalls_declared_storeOnLine256 :
    (⟨tsanWrite 2, [.pointerCast (.operand (.global counter)) .i8Ptr, lineArg ⟨256, "f.c"⟩,
        .objectName (.global counter), .fileName ⟨256, "f.c"⟩]⟩ : Call Value) ∈
        (runOnFunction (.int 64) {} (passTests fun _ => false) storeOnLine256).1.insertedCalls ∧
      ((⟨tsanWrite 2, [.pointerCast (.operand (.global counter)) .i8Ptr, lineArg ⟨256, "f.c"⟩,
        .objectName (.global counter), .fileName ⟨256, "f.c"⟩]⟩ : Call Value).declared
          (initializeCallbacks (.int 64)) = true ∨ tsanWrite 2 ∈ undeclaredCallees) :=
  have h : (⟨tsanWrite 2, [.pointerCast (.operand (.global counter)) .i8Ptr,
      lineArg ⟨256, "f.c"⟩, .objectName (.global counter), .fileName ⟨256, "f.c"⟩]⟩ : Call Value) ∈
      (runOnFunction (.int 64) {} (passTests fun _ => false) storeOnLine256).1.insertedCalls := by
    decide
  ⟨h, insertedCalls_declared (.int 64) {} _ _ _ h⟩

end Run

end EmbedSanitizer
