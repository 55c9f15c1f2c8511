import EmbedSanitizer.Pass.Probes

/-!
# What `Res` reports

`runOnFunction` returns `Res`, which the pass manager reads as whether the function changed. The
loop over the loads and stores sets it when `instrumentLoadOrStore` inserts its call, the loop
over the atomic instructions when `instrumentAtomic` lowers one, and the entry and exit probes
set it. Three changes leave it alone: the `__tsan_print_variables` calls that
`chooseInstructionsToInstrument` inserts, the calls that replace the memory intrinsics
(`instrumentMemIntrinsic` returns `false`), and the calls of `InsertRuntimeIgnores`.

A step of a loop that returns `false` inserts nothing (`instrumentLoadOrStore_fst_of_false`,
`instrumentAtomic_keep`), so along a body instrumentation that returns `false` every property
the other steps keep holds (`instrumentBody_induction_of_false`), and a run of the pass that
returns `false` has inserted no call but those three kinds (`runOnFunction_false`).
-/

namespace EmbedSanitizer

variable {α : Type}

/-! ### The loops -/

theorem instrumentEach_cons (step : Blocks α → Pos → Blocks α × Bool) (p : Pos) (ps : List Pos)
    (G : Blocks α) (res : Bool) :
    instrumentEach step (p :: ps) G res =
      instrumentEach step ps (step G p).1 (res || (step G p).2) := rfl

/-- A loop that returns `false` started from `false` and had every step return `false`: a
property that holds at the start and that each step returning `false` keeps holds at the end. -/
theorem instrumentEach_induction_of_false {motive : Blocks α → Prop}
    (step : Blocks α → Pos → Blocks α × Bool)
    (hstep : ∀ G p, motive G → (step G p).2 = false → motive (step G p).1) :
    ∀ (ps : List Pos) (G : Blocks α) (res : Bool), (res = false → motive G) →
      (instrumentEach step ps G res).2 = false → motive (instrumentEach step ps G res).1
  | [], _, _, hG, h => hG h
  | p :: ps, G, res, hG, h => by
    rw [instrumentEach_cons] at h ⊢
    refine instrumentEach_induction_of_false step hstep ps _ _ (fun hr => ?_) h
    rw [Bool.or_eq_false_iff] at hr
    exact hstep G p (hG hr.1) hr.2

/-- `instrumentLoadOrStore` returns `false` only when it inserts nothing: a `swifterror`
address, or a size with no callback. -/
theorem instrumentLoadOrStore_fst_of_false {a : Access Value} {stored : Option (Value × IRType)}
    (h : (instrumentLoadOrStore a stored).2 = false) : (instrumentLoadOrStore a stored).1 = [] := by
  unfold instrumentLoadOrStore at h ⊢
  split
  · rfl
  · split <;> simp_all only [reduceCtorEq]
    split <;> simp_all

/-- `instrumentAtomic` returns `false` only when it leaves the instruction alone: a size with no
callback, or an `atomicrmw` operation with none. -/
theorem instrumentAtomic_keep {I : Inst α} (h : (instrumentAtomic I).2 = false) :
    (instrumentAtomic I).1 = .keep := by
  unfold instrumentAtomic at h ⊢
  split <;> (try split) <;> (try split) <;> simp_all

section Body

variable (intptrTy : IRType)

/-- Induction along a body instrumentation that returns `false`: every step of the loops over the
loads and stores and over the atomic instructions returned `false`. -/
theorem instrumentBody_induction_of_false {motive : Blocks Value → Prop} (opts : Options)
    (T : AddressTests Value) (F : Function Value) (hinit : motive (initialBlocks F))
    (hprint : ∀ G, ∀ pc ∈ (traverse T F).printCalls, motive G →
      motive (G.modifySlot (·.insertBefore [createCall intptrTy pc.2]) pc.1))
    (hls : ∀ G p, motive G → (instrumentLoadOrStoreAt intptrTy F G p).2 = false →
      motive (instrumentLoadOrStoreAt intptrTy F G p).1)
    (hat : ∀ G p, motive G → (instrumentAtomicAt intptrTy F G p).2 = false →
      motive (instrumentAtomicAt intptrTy F G p).1)
    (hmem : ∀ G p, motive G → motive (instrumentMemIntrinsicAt intptrTy F G p))
    (h : (instrumentBody intptrTy opts T F).2 = false) :
    motive (instrumentBody intptrTy opts T F).1 := by
  have stage : ∀ (b : Bool) (f : Blocks Value × Bool → Blocks Value × Bool) (r : Blocks Value × Bool),
      (∀ r : Blocks Value × Bool, (r.2 = false → motive r.1) → (f r).2 = false → motive (f r).1) →
      (r.2 = false → motive r.1) → (if b then f r else r).2 = false →
        motive (if b then f r else r).1 :=
    fun b f r hf hr => by split; exacts [hf r hr, hr]
  exact stage _ (fun r => ((traverse T F).memIntrinCalls.foldl (instrumentMemIntrinsicAt intptrTy F)
      r.1, r.2)) _ (fun r hr h => List.foldlRecOn _ _ _ (hr h) fun G hG p _ => hmem G p hG)
    (stage _ (fun r => instrumentEach (instrumentAtomicAt intptrTy F) (traverse T F).atomics r.1 r.2)
      _ (fun r hr => instrumentEach_induction_of_false _ hat _ _ _ hr)
      (stage _ (fun r => instrumentEach (instrumentLoadOrStoreAt intptrTy F) (traverse T F).all r.1
        r.2) (_, false) (fun r hr => instrumentEach_induction_of_false _ hls _ _ _ hr)
        fun _ => List.foldlRecOn _ _ _ hinit fun G hG pc hpc => hprint G pc hpc hG)) h

/-- The callbacks whose calls `Res` does not report. -/
def unreportedCallees : List String :=
  [tsanPrintVariables, memsetFn, memcpyFn, memmoveFn, tsanIgnoreBegin, tsanIgnoreEnd]

/-- A body instrumentation that returns `false` has inserted only print calls and the calls that
replace memory intrinsics. -/
theorem callsSatisfy_instrumentBody_of_false (opts : Options) (T : AddressTests Value)
    (F : Function Value) (h : (instrumentBody intptrTy opts T F).2 = false) :
    (instrumentBody intptrTy opts T F).1.CallsSatisfy fun c => c.callee ∈ unreportedCallees := by
  refine instrumentBody_induction_of_false intptrTy opts T F (callsSatisfy_initialBlocks F) ?print
    ?ls ?atomic ?mem h
  case print =>
    refine fun G pc hpc hG => hG.modifySlot fun s hs => hs.insertBefore ?_
    obtain ⟨tag, a, hpc⟩ := traverse_printCalls T F pc hpc
    simp [hpc, printVariables, unreportedCallees]
  case ls =>
    intro G p hG hf
    unfold instrumentLoadOrStoreAt at hf ⊢
    refine hG.modifySlot fun s hs => hs.insertBefore ?_
    generalize F.instAt p = o at hf ⊢
    rcases o with _ | I
    · simp
    · cases I <;> simp_all [instrumentLoadOrStore_fst_of_false]
  case atomic =>
    intro G p hG hf
    unfold instrumentAtomicAt at hf ⊢
    generalize F.instAt p = o at hf ⊢
    cases o with
    | none => exact hG
    | some I =>
      dsimp only at hf ⊢
      rw [instrumentAtomic_keep hf]
      exact hG.modifySlot fun s hs => hs
  case mem =>
    intro G p hG
    unfold instrumentMemIntrinsicAt
    split
    · next m _ =>
      refine hG.modifySlot fun s hs => hs.rebuild _ ?_ .erased (by simp [Placed.items])
      simp only [probeOf_createCall, List.mem_singleton, forall_eq, instrumentMemIntrinsic_callee]
      cases m.kind <;> simp [MemKind.libFn, unreportedCallees]
    · exact hG

/-- When `runOnFunction` returns `false`, which the pass manager takes for an unchanged function,
the pass has inserted no access, vtable, atomic, entry or exit probe: every call it inserted is a
print call, a call replacing a memory intrinsic, or a runtime-ignore call. -/
theorem runOnFunction_false (opts : Options) (T : AddressTests Value) (F : Function Value)
    (h : (runOnFunction intptrTy opts T F).2 = false) :
    ∀ c ∈ (runOnFunction intptrTy opts T F).1.insertedCalls, c.callee ∈ unreportedCallees := by
  refine Blocks.CallsSatisfy.insertedCalls ?_
  by_cases hname : F.name = kTsanModuleCtorName
  · simpa [runOnFunction, hname] using callsSatisfy_initialBlocks F
  unfold runOnFunction at h ⊢
  rw [if_neg hname] at h ⊢
  dsimp only at h ⊢
  split
  · next hc => rw [if_pos hc] at h; simp at h
  · next hc =>
    rw [if_neg hc] at h
    have hb := callsSatisfy_instrumentBody_of_false intptrTy opts T F h
    split
    · exact (hb.atEntry (by simp [ignoreBeginCall, unreportedCallees])).escapeEnumerator _ _
        (by simp [ignoreEndCall, unreportedCallees])
    · exact hb

end Body

/-- A store in a function not marked `sanitize_thread`, with no call. -/
def storeUnsanitized : Function Value :=
  ⟨"f", [[.store (.plain32 (.global counter)) (.other 1 0) (.int 32), .ret]], false, false, true⟩

/-- The pass returns `false` for `storeUnsanitized`, yet inserts a print call in front of the
store. -/
theorem runOnFunction_false_storeUnsanitized :
    (runOnFunction (.int 64) {} (passTests fun _ => false) storeUnsanitized).2 = false ∧
      (runOnFunction (.int 64) {} (passTests fun _ => false) storeUnsanitized).1.insertedCalls =
        [printVariables 391 (.plain32 (.global counter))] ∧
      ∀ c ∈ (runOnFunction (.int 64) {} (passTests fun _ => false) storeUnsanitized).1.insertedCalls,
        c.callee ∈ unreportedCallees :=
  ⟨rfl, rfl, runOnFunction_false (.int 64) {} (passTests fun _ => false) storeUnsanitized rfl⟩

end EmbedSanitizer
