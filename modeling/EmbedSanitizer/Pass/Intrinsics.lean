import EmbedSanitizer.Pass.Slots

/-!
# Memory intrinsics

With `-tsan-instrument-memintrinsics`, `runOnFunction` replaces every `memset`, `memcpy` and
`memmove` intrinsic of a function marked `sanitize_thread` by a call to the library function of
the same name at the intrinsic's place, and erases the intrinsic (`memIntrinsics_replaced`).

The traversal collects each intrinsic exactly once (`traverse_atomics`, `nodup_positionsFrom`),
the lowering of loads, stores and atomics leaves its slot alone (`memReplaced_instrumentBody`),
and the stages after the body only put entry and exit probes in front of it and add cleanup
blocks without intrinsics (`MemReplaced.grows`).
-/

namespace EmbedSanitizer

variable {α : Type}

@[simp] theorem Inst.isMemIntrinsic_toInvoke (n : Nat) (I : Inst α) :
    (I.toInvoke n).isMemIntrinsic = I.isMemIntrinsic := by
  unfold Inst.toInvoke
  split <;> rfl

@[simp] theorem Inst.isMemIntrinsic_createCall (intptrTy : IRType) (c : Call α) :
    (createCall intptrTy c).isMemIntrinsic = false := rfl

/-- The library functions that replace memory intrinsics. -/
def memLibNames : List String := [memsetFn, memcpyFn, memmoveFn]

/-- The calls to `memset`, `memcpy` and `memmove` in front of a place. -/
def Slot.memLibCalls (s : Slot α) : List (Call α) :=
  (s.before.filterMap Inst.call?).filter (·.callee ∈ memLibNames)

/-- An instruction that is neither a memory intrinsic nor a call to one of their library
functions. -/
def Inst.OtherThanMem (I : Inst α) : Prop :=
  I.isMemIntrinsic = false ∧ ∀ c ∈ I.call?, c.callee ∉ memLibNames

theorem otherThanMem_createCall (intptrTy : IRType) {c : Call α} (hc : c.callee ∉ memLibNames) :
    (createCall intptrTy c).OtherThanMem :=
  ⟨rfl, by simpa using hc⟩

theorem Slot.memLibCalls_prepend {is : List (Inst α)} (his : ∀ I ∈ is, I.OtherThanMem)
    (s : Slot α) : (s.prepend is).memLibCalls = s.memLibCalls := by
  have : (is.filterMap Inst.call?).filter (·.callee ∈ memLibNames) = [] := by
    simp only [List.filter_eq_nil_iff, List.mem_filterMap, decide_eq_true_eq]
    rintro c ⟨I, hI, hc⟩
    exact (his I hI).2 c hc
  simp [Slot.memLibCalls, List.filterMap_append, List.filter_append, this]

@[simp] theorem Slot.memLibCalls_toInvoke (n : Nat) (s : Slot α) :
    (s.toInvoke n).memLibCalls = s.memLibCalls := by
  simp [Slot.memLibCalls, List.filterMap_map, Function.comp_def]

theorem instrumentMemIntrinsic_callee (intptrTy : IRType) (m : MemIntrinsic α) :
    (instrumentMemIntrinsic intptrTy m).callee = m.kind.libFn := by
  cases h : m.kind <;> simp [instrumentMemIntrinsic, h, MemKind.libFn]

theorem MemKind.libFn_mem (k : MemKind) : k.libFn ∈ memLibNames := by
  cases k <;> decide

/-- The arguments of the library call are the operands of the intrinsic: the fill value of a
`memset`, an `i8` zero-extended to `i32`, and a length that fits the pointer-sized integer `iw`
keep their values. -/
theorem eval_instrumentMemIntrinsic_args (w : Nat) (m : MemIntrinsic α) (env : α → Nat)
    (hsrc : m.kind = .memSet → env m.src < 2 ^ 32) (hlen : env m.len < 2 ^ w) :
    (instrumentMemIntrinsic (.int w) m).args.map (·.eval env) =
      [some (env m.dest), some (env m.src), some (env m.len)] := by
  cases h : m.kind
  · simpa [instrumentMemIntrinsic, h, Arg.eval, IRType.i8Ptr, Nat.mod_eq_of_lt hlen,
      Nat.mod_eq_of_lt (hsrc h)] using hsrc h
  all_goals simp [instrumentMemIntrinsic, h, Arg.eval, IRType.i8Ptr, Nat.mod_eq_of_lt hlen]

/-! ### The slot of an intrinsic -/

/-- The blocks hold no memory intrinsic. -/
def Blocks.NoMemIntrinsic (G : Blocks α) : Prop :=
  ∀ p s, G.slotAt p = some s → ∀ I ∈ s.insts, I.isMemIntrinsic = false

/-- The slot of the intrinsic `m` once lowered: nothing at its place, and one call to the library
function in front of it. -/
def Slot.Replaces (intptrTy : IRType) (m : MemIntrinsic α) (s : Slot α) : Prop :=
  s.placed = .erased ∧ s.memLibCalls = [instrumentMemIntrinsic intptrTy m]

/-- The blocks after the lowering of the memory intrinsics of `F`. -/
structure MemReplaced (intptrTy : IRType) (F : Function α) (G : Blocks α) : Prop where
  noMem : G.NoMemIntrinsic
  replaced : ∀ p m, F.instAt p = some (.memIntrinsic m) →
    ∃ s, G.slotAt p = some s ∧ s.Replaces intptrTy m

section Body

variable (intptrTy : IRType) {F : Function Value} {p : Pos} {m : MemIntrinsic Value}

/-- `instrumentEach` over a step that leaves the slot at `p` alone. -/
theorem slotAt_instrumentEach {step : Blocks Value → Pos → Blocks Value × Bool}
    (hstep : ∀ G q, (step G q).1.slotAt p = G.slotAt p) (ps : List Pos) (G : Blocks Value)
    (res : Bool) : (instrumentEach step ps G res).1.slotAt p = G.slotAt p :=
  List.foldlRecOn (motive := fun r : Blocks Value × Bool => r.1.slotAt p = G.slotAt p) ps _ _ rfl
    fun r hr q _ => (hstep r.1 q).trans hr

theorem slotAt_instrumentLoadOrStoreAt (hm : F.instAt p = some (.memIntrinsic m))
    (G : Blocks Value) (q : Pos) :
    (instrumentLoadOrStoreAt intptrTy F G q).1.slotAt p = G.slotAt p := by
  rw [instrumentLoadOrStoreAt, Blocks.slotAt_modifySlot]
  split
  · subst q
    cases G.slotAt p <;> simp [hm, Slot.insertBefore]
  · rfl

/-- The loop over `AllLoadsAndStores` inserts nothing in front of an intrinsic, whatever it lists. -/
theorem slotAt_lowerLoadsAndStores_of_memIntrinsic (T : AddressTests Value)
    (hm : F.instAt p = some (.memIntrinsic m)) (b : Bool) (G : Blocks Value) :
    (if b = true then instrumentEach (instrumentLoadOrStoreAt intptrTy F) (traverse T F).all G false
      else (G, false)).1.slotAt p = G.slotAt p := by
  split
  · exact slotAt_instrumentEach (slotAt_instrumentLoadOrStoreAt intptrTy hm) _ _ _
  · rfl

/-- In a function marked `sanitize_thread`, with the option on, the body instrumentation erases
a memory intrinsic and leaves only the call to its library function at its place. -/
theorem slotAt_instrumentBody_of_memIntrinsic (opts : Options) (T : AddressTests Value)
    (hst : F.sanitizeThread = true) (hmi : opts.instrumentMemIntrinsics = true)
    (hm : F.instAt p = some (.memIntrinsic m)) :
    (instrumentBody intptrTy opts T F).1.slotAt p =
      some ⟨[createCall intptrTy (instrumentMemIntrinsic intptrTy m)], .erased⟩ := by
  -- the scan puts no print call in front of an intrinsic
  have hB : _ = some (⟨[], .kept (.memIntrinsic m)⟩ : Slot Value) := slotAt_printCalls intptrTy T hm
  have hmem : p ∈ (traverse T F).memIntrinCalls := by
    rw [(traverse_atomics T F).2, mem_positionsFrom_blocks]
    exact ⟨_, hm, rfl⟩
  have hnd : (traverse T F).memIntrinCalls.Nodup := by
    rw [(traverse_atomics T F).2]
    exact nodup_positionsFrom _ _ _
  have hstep : ∀ G, (instrumentMemIntrinsicAt intptrTy F G p).slotAt p = (G.slotAt p).map
      fun s => ⟨s.before ++ [createCall intptrTy (instrumentMemIntrinsic intptrTy m)], .erased⟩ := by
    intro G
    simp only [instrumentMemIntrinsicAt, hm, Blocks.slotAt_modifySlot, if_true]
  simp only [instrumentBody, hst, hmi, Bool.and_self, if_true]
  rw [slotAt_foldl_of_mem _ (fun G q hq => slotAt_instrumentMemIntrinsicAt intptrTy G hq) hstep _ _
    hnd hmem, slotAt_lowerAtomics intptrTy T hm, slotAt_lowerLoadsAndStores_of_memIntrinsic intptrTy T hm,
    hB]
  simp only [Inst.isAtomic, Bool.false_eq_true, and_false, if_false, Option.map_some', id]
  rfl

/-- After the body instrumentation, every intrinsic is erased and replaced by its call. -/
theorem memReplaced_instrumentBody (opts : Options) (T : AddressTests Value)
    (hst : F.sanitizeThread = true) (hmi : opts.instrumentMemIntrinsics = true) :
    MemReplaced intptrTy F (instrumentBody intptrTy opts T F).1 := by
  have hrep : ∀ p m, F.instAt p = some (.memIntrinsic m) →
      ∃ s, (instrumentBody intptrTy opts T F).1.slotAt p = some s ∧ s.Replaces intptrTy m :=
    fun p m hm => ⟨_, slotAt_instrumentBody_of_memIntrinsic intptrTy opts T hst hmi hm, rfl,
      by simp [Slot.memLibCalls, instrumentMemIntrinsic_callee, MemKind.libFn_mem]⟩
  refine ⟨fun p s hs I hI => ?_, hrep⟩
  obtain ⟨hbefore, hkept, hcreated⟩ := (bodySlots_instrumentBody intptrTy opts T F).2 p s hs
  have hins : ∀ J : Inst Value, Inserted J → J.isMemIntrinsic = false := by
    rintro J (rfl | ⟨c, nt, rfl, -⟩) <;> rfl
  rcases List.mem_append.1 hI with hI | hI
  · exact hins I (hbefore I hI)
  · rcases hP : s.placed with J | J | _ <;>
      simp only [hP, Placed.inst?, Option.toList_some, Option.toList_none, List.mem_singleton,
        List.not_mem_nil] at hI
    · -- an instruction of the function: an intrinsic would have been erased
      subst hI
      cases hJ : I.isMemIntrinsic
      · rfl
      · obtain ⟨m, rfl⟩ : ∃ m, I = .memIntrinsic m := by
          cases I <;> simp_all [Inst.isMemIntrinsic]
        obtain ⟨s', hs', hrepl, -⟩ := hrep p m (hkept _ hP)
        rw [hs, Option.some.injEq] at hs'
        subst hs'
        rw [hP] at hrepl
        cases hrepl
    · exact hI ▸ hins J (hcreated J hP)

end Body

/-! ### The stages after the body -/

section Stages

variable {intptrTy : IRType}

theorem Call.callee_not_mem_memLibNames {c : Call α} (hc : c.isLifecycle = true) :
    c.callee ∉ memLibNames := by
  simp only [Call.isLifecycle, lifecycleNames, decide_eq_true_eq, List.mem_cons, List.not_mem_nil,
    or_false] at hc
  rcases hc with h | h | h | h | h <;> rw [h] <;> decide

theorem Slot.Grows.noMemIntrinsic {s t : Slot α} (h : s.Grows intptrTy t)
    (hs : ∀ I ∈ s.insts, I.isMemIntrinsic = false) : ∀ I ∈ t.insts, I.isMemIntrinsic = false := by
  induction h with
  | refl => exact hs
  | tail _ step ih =>
    cases step with
    | prepend hl =>
      intro I hI
      rcases List.mem_append.1 ((Slot.insts_prepend _ _) ▸ hI) with hI | hI
      exacts [(List.mem_singleton.1 hI) ▸ rfl, ih I hI]
    | atExit hl =>
      intro I hI
      rcases Slot.mem_insts_atExit hI with hI | rfl
      exacts [ih I hI, rfl]
    | toInvoke n =>
      intro I hI
      obtain ⟨J, hJ, rfl⟩ := List.mem_map.1 ((Slot.insts_toInvoke _ _) ▸ hI)
      rw [Inst.isMemIntrinsic_toInvoke]
      exact ih J hJ

theorem Slot.Grows.replaces {s t : Slot α} (h : s.Grows intptrTy t) {m : MemIntrinsic α}
    (hs : s.Replaces intptrTy m) : t.Replaces intptrTy m := by
  induction h with
  | refl => exact hs
  | tail _ step ih =>
    obtain ⟨hp, hc⟩ := ih
    cases step with
    | prepend hl =>
      have hother := otherThanMem_createCall intptrTy (Call.callee_not_mem_memLibNames hl)
      exact ⟨hp, by rw [Slot.memLibCalls_prepend (by simpa using hother), hc]⟩
    | atExit =>
      rw [Slot.atExit, if_neg (by simp [hp, Placed.isExit, Placed.inst?])]
      exact ⟨hp, hc⟩
    | toInvoke n => exact ⟨by simp [hp, Placed.map], by rw [Slot.memLibCalls_toInvoke, hc]⟩

/-- The stages after the body add no intrinsic and keep each replacement. -/
theorem MemReplaced.grows {F : Function α} {G H : Blocks α} (h : MemReplaced intptrTy F G)
    (hG : G.Grows intptrTy H) : MemReplaced intptrTy F H := by
  refine ⟨fun p t ht => ?_, fun p m hm => ?_⟩
  · rcases hG.backward p t ht with ⟨s, hs, hst⟩ | ⟨P, hP, hPt⟩
    · exact hst.noMemIntrinsic (h.noMem p s hs)
    · -- a slot of a cleanup block
      refine hPt.noMemIntrinsic fun I hI => ?_
      simp only [cleanupPlaces, List.mem_cons, List.mem_singleton, List.not_mem_nil, or_false] at hP
      rcases hP with rfl | rfl <;>
        simp only [Slot.insts, Placed.inst?, Option.toList_some, List.nil_append,
          List.mem_singleton] at hI <;> subst hI <;> rfl
  · obtain ⟨s, hs, hrep⟩ := h.replaced p m hm
    obtain ⟨t, ht, hst⟩ := hG.forward p s hs
    exact ⟨t, ht, hst.replaces hrep⟩

end Stages

theorem memReplaced_runOnFunction (intptrTy : IRType) (opts : Options) (T : AddressTests Value)
    {F : Function Value} (hst : F.sanitizeThread = true) (hmi : opts.instrumentMemIntrinsics = true)
    (hname : F.name ≠ kTsanModuleCtorName) :
    MemReplaced intptrTy F (runOnFunction intptrTy opts T F).1 :=
  (memReplaced_instrumentBody intptrTy opts T hst hmi).grows (grows_runOnFunction intptrTy opts T hname)

/-- After `runOnFunction`, a function marked `sanitize_thread` holds no memory intrinsic, and
each of its intrinsics has been replaced at its place by one call to the library function of its
kind, whose arguments carry the intrinsic's operands: the destination, the source or the fill
value, and a length that fits the pointer-sized integer `iw`. -/
theorem memIntrinsics_replaced (w : Nat) (opts : Options) (T : AddressTests Value)
    (F : Function Value) (hst : F.sanitizeThread = true) (hmi : opts.instrumentMemIntrinsics = true)
    (hname : F.name ≠ kTsanModuleCtorName) :
    (runOnFunction (.int w) opts T F).1.NoMemIntrinsic ∧
      ∀ p m, F.instAt p = some (.memIntrinsic m) →
        ∃ s, (runOnFunction (.int w) opts T F).1.slotAt p = some s ∧ s.placed = .erased ∧
          s.memLibCalls = [instrumentMemIntrinsic (.int w) m] ∧
          (instrumentMemIntrinsic (.int w) m).callee = m.kind.libFn ∧
          ∀ env : Value → Nat, (m.kind = .memSet → env m.src < 2 ^ 32) → env m.len < 2 ^ w →
            (instrumentMemIntrinsic (.int w) m).args.map (·.eval env) =
              [some (env m.dest), some (env m.src), some (env m.len)] := by
  have h := memReplaced_runOnFunction (.int w) opts T hst hmi hname
  refine ⟨h.noMem, fun p m hm => ?_⟩
  obtain ⟨s, hs, hplaced, hcalls⟩ := h.replaced p m hm
  exact ⟨s, hs, hplaced, hcalls, instrumentMemIntrinsic_callee _ m,
    fun env => eval_instrumentMemIntrinsic_args w m env⟩

/-- A function that clears a stack buffer with `memset`. -/
def clearBuffer : Function Value :=
  ⟨"clear", [[.memIntrinsic ⟨.memSet, .alloca 0 false, .other 1 0, .other 2 0, 64⟩, .ret]], true, false,
    true⟩

theorem memIntrinsics_replaced_clearBuffer :
    clearBuffer.sanitizeThread = true ∧ ({} : Options).instrumentMemIntrinsics = true ∧
      clearBuffer.name ≠ kTsanModuleCtorName ∧
      (runOnFunction (.int 64) {} (passTests fun _ => false) clearBuffer).1.NoMemIntrinsic ∧
      ∀ p m, clearBuffer.instAt p = some (.memIntrinsic m) →
        ∃ s, (runOnFunction (.int 64) {} (passTests fun _ => false) clearBuffer).1.slotAt p =
            some s ∧ s.placed = .erased ∧ s.memLibCalls = [instrumentMemIntrinsic (.int 64) m] ∧
          (instrumentMemIntrinsic (.int 64) m).callee = m.kind.libFn ∧
          ∀ env : Value → Nat, (m.kind = .memSet → env m.src < 2 ^ 32) → env m.len < 2 ^ 64 →
            (instrumentMemIntrinsic (.int 64) m).args.map (·.eval env) =
              [some (env m.dest), some (env m.src), some (env m.len)] :=
  ⟨rfl, rfl, by decide,
    memIntrinsics_replaced 64 {} (passTests fun _ => false) clearBuffer rfl rfl (by decide)⟩

end EmbedSanitizer
