import EmbedSanitizer.Pass.Intrinsics

/-!
# What the pass keeps of the function

The pass puts its calls in front of the instructions of the function, and takes an instruction
of the function from its place only to lower it: an atomic instruction whose lowering replaces
it by the call or erases it (`AtomicLowering.keepsInst`), and a memory intrinsic of a
`sanitize_thread` function, each with its option on (`Inst.lowered`). `EscapeEnumerator` turns
the calls that may throw into invokes of its cleanup block.

After the body instrumentation the place of an instruction holds it, or, when the pass lowers it,
no instruction of the function (`placed_instrumentBody`); the stages after the body only turn
calls into invokes (`Slot.Grows.placed`). So after `runOnFunction` every instruction of the
function that the pass does not lower stands at its place, as it was or as an invoke; one that
it lowers stands nowhere; and no place holds an instruction of the function but its own
(`program_kept`).
-/

namespace EmbedSanitizer

variable {α : Type}

/-- Whether a lowering leaves the instruction at its place: an atomic load stays behind the call
that takes its uses, while a store, an `atomicrmw` or a fence is replaced by the call and a
`cmpxchg` is erased. -/
def AtomicLowering.keepsInst : AtomicLowering α → Bool
  | .keep | .replaceUses _ _ => true
  | .replaceInst _ | .cmpXchg _ _ _ => false

/-- Whether `runOnFunction` takes an instruction of `F` from its place: a memory intrinsic of a
`sanitize_thread` function with `-tsan-instrument-memintrinsics`, or an atomic instruction whose
lowering does not keep it, with `-tsan-instrument-atomics`; nothing in the module constructor. -/
def Inst.lowered (opts : Options) (F : Function Value) (I : Inst Value) : Bool :=
  F.name != kTsanModuleCtorName &&
    (opts.instrumentMemIntrinsics && F.sanitizeThread && I.isMemIntrinsic ||
      opts.instrumentAtomics && I.isAtomic && !(instrumentAtomic I).1.keepsInst)

theorem Inst.lowered_eq_true_iff {opts : Options} {F : Function Value} {I : Inst Value} :
    I.lowered opts F = true ↔ F.name ≠ kTsanModuleCtorName ∧
      ((opts.instrumentMemIntrinsics = true ∧ F.sanitizeThread = true ∧ I.isMemIntrinsic = true) ∨
        (opts.instrumentAtomics = true ∧ I.isAtomic = true ∧
          (instrumentAtomic I).1.keepsInst = false)) := by
  simp [Inst.lowered, and_assoc]

/-! ### One place through the stages -/

theorem Inst.toInvoke_toInvoke (m n : Nat) (I : Inst α) :
    (I.toInvoke m).toInvoke n = I.toInvoke m := by
  cases I with
  | call c nt u => cases nt <;> cases u <;> rfl
  | _ => rfl

theorem Placed.map_eq_kept {f : Inst α → Inst α} {P : Placed α} {J : Inst α} :
    P.map f = .kept J ↔ ∃ I, P = .kept I ∧ f I = J := by
  cases P <;> simp [Placed.map]

section Stages

variable (intptrTy : IRType)

theorem AtomicLowering.placed_apply_of_keepsInst {L : AtomicLowering α} (h : L.keepsInst = true)
    (s : Slot α) : (L.apply intptrTy s).placed = s.placed := by
  cases L <;> simp_all [AtomicLowering.keepsInst, AtomicLowering.apply]

theorem AtomicLowering.placed_apply_ne_kept {L : AtomicLowering α} (h : L.keepsInst = false)
    (s : Slot α) (J : Inst α) : (L.apply intptrTy s).placed ≠ .kept J := by
  cases L <;> simp_all [AtomicLowering.keepsInst, AtomicLowering.apply]

/-- The stages after the body leave the instruction at a place as it is, or turn it into an
invoke. -/
theorem Slot.Grows.placed {s t : Slot α} (h : s.Grows intptrTy t) :
    t.placed = s.placed ∨ ∃ n, t.placed = s.placed.map (Inst.toInvoke n) := by
  induction h with
  | refl => exact .inl rfl
  | tail _ step ih =>
    cases step with
    | prepend => simpa using ih
    | atExit =>
      unfold Slot.atExit
      split
      exacts [by simpa using ih, ih]
    | toInvoke n =>
      rcases ih with h | ⟨m, h⟩
      · exact .inr ⟨n, by rw [Slot.toInvoke_placed, h]⟩
      · refine .inr ⟨m, ?_⟩
        rw [Slot.toInvoke_placed, h]
        cases s.placed <;> simp [Placed.map, Inst.toInvoke_toInvoke]

/-- An instruction at a place after the stages after the body stood there before them, as it is
or as the call it turned into an invoke. -/
theorem Slot.Grows.kept_of_placed {s t : Slot α} (h : s.Grows intptrTy t) {J : Inst α}
    (hJ : t.placed = .kept J) : ∃ I, s.placed = .kept I ∧ (J = I ∨ ∃ n, J = I.toInvoke n) := by
  rcases h.placed intptrTy with h | ⟨n, h⟩ <;> rw [h] at hJ
  · exact ⟨J, hJ, .inl rfl⟩
  · obtain ⟨I, hI, rfl⟩ := Placed.map_eq_kept.1 hJ
    exact ⟨I, hI, .inr ⟨n, rfl⟩⟩

end Stages

/-! ### The body -/

section Body

variable (intptrTy : IRType) {F : Function Value} {p : Pos}

/-- The loop over `AllLoadsAndStores` only puts calls in front of the place of an instruction. -/
theorem placed_lowerLoadsAndStores (T : AddressTests Value) {I : Inst Value}
    (hI : F.instAt p = some I) (b : Bool) :
    ∃ s, (if b = true then instrumentEach (instrumentLoadOrStoreAt intptrTy F) (traverse T F).all
        ((traverse T F).printCalls.foldl (fun G pc =>
          G.modifySlot (·.insertBefore [createCall intptrTy pc.2]) pc.1) (initialBlocks F)) false
      else ((traverse T F).printCalls.foldl (fun G pc =>
          G.modifySlot (·.insertBefore [createCall intptrTy pc.2]) pc.1) (initialBlocks F),
        false)).1.slotAt p = some s ∧ s.placed = .kept I := by
  have hG := slotAt_printCalls intptrTy T hI
  split
  · rw [instrumentEach_fst]
    refine List.foldlRecOn
      (motive := fun G : Blocks Value => ∃ s, G.slotAt p = some s ∧ s.placed = .kept I)
      _ _ _ ⟨_, hG, rfl⟩ ?_
    rintro G ⟨s, hs, hp⟩ q -
    rw [instrumentLoadOrStoreAt, Blocks.slotAt_modifySlot, hs]
    split
    exacts [⟨_, rfl, hp⟩, ⟨s, rfl, hp⟩]
  · exact ⟨_, hG, rfl⟩

/-- After the body instrumentation the place of an instruction holds it, unless the pass lowers
it; then it holds no instruction of the function. -/
theorem placed_instrumentBody (opts : Options) (T : AddressTests Value)
    (hname : F.name ≠ kTsanModuleCtorName) {I : Inst Value} (hI : F.instAt p = some I) :
    ∃ s, (instrumentBody intptrTy opts T F).1.slotAt p = some s ∧
      if I.lowered opts F = true then ∀ J, s.placed ≠ .kept J else s.placed = .kept I := by
  by_cases hmem : opts.instrumentMemIntrinsics = true ∧ F.sanitizeThread = true ∧
      I.isMemIntrinsic = true
  · -- a memory intrinsic, erased
    obtain ⟨hmi, hst, hm⟩ := hmem
    obtain ⟨m, rfl⟩ : ∃ m, I = .memIntrinsic m := by
      cases I <;> first | exact ⟨_, rfl⟩ | simp [Inst.isMemIntrinsic] at hm
    refine ⟨_, slotAt_instrumentBody_of_memIntrinsic intptrTy opts T hst hmi hI, ?_⟩
    rw [if_pos (Inst.lowered_eq_true_iff.2 ⟨hname, .inl ⟨hmi, hst, hm⟩⟩)]
    exact fun J => Placed.noConfusion
  -- the loop over the memory intrinsics leaves the place alone
  have hmemStage : ∀ r : Blocks Value × Bool,
      (if (opts.instrumentMemIntrinsics && F.sanitizeThread) = true then
        ((traverse T F).memIntrinCalls.foldl (instrumentMemIntrinsicAt intptrTy F) r.1, r.2)
        else r).1.slotAt p = r.1.slotAt p := by
    intro r
    cases hm : I.isMemIntrinsic
    · exact slotAt_lowerMemIntrinsics_of_not intptrTy T hI hm _ r
    · rw [if_neg (by simpa [hm] using hmem)]
  obtain ⟨s, hs, hp⟩ :=
    placed_lowerLoadsAndStores intptrTy T hI (opts.instrumentMemoryAccesses && F.sanitizeThread)
  rw [instrumentBody, hmemStage, slotAt_lowerAtomics intptrTy T hI, hs, Option.map_some']
  refine ⟨_, rfl, ?_⟩
  by_cases hat : opts.instrumentAtomics = true ∧ I.isAtomic = true
  · rw [if_pos hat]
    cases hk : (instrumentAtomic I).1.keepsInst
    · rw [if_pos (Inst.lowered_eq_true_iff.2 ⟨hname, .inr ⟨hat.1, hat.2, hk⟩⟩)]
      exact AtomicLowering.placed_apply_ne_kept intptrTy hk s
    · rw [if_neg fun h => (Inst.lowered_eq_true_iff.1 h).2.elim hmem fun h' =>
          absurd h'.2.2 (by simp [hk]),
        AtomicLowering.placed_apply_of_keepsInst intptrTy hk, hp]
  · rw [if_neg hat, if_neg fun h => (Inst.lowered_eq_true_iff.1 h).2.elim hmem fun h' =>
        hat ⟨h'.1, h'.2.1⟩]
    exact hp

end Body

/-! ### The pass -/

section Run

variable (intptrTy : IRType)

/-- Outside the module constructor, the place of an instruction of the function holds it after
`runOnFunction`, as it was or as an invoke, unless the pass lowers it. -/
theorem placed_runOnFunction (opts : Options) (T : AddressTests Value) {F : Function Value}
    (hname : F.name ≠ kTsanModuleCtorName) {p : Pos} {I : Inst Value} (hI : F.instAt p = some I) :
    ∃ t, (runOnFunction intptrTy opts T F).1.slotAt p = some t ∧
      if I.lowered opts F = true then ∀ J, t.placed ≠ .kept J
      else t.placed = .kept I ∨ ∃ n, t.placed = .kept (I.toInvoke n) := by
  obtain ⟨s, hs, hsp⟩ := placed_instrumentBody intptrTy opts T hname hI
  obtain ⟨t, ht, hst⟩ := (grows_runOnFunction intptrTy opts T hname).forward p s hs
  refine ⟨t, ht, ?_⟩
  by_cases hl : I.lowered opts F = true
  · rw [if_pos hl] at hsp ⊢
    intro J hJ
    obtain ⟨J', hJ', -⟩ := hst.kept_of_placed intptrTy hJ
    exact hsp J' hJ'
  · rw [if_neg hl] at hsp ⊢
    rcases hst.placed intptrTy with h | ⟨n, h⟩ <;> rw [h, hsp]
    exacts [.inl rfl, .inr ⟨n, rfl⟩]

/-- The pass keeps the instructions of the function at their places, whatever the function and
the options: after `runOnFunction` an instruction it does not lower stands at its place, as it
was or, for a call that may throw, as an invoke of the cleanup block; one it lowers is no longer
at its place as an instruction of the function; and no place holds an instruction of the
function other than the one the function has there. -/
theorem program_kept (opts : Options) (T : AddressTests Value) (F : Function Value) :
    (∀ p I, F.instAt p = some I → ∃ t, (runOnFunction intptrTy opts T F).1.slotAt p = some t ∧
      if I.lowered opts F = true then ∀ J, t.placed ≠ .kept J
      else t.placed = .kept I ∨ ∃ n, t.placed = .kept (I.toInvoke n)) ∧
    ∀ p t J, (runOnFunction intptrTy opts T F).1.slotAt p = some t → t.placed = .kept J →
      ∃ I, F.instAt p = some I ∧ I.lowered opts F = false ∧ (J = I ∨ ∃ n, J = I.toInvoke n) := by
  by_cases hname : F.name = kTsanModuleCtorName
  · -- the module constructor is left as it is
    have hlow : ∀ I : Inst Value, I.lowered opts F = false := fun I => by
      simp [Inst.lowered, hname]
    simp only [runOnFunction, hname, if_true, slotAt_initialBlocks]
    refine ⟨fun p I hI => ⟨_, by rw [hI]; rfl, by simp [hlow]⟩, fun p t J ht hJ => ?_⟩
    obtain ⟨I, hI, rfl⟩ := Option.map_eq_some'.1 ht
    exact ⟨I, hI, hlow I, .inl (Placed.kept.inj hJ).symm⟩
  refine ⟨fun p I => placed_runOnFunction intptrTy opts T hname, fun p t J ht hJ => ?_⟩
  rcases (grows_runOnFunction intptrTy opts T hname).backward p t ht with
    ⟨s, hs, hst⟩ | ⟨P, hP, hPt⟩
  · -- the place of an instruction of the body
    obtain ⟨I, hsI, hJI⟩ := hst.kept_of_placed intptrTy hJ
    have hI := ((bodySlots_instrumentBody intptrTy opts T F).2 p s hs).2.1 I hsI
    obtain ⟨t', ht', hlow⟩ := placed_runOnFunction intptrTy opts T hname hI
    obtain rfl : t' = t := Option.some.inj (ht'.symm.trans ht)
    refine ⟨I, hI, ?_, hJI⟩
    by_contra hl
    rw [if_pos (Bool.eq_true_of_not_eq_false hl)] at hlow
    exact hlow J hJ
  · -- a place of a cleanup block holds what the pass created there
    obtain ⟨I, hI, -⟩ := hPt.kept_of_placed intptrTy hJ
    simp only [cleanupPlaces, List.mem_cons, List.not_mem_nil, or_false] at hP
    rcases hP with rfl | rfl <;> cases hI

end Run

/-- The call of `g` in `mainCallsG` is not lowered: it stays at its place, as an invoke of the
cleanup block once `EscapeEnumerator` has run. -/
theorem program_kept_mainCallsG :
    ∃ t, (runOnFunction (.int 64) {} (passTests fun _ => false) mainCallsG).1.slotAt (0, 0) =
      some t ∧ (t.placed = .kept (.call ⟨"g", []⟩ false none) ∨
        ∃ n, t.placed = .kept ((Inst.call ⟨"g", []⟩ false none).toInvoke n)) := by
  obtain ⟨t, ht, h⟩ := (program_kept (.int 64) {} (passTests fun _ => false) mainCallsG).1 (0, 0)
    (.call ⟨"g", []⟩ false none) rfl
  exact ⟨t, ht, by rwa [if_neg (by decide)] at h⟩

end EmbedSanitizer
