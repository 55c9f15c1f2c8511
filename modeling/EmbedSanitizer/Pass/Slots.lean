import Mathlib.Logic.Relation
import EmbedSanitizer.Pass.EntryExit

/-!
# What the pass does to the slot of one instruction

The stages of `runOnFunction` after the body instrumentation only put an entry or exit probe in
front of an instruction or of an exit, and turn calls into invokes (`Slot.LaterStep`). Every slot
of the instrumented function has grown so from the slot at its position after the body, or from
a slot of a cleanup block (`Blocks.Grows`, `grows_runOnFunction`).

In the body, the steps of a loop of `runOnFunction` over a list of positions each change the slot
at their own position only; over a list without repeats, the slot at a position is changed once
if the position is in the list and not at all otherwise (`slotAt_foldl_of_mem`,
`slotAt_foldl_of_not_mem`).

The walk hands every plain load and store to the scan once, and the scan puts one print call in
front of each (`filter_printCalls_traverse`). So a plain load or store keeps its place, and in
front of it stand its print call, then, if the scan selected it, the calls `instrumentLoadOrStore`
makes for it, and no other call but entry and exit probes (`loadsAndStores_instrumented`). An
atomic instruction is lowered by `instrumentAtomic` at its place, in every function but the module
constructor (`atomics_instrumented`).

Of the stages, only the entry probe puts a call to `__tsan_func_entry` anywhere, once, in front
of the first instruction of the entry block: the count of such calls over the function is one
exactly when `instrumentsEntryExit` holds (`funcEntry_probes`).
-/

namespace EmbedSanitizer

variable {α : Type}

/-- The call an instruction makes, if it is a call or an invoke. -/
def Inst.call? : Inst α → Option (Call α)
  | .call c _ _ => some c
  | _ => none

@[simp] theorem Inst.call?_toInvoke (n : Nat) (I : Inst α) : (I.toInvoke n).call? = I.call? := by
  unfold Inst.toInvoke
  split <;> rfl

@[simp] theorem Inst.call?_createCall (intptrTy : IRType) (c : Call α) :
    (createCall intptrTy c).call? = some c := rfl

/-- The value a store writes and its type (`SI->getValueOperand()`), which
`instrumentLoadOrStore` reads. -/
def Inst.storedValue : Inst α → Option (α × IRType)
  | .store _ v ty => some (v, ty)
  | _ => none

/-- A plain access is a load or a store that is not atomic. -/
theorem Inst.plainAccess_eq_some {I : Inst α} {w : Bool} {acc : Access α}
    (h : I.plainAccess = some (w, acc)) :
    I.isAtomic = false ∧ (I = .load acc ∨ ∃ v ty, I = .store acc v ty) := by
  cases I <;> simp only [Inst.plainAccess, Option.some.injEq, Prod.mk.injEq, Bool.not_eq_true,
    ite_eq_right_iff, reduceCtorEq, imp_false, Option.ite_none_left_eq_some] at h <;>
    obtain ⟨h1, -, rfl⟩ := h <;> simpa using h1

/-- The calls in front of a place, entry and exit probes apart. -/
def Slot.bodyCalls (s : Slot α) : List (Call α) :=
  (s.before.filterMap Inst.call?).filter (!·.isLifecycle)

@[simp] theorem Slot.bodyCalls_toInvoke (n : Nat) (s : Slot α) :
    (s.toInvoke n).bodyCalls = s.bodyCalls := by
  simp [Slot.bodyCalls, List.filterMap_map, Function.comp_def]

theorem Slot.bodyCalls_prepend (intptrTy : IRType) (s : Slot α) {c : Call α}
    (hc : c.isLifecycle = true) : (s.prepend [createCall intptrTy c]).bodyCalls = s.bodyCalls := by
  simp [Slot.bodyCalls, hc]

/-! ### The stages after the body -/

section Later

variable (intptrTy : IRType)

/-- One thing a stage after the body instrumentation does to a slot. -/
inductive Slot.LaterStep : Slot α → Slot α → Prop
  /-- `IRB.CreateCall` of an entry probe in front of the first instruction of the entry block. -/
  | prepend (s : Slot α) {c : Call α} : c.isLifecycle = true →
      Slot.LaterStep s (s.prepend [createCall intptrTy c])
  /-- `AtExit->CreateCall` of an exit probe in front of an exit. -/
  | atExit (s : Slot α) {c : Call α} : c.isLifecycle = true →
      Slot.LaterStep s (s.atExit (createCall intptrTy c))
  /-- `changeToInvokeAndSplitBasicBlock` of the calls of the slot that may throw. -/
  | toInvoke (s : Slot α) (n : Nat) : Slot.LaterStep s (s.toInvoke n)

/-- The slots a slot grows into through the stages after the body. -/
def Slot.Grows : Slot α → Slot α → Prop := Relation.ReflTransGen (Slot.LaterStep intptrTy)

/-- What stands at the places of a cleanup block of `EscapeEnumerator`. -/
def cleanupPlaces : List (Placed α) := [.created .landingPad, .created .resume]

/-- `H` comes from `G` through stages after the body: each slot of `G` grows into the slot at its
position in `H`, and each slot of `H` has grown from a slot of `G` or of a cleanup block. -/
structure Blocks.Grows (G H : Blocks α) : Prop where
  forward : ∀ p s, G.slotAt p = some s → ∃ t, H.slotAt p = some t ∧ s.Grows intptrTy t
  backward : ∀ p t, H.slotAt p = some t →
    (∃ s, G.slotAt p = some s ∧ s.Grows intptrTy t) ∨
      ∃ P ∈ cleanupPlaces, (⟨[], P⟩ : Slot α).Grows intptrTy t

variable {intptrTy}

theorem Blocks.Grows.refl (G : Blocks α) : G.Grows intptrTy G :=
  ⟨fun _ s hs => ⟨s, hs, .refl⟩, fun _ t ht => .inl ⟨t, ht, .refl⟩⟩

theorem Blocks.Grows.trans {G H K : Blocks α} (h₁ : G.Grows intptrTy H) (h₂ : H.Grows intptrTy K) :
    G.Grows intptrTy K := by
  refine ⟨fun p s hs => ?_, fun p u hu => ?_⟩
  · obtain ⟨t, ht, hst⟩ := h₁.forward p s hs
    obtain ⟨u, hu, htu⟩ := h₂.forward p t ht
    exact ⟨u, hu, hst.trans htu⟩
  · rcases h₂.backward p u hu with ⟨t, ht, htu⟩ | ⟨P, hP, hPu⟩
    · rcases h₁.backward p t ht with ⟨s, hs, hst⟩ | ⟨P, hP, hPt⟩
      exacts [.inl ⟨s, hs, hst.trans htu⟩, .inr ⟨P, hP, hPt.trans htu⟩]
    · exact .inr ⟨P, hP, hPu⟩

theorem Blocks.grows_atEntry (G : Blocks α) {c : Call α} (hc : c.isLifecycle = true) :
    G.Grows intptrTy (G.atEntry [createCall intptrTy c]) := by
  have key : ∀ p, (G.atEntry [createCall intptrTy c]).slotAt p = (G.slotAt p).map
      (if p = (0, 0) then Slot.prepend [createCall intptrTy c] else id) := by
    intro p
    rw [Blocks.atEntry, Blocks.slotAt_modifySlot]
    split <;> simp
  have hgrow : ∀ (p : Pos) (s : Slot α), s.Grows intptrTy
      ((if p = (0, 0) then Slot.prepend [createCall intptrTy c] else id) s) := by
    intro p s
    split
    exacts [.single (.prepend s hc), .refl]
  refine ⟨fun p s hs => ⟨_, by rw [key, hs]; rfl, hgrow p s⟩, fun p t ht => .inl ?_⟩
  obtain ⟨s, hs, rfl⟩ := Option.map_eq_some'.1 ((key p).symm.trans ht)
  exact ⟨s, hs, hgrow p s⟩

theorem Blocks.grows_escapeEnumerator (hx dnt : Bool) (G : Blocks α) {c : Call α}
    (hc : c.isLifecycle = true) :
    G.Grows intptrTy (escapeEnumerator hx dnt (createCall intptrTy c) G) := by
  have hgrow : ∀ p s, G.slotAt p = some s → ∃ t,
      (escapeEnumerator hx dnt (createCall intptrTy c) G).slotAt p = some t ∧ s.Grows intptrTy t := by
    intro p s hs
    obtain ⟨f, hf, ht⟩ := slotAt_escapeEnumerator_of_slotAt hx dnt (createCall intptrTy c) hs
    have hexit : s.Grows intptrTy (if G.IsLast p then s.atExit (createCall intptrTy c) else s) := by
      split
      exacts [.single (.atExit s hc), .refl]
    rcases hf with rfl | ⟨n, rfl⟩
    exacts [⟨_, ht, hexit⟩, ⟨_, ht, hexit.tail (.toInvoke _ n)⟩]
  refine ⟨hgrow, fun p t ht => ?_⟩
  cases hs : G.slotAt p with
  | some s =>
    obtain ⟨t', ht', hst⟩ := hgrow p s hs
    rw [ht, Option.some.injEq] at ht'
    exact .inl ⟨s, rfl, ht' ▸ hst⟩
  | none =>
    -- a slot of the new cleanup block
    rcases (slotAt_escapeEnumerator_of_none ht hs).2 with rfl | rfl
    · exact .inr ⟨_, List.mem_cons_self _ _, .refl⟩
    · exact .inr ⟨_, List.mem_cons_of_mem _ (List.mem_singleton_self _),
        .single (.prepend ⟨[], .created .resume⟩ hc)⟩

/-- The stages after the body leave an instruction that is neither an exit nor a call that may
throw at its place, and put no call but entry and exit probes in front of it. -/
theorem Slot.Grows.kept {s t : Slot α} (h : s.Grows intptrTy t) {I : Inst α}
    (hs : s.placed = .kept I) (hexit : I.isExit = false) (hthrow : I.mayThrowCall = false) :
    t.placed = .kept I ∧ t.bodyCalls = s.bodyCalls := by
  induction h with
  | refl => exact ⟨hs, rfl⟩
  | tail _ step ih =>
    obtain ⟨hp, hc⟩ := ih
    cases step with
    | prepend hl => exact ⟨hp, by rw [Slot.bodyCalls_prepend _ _ hl, hc]⟩
    | atExit =>
      rw [Slot.atExit, if_neg (by simp [hp, hexit])]
      exact ⟨hp, hc⟩
    | toInvoke n => exact ⟨by simp [hp, Placed.map, Inst.toInvoke_of_mayThrowCall hthrow],
        by rw [Slot.bodyCalls_toInvoke, hc]⟩

end Later

/-! ### The loops of the body -/

/-- A step that changes the slot at `q` only. -/
theorem slotAt_foldl_of_not_mem {β : Type} (step : Blocks α → β → Blocks α) (pos : β → Pos)
    {p : Pos} (hstep : ∀ G x, pos x ≠ p → (step G x).slotAt p = G.slotAt p) :
    ∀ (xs : List β) (G : Blocks α), (∀ x ∈ xs, pos x ≠ p) →
      (xs.foldl step G).slotAt p = G.slotAt p
  | [], _, _ => rfl
  | x :: xs, G, h => by
    rw [List.foldl_cons, slotAt_foldl_of_not_mem step pos hstep xs _ fun y hy => h y (by simp [hy]),
      hstep G x (h x (List.mem_cons_self _ _))]

/-- Over positions without repeats, the step at `p` acts on the slot at `p` once. -/
theorem slotAt_foldl_of_mem (step : Blocks α → Pos → Blocks α) {p : Pos}
    (hstep : ∀ G q, q ≠ p → (step G q).slotAt p = G.slotAt p) {f : Slot α → Slot α}
    (hp : ∀ G, (step G p).slotAt p = (G.slotAt p).map f) :
    ∀ (ps : List Pos) (G : Blocks α), ps.Nodup → p ∈ ps →
      (ps.foldl step G).slotAt p = (G.slotAt p).map f
  | [], _, _, h => absurd h (List.not_mem_nil _)
  | q :: ps, G, hnd, h => by
    rw [List.foldl_cons]
    obtain ⟨hq, hnd⟩ := List.nodup_cons.1 hnd
    rcases List.mem_cons.1 h with rfl | h
    · rw [slotAt_foldl_of_not_mem step id hstep ps _ fun r hr => by rintro rfl; exact hq hr, hp]
    · rw [slotAt_foldl_of_mem step hstep hp ps _ hnd h, hstep G q fun hqp => hq (hqp ▸ h)]

/-- `instrumentEach` builds its blocks as the left fold of its steps. -/
theorem instrumentEach_fst (step : Blocks α → Pos → Blocks α × Bool) :
    ∀ (ps : List Pos) (G : Blocks α) (res : Bool),
      (instrumentEach step ps G res).1 = ps.foldl (fun G p => (step G p).1) G
  | [], _, _ => rfl
  | p :: ps, G, res => instrumentEach_fst step ps (step G p).1 (res || (step G p).2)

/-- The print calls a list of print calls inserts in front of `p`, in their order. -/
theorem slotAt_foldl_printCalls (intptrTy : IRType) (L : List (Pos × Call α)) (G : Blocks α)
    (p : Pos) :
    (L.foldl (fun G pc => G.modifySlot (·.insertBefore [createCall intptrTy pc.2]) pc.1) G).slotAt p =
      (G.slotAt p).map (·.insertBefore ((L.filter (·.1 = p)).map (createCall intptrTy ·.2))) := by
  induction L generalizing G with
  | nil =>
    have : ∀ s : Slot α, s.insertBefore [] = s := fun s => by cases s; simp [Slot.insertBefore]
    simp [this]
  | cons pc L ih =>
    rw [List.foldl_cons, ih, Blocks.slotAt_modifySlot, List.filter_cons]
    by_cases h : pc.1 = p
    · subst h
      cases G.slotAt pc.1 <;> simp [Slot.insertBefore]
    · simp [h, Ne.symm h]

section Body

variable (intptrTy : IRType) {F : Function Value} {p : Pos}

theorem slotAt_instrumentLoadOrStoreAt_of_ne (G : Blocks Value) {q : Pos} (hq : q ≠ p) :
    (instrumentLoadOrStoreAt intptrTy F G q).1.slotAt p = G.slotAt p := by
  rw [instrumentLoadOrStoreAt, Blocks.slotAt_modifySlot, if_neg (Ne.symm hq)]

theorem slotAt_instrumentAtomicAt_of_ne (G : Blocks Value) {q : Pos} (hq : q ≠ p) :
    (instrumentAtomicAt intptrTy F G q).1.slotAt p = G.slotAt p := by
  unfold instrumentAtomicAt
  split
  · rw [Blocks.slotAt_modifySlot, if_neg (Ne.symm hq)]
  · rfl

theorem slotAt_instrumentMemIntrinsicAt (G : Blocks Value) {q : Pos} (hq : q ≠ p) :
    (instrumentMemIntrinsicAt intptrTy F G q).slotAt p = G.slotAt p := by
  unfold instrumentMemIntrinsicAt
  split
  · rw [Blocks.slotAt_modifySlot, if_neg (Ne.symm hq)]
  · rfl

/-- The lowering of a plain load or store puts the calls of `instrumentLoadOrStore` in front of
it. -/
theorem slotAt_instrumentLoadOrStoreAt_self {I : Inst Value} {w : Bool} {acc : Access Value}
    (hI : F.instAt p = some I) (ha : I.plainAccess = some (w, acc)) (G : Blocks Value) :
    (instrumentLoadOrStoreAt intptrTy F G p).1.slotAt p = (G.slotAt p).map
      (·.insertBefore ((instrumentLoadOrStore acc I.storedValue).1.map (createCall intptrTy))) := by
  rw [instrumentLoadOrStoreAt, Blocks.slotAt_modifySlot, if_pos rfl, hI]
  rcases (Inst.plainAccess_eq_some ha).2 with rfl | ⟨v, ty, rfl⟩ <;> rfl

/-- Before the lowerings, the slot of an instruction of the function holds it, behind the print
call the scan inserts if it is a plain load or store. -/
theorem slotAt_printCalls (T : AddressTests Value) {I : Inst Value} (hI : F.instAt p = some I) :
    ((traverse T F).printCalls.foldl (fun G pc =>
        G.modifySlot (·.insertBefore [createCall intptrTy pc.2]) pc.1) (initialBlocks F)).slotAt p =
      some ⟨(I.plainAccess.map fun x =>
        createCall intptrTy (printVariables (if x.1 then 391 else 403) x.2)).toList, .kept I⟩ := by
  rw [slotAt_foldl_printCalls, filter_printCalls_traverse, slotAt_initialBlocks, hI]
  simp only [Option.some_bind, Option.map_some']
  cases I.plainAccess <;> rfl

/-- The lowering of an atomic instruction acts on its slot. -/
theorem slotAt_instrumentAtomicAt_self {I : Inst Value} (hI : F.instAt p = some I)
    (G : Blocks Value) :
    (instrumentAtomicAt intptrTy F G p).1.slotAt p =
      (G.slotAt p).map ((instrumentAtomic I).1.apply intptrTy) := by
  rw [instrumentAtomicAt, hI, Blocks.slotAt_modifySlot, if_pos rfl]

/-! The three loops of `instrumentBody`, each at the slot of one instruction. -/

/-- The loop over `AllLoadsAndStores` puts the calls of `instrumentLoadOrStore` in front of a plain
access it lists, once. -/
theorem slotAt_lowerLoadsAndStores (T : AddressTests Value) {I : Inst Value} {w : Bool}
    {acc : Access Value} (hnd : (traverse T F).all.Nodup) (hI : F.instAt p = some I)
    (ha : I.plainAccess = some (w, acc)) (b : Bool) (G : Blocks Value) :
    (if b = true then instrumentEach (instrumentLoadOrStoreAt intptrTy F) (traverse T F).all G false
      else (G, false)).1.slotAt p = (G.slotAt p).map (if b = true ∧ p ∈ (traverse T F).all then
        Slot.insertBefore ((instrumentLoadOrStore acc I.storedValue).1.map (createCall intptrTy))
        else id) := by
  by_cases hp : b = true ∧ p ∈ (traverse T F).all
  · rw [if_pos hp.1, if_pos hp, instrumentEach_fst]
    exact slotAt_foldl_of_mem _ (fun G q hq => slotAt_instrumentLoadOrStoreAt_of_ne intptrTy G hq)
      (slotAt_instrumentLoadOrStoreAt_self intptrTy hI ha) _ _ hnd hp.2
  · rw [if_neg hp, Option.map_id, id_eq]
    split
    · rw [instrumentEach_fst]
      exact slotAt_foldl_of_not_mem (fun G q => (instrumentLoadOrStoreAt intptrTy F G q).1) id
        (fun G q hq => slotAt_instrumentLoadOrStoreAt_of_ne intptrTy G hq) _ _
        fun q hq => ne_of_mem_of_not_mem hq fun h => hp ⟨‹_›, h⟩
    · rfl

/-- The loop over `AllLoadsAndStores` leaves the slot of an instruction it does not list alone. -/
theorem slotAt_lowerLoadsAndStores_of_not_mem (T : AddressTests Value)
    (hall : p ∉ (traverse T F).all) (b : Bool) (G : Blocks Value) :
    (if b = true then instrumentEach (instrumentLoadOrStoreAt intptrTy F) (traverse T F).all G false
      else (G, false)).1.slotAt p = G.slotAt p := by
  split
  · rw [instrumentEach_fst]
    exact slotAt_foldl_of_not_mem (fun G q => (instrumentLoadOrStoreAt intptrTy F G q).1) id
      (fun G q hq => slotAt_instrumentLoadOrStoreAt_of_ne intptrTy G hq) _ _
      fun q hq => ne_of_mem_of_not_mem hq hall
  · rfl

/-- The loop over `AtomicAccesses` lowers an atomic instruction once, and leaves every other
instruction alone. -/
theorem slotAt_lowerAtomics (T : AddressTests Value) {I : Inst Value} (hI : F.instAt p = some I)
    (b : Bool) (r : Blocks Value × Bool) :
    (if b = true then instrumentEach (instrumentAtomicAt intptrTy F) (traverse T F).atomics r.1 r.2
      else r).1.slotAt p = (r.1.slotAt p).map (if b = true ∧ I.isAtomic = true then
        (instrumentAtomic I).1.apply intptrTy else id) := by
  rw [(traverse_atomics T F).1]
  by_cases hat : b = true ∧ I.isAtomic = true
  · rw [if_pos hat.1, if_pos hat, instrumentEach_fst]
    exact slotAt_foldl_of_mem _ (fun G q hq => slotAt_instrumentAtomicAt_of_ne intptrTy G hq)
      (slotAt_instrumentAtomicAt_self intptrTy hI) _ _ (nodup_positionsFrom _ _ _)
      ((mem_positionsFrom_blocks _).2 ⟨I, hI, hat.2⟩)
  · rw [if_neg hat, Option.map_id, id_eq]
    split
    · rw [instrumentEach_fst]
      exact slotAt_foldl_of_not_mem _ id (fun G q hq => slotAt_instrumentAtomicAt_of_ne intptrTy G hq)
        _ _ fun q hq => ne_of_mem_of_not_mem hq
          (not_mem_positionsFrom_blocks _ hI (by simpa [‹b = true›] using hat))
    · rfl

/-- The loop over `MemIntrinCalls` leaves the slot of any other instruction alone. -/
theorem slotAt_lowerMemIntrinsics_of_not (T : AddressTests Value) {I : Inst Value}
    (hI : F.instAt p = some I) (hmem : I.isMemIntrinsic = false) (b : Bool)
    (r : Blocks Value × Bool) :
    (if b = true then ((traverse T F).memIntrinCalls.foldl (instrumentMemIntrinsicAt intptrTy F) r.1,
      r.2) else r).1.slotAt p = r.1.slotAt p := by
  split
  · rw [(traverse_atomics T F).2]
    exact slotAt_foldl_of_not_mem _ id (fun G q hq => slotAt_instrumentMemIntrinsicAt intptrTy G hq)
      _ _ fun q hq => ne_of_mem_of_not_mem hq (not_mem_positionsFrom_blocks _ hI hmem)
  · rfl

/-- After the body instrumentation, a plain load or store stands at its place behind the print
call of the scan and, when the pass instruments the memory accesses of the function and the
scan selected it, the calls of `instrumentLoadOrStore`. -/
theorem slotAt_instrumentBody_of_plainAccess (opts : Options) (T : AddressTests Value)
    {I : Inst Value} {w : Bool} {acc : Access Value} (hnd : (traverse T F).all.Nodup)
    (hI : F.instAt p = some I) (ha : I.plainAccess = some (w, acc)) :
    (instrumentBody intptrTy opts T F).1.slotAt p = some ⟨createCall intptrTy
      (printVariables (if w then 391 else 403) acc) :: (if opts.instrumentMemoryAccesses = true ∧
        F.sanitizeThread = true ∧ p ∈ (traverse T F).all then
          (instrumentLoadOrStore acc I.storedValue).1 else []).map (createCall intptrTy), .kept I⟩ := by
  obtain ⟨hat, hacc⟩ := Inst.plainAccess_eq_some ha
  have hmem : I.isMemIntrinsic = false := by rcases hacc with rfl | ⟨v, ty, rfl⟩ <;> rfl
  rw [instrumentBody, slotAt_lowerMemIntrinsics_of_not intptrTy T hI hmem,
    slotAt_lowerAtomics intptrTy T hI, slotAt_lowerLoadsAndStores intptrTy T hnd hI ha,
    slotAt_printCalls intptrTy T hI, ha]
  simp only [hat, Bool.false_eq_true, and_false, if_false, Option.map_some', id, Bool.and_eq_true,
    and_assoc]
  split <;> rfl

/-- After the body instrumentation, an atomic instruction that the scan did not select has been
lowered by `instrumentAtomic` when the pass instruments atomics, and has nothing else in front
of it. -/
theorem slotAt_instrumentBody_of_atomic (opts : Options) (T : AddressTests Value) {I : Inst Value}
    (hI : F.instAt p = some I) (hat : I.isAtomic = true) (hall : p ∉ (traverse T F).all) :
    (instrumentBody intptrTy opts T F).1.slotAt p = some ((if opts.instrumentAtomics = true then
      (instrumentAtomic I).1.apply intptrTy else id) ⟨[], .kept I⟩) := by
  have hmem : I.isMemIntrinsic = false := by
    cases I <;> first | rfl | simp [Inst.isAtomic] at hat
  rw [instrumentBody, slotAt_lowerMemIntrinsics_of_not intptrTy T hI hmem,
    slotAt_lowerAtomics intptrTy T hI, slotAt_lowerLoadsAndStores_of_not_mem intptrTy T hall,
    slotAt_printCalls intptrTy T hI, show I.plainAccess = none by simp [Inst.plainAccess, hat]]
  simp only [hat, and_true]
  rfl

end Body

/-! ### The entry probe -/

section EntryProbe

variable [DecidableEq α] (F : Function α)

/-- The calls to `__tsan_func_entry` for `F` the pass put in front of a place. -/
def Slot.entryProbes (s : Slot α) : Nat :=
  (s.before.filterMap Inst.call?).count (funcEntryCall F)

/-- `k` calls to `__tsan_func_entry` stand in front of the first instruction of the entry block,
and none anywhere else. -/
def Blocks.EntryProbes (k : Nat) (G : Blocks α) : Prop :=
  ∀ p s, G.slotAt p = some s → s.entryProbes F = if p = (0, 0) then k else 0

variable {F} (intptrTy : IRType)

theorem Slot.entryProbes_prepend (c : Call α) (s : Slot α) :
    (s.prepend [createCall intptrTy c]).entryProbes F =
      s.entryProbes F + if c = funcEntryCall F then 1 else 0 := by
  simp [Slot.entryProbes, List.count_cons]

@[simp] theorem Slot.entryProbes_toInvoke (n : Nat) (s : Slot α) :
    (s.toInvoke n).entryProbes F = s.entryProbes F := by
  simp [Slot.entryProbes, List.filterMap_map, Function.comp_def]

theorem Slot.entryProbes_atExit {c : Call α} (hc : c ≠ funcEntryCall F) (s : Slot α) :
    (s.atExit (createCall intptrTy c)).entryProbes F = s.entryProbes F := by
  unfold Slot.atExit
  split
  · simp [Slot.entryProbes, List.filterMap_append, List.count_singleton', Ne.symm hc]
  · rfl

/-- The body instrumentation puts no entry probe anywhere. -/
theorem BodySlot.entryProbes_eq_zero {G : Function α} {p : Pos} {s : Slot α}
    (h : BodySlot G p s) : s.entryProbes F = 0 := by
  refine List.count_eq_zero.2 fun hmem => ?_
  obtain ⟨I, hI, hc⟩ := List.mem_filterMap.1 hmem
  rcases h.1 I hI with rfl | ⟨c, nt, rfl, hl⟩
  · cases hc
  · cases hc
    simp [funcEntryCall, Call.isLifecycle, lifecycleNames] at hl

theorem BodySlots.entryProbes {G : Function α} {H : Blocks α} (h : BodySlots G H) :
    H.EntryProbes F 0 := fun p s hs => by
  rw [(h.2 p s hs).entryProbes_eq_zero, ite_self]

theorem Blocks.EntryProbes.atEntry {k : Nat} {G : Blocks α} (h : G.EntryProbes F k) (c : Call α) :
    (G.atEntry [createCall intptrTy c]).EntryProbes F
      (k + if c = funcEntryCall F then 1 else 0) := by
  intro p s hs
  rw [Blocks.atEntry, Blocks.slotAt_modifySlot] at hs
  by_cases hp : p = (0, 0)
  · rw [if_pos hp] at hs
    obtain ⟨s0, hs0, rfl⟩ := Option.map_eq_some'.1 hs
    rw [Slot.entryProbes_prepend, h _ _ hs0, if_pos hp, if_pos hp]
  · rw [if_neg hp] at hs
    rw [h _ _ hs, if_neg hp, if_neg hp]

theorem Blocks.EntryProbes.escapeEnumerator {k : Nat} {G : Blocks α} (h : G.EntryProbes F k)
    (hx dnt : Bool) {c : Call α} (hc : c ≠ funcEntryCall F) :
    (escapeEnumerator hx dnt (createCall intptrTy c) G).EntryProbes F k := by
  intro p s hs
  cases hG : G.slotAt p with
  | none =>
    -- a slot of the cleanup block, outside the entry block
    obtain ⟨hp, rfl | rfl⟩ := slotAt_escapeEnumerator_of_none hs hG <;>
      rw [if_neg (by rintro rfl; exact lt_irrefl 0 hp)]
    · rfl
    · simp [Slot.entryProbes, Ne.symm hc]
  | some s0 =>
    obtain ⟨f, hf, hs'⟩ := slotAt_escapeEnumerator_of_slotAt hx dnt (createCall intptrTy c) hG
    rw [hs, Option.some.injEq] at hs'
    subst hs'
    have hexit : (if G.IsLast p then s0.atExit (createCall intptrTy c) else s0).entryProbes F =
        s0.entryProbes F := by
      split
      exacts [Slot.entryProbes_atExit intptrTy hc s0, rfl]
    rcases hf with rfl | ⟨n, rfl⟩
    · exact hexit.trans (h p s0 hG)
    · exact (Slot.entryProbes_toInvoke n _).trans (hexit.trans (h p s0 hG))

omit [DecidableEq α] in
theorem ne_funcEntryCall (c : Call α) (h : c.callee ≠ tsanFuncEntry) : c ≠ funcEntryCall F :=
  fun hc => h (hc ▸ rfl)

theorem Blocks.EntryProbes.insertRuntimeIgnores {k : Nat} {G : Blocks α} (h : G.EntryProbes F k)
    (hx dnt : Bool) : (insertRuntimeIgnores intptrTy hx dnt G).EntryProbes F k := by
  have h' := (h.atEntry intptrTy ignoreBeginCall).escapeEnumerator intptrTy hx dnt
    (ne_funcEntryCall ignoreEndCall (show tsanIgnoreEnd ≠ tsanFuncEntry by decide))
  rwa [if_neg (ne_funcEntryCall ignoreBeginCall (show tsanIgnoreBegin ≠ tsanFuncEntry by decide)),
    add_zero] at h'

end EntryProbe

section Run

variable (intptrTy : IRType)

/-- Induction along the stages after the body: a property of the instrumented body that
putting the entry probes at the entry and the exit probes at the exits keeps holds of the
function `runOnFunction` returns, for every function but the module constructor. -/
theorem runOnFunction_induction {motive : Blocks Value → Prop} (opts : Options)
    (T : AddressTests Value) {F : Function Value} (hname : F.name ≠ kTsanModuleCtorName)
    (hbody : motive (instrumentBody intptrTy opts T F).1)
    (hentry : ∀ G, ∀ c ∈ [ignoreBeginCall, funcEntryCall F], motive G →
      motive (G.atEntry [createCall intptrTy c]))
    (hexit : ∀ G, ∀ c ∈ [ignoreEndCall, funcExitCall F, mainFuncExitCall F], motive G →
      motive (escapeEnumerator opts.handleCxxExceptions F.doesNotThrow (createCall intptrTy c) G)) :
    motive (runOnFunction intptrTy opts T F).1 := by
  have hign : ∀ b : Bool, motive (if b = true then
      insertRuntimeIgnores intptrTy opts.handleCxxExceptions F.doesNotThrow
        (instrumentBody intptrTy opts T F).1
      else (instrumentBody intptrTy opts T F).1) := by
    intro b
    split
    · exact hexit _ ignoreEndCall (by simp) (hentry _ ignoreBeginCall (by simp) hbody)
    · exact hbody
  have hfunc := fun b =>
    hexit _ (funcExitCall F) (by simp) (hentry _ (funcEntryCall F) (by simp) (hign b))
  simp only [runOnFunction, hname, if_false]
  split
  · split
    exacts [hexit _ (mainFuncExitCall F) (by simp) (hfunc _), hfunc _]
  · exact hign _

/-- Past the body instrumentation, `runOnFunction` only runs stages after the body. -/
theorem grows_runOnFunction (opts : Options) (T : AddressTests Value) {F : Function Value}
    (hname : F.name ≠ kTsanModuleCtorName) :
    (instrumentBody intptrTy opts T F).1.Grows intptrTy (runOnFunction intptrTy opts T F).1 := by
  refine runOnFunction_induction intptrTy opts T hname (.refl _) (fun G c hc hG => ?_)
    fun G c hc hG => ?_
  · refine hG.trans (Blocks.grows_atEntry _ ?_)
    simp only [List.mem_cons, List.not_mem_nil, or_false] at hc
    rcases hc with rfl | rfl <;> rfl
  · refine hG.trans (Blocks.grows_escapeEnumerator _ _ _ ?_)
    simp only [List.mem_cons, List.not_mem_nil, or_false] at hc
    rcases hc with rfl | rfl | rfl <;> rfl

/-- After `runOnFunction`, every plain load and store of a function other than the module
constructor stands at its place, behind the print call of the scan (tag `391` for a store, `403`
for a load) and, when the pass instruments the memory accesses of the function and the scan
selected it, the calls `instrumentLoadOrStore` makes for it; no other call stands in front of it
but entry and exit probes. The module constructor is left as it is. -/
theorem loadsAndStores_instrumented (capturedInProgram : Value → Bool) (opts : Options)
    (F : Function Value) (p : Pos) (I : Inst Value) (w : Bool) (acc : Access Value)
    (hI : F.instAt p = some I) (ha : I.plainAccess = some (w, acc)) :
    ∃ s, (runOnFunction intptrTy opts (passTests capturedInProgram) F).1.slotAt p = some s ∧
      s.placed = .kept I ∧
      s.bodyCalls = if F.name = kTsanModuleCtorName then [] else
        printVariables (if w then 391 else 403) acc ::
          if opts.instrumentMemoryAccesses = true ∧ F.sanitizeThread = true ∧
              p ∈ (traverse (passTests capturedInProgram) F).all then
            (instrumentLoadOrStore acc I.storedValue).1 else [] := by
  by_cases hname : F.name = kTsanModuleCtorName
  · exact ⟨⟨[], .kept I⟩, by simp [runOnFunction, hname, slotAt_initialBlocks, hI], rfl,
      by simp [hname, Slot.bodyCalls]⟩
  have hnd : (traverse (passTests capturedInProgram) F).all.Nodup := by
    rw [traverse_passTests]
    exact (allLoadsAndStores_spec _ _ _ F).1
  have hB := slotAt_instrumentBody_of_plainAccess intptrTy opts _ hnd hI ha
  obtain ⟨t, ht, hgrow⟩ := (grows_runOnFunction intptrTy opts _ hname).forward p _ hB
  have hkind : I.isExit = false ∧ I.mayThrowCall = false := by
    rcases (Inst.plainAccess_eq_some ha).2 with rfl | ⟨v, ty, rfl⟩ <;> exact ⟨rfl, rfl⟩
  obtain ⟨hplaced, hcalls⟩ := hgrow.kept rfl hkind.1 hkind.2
  refine ⟨t, ht, hplaced, ?_⟩
  have hnl := instrumentLoadOrStore_not_lifecycle acc I.storedValue
  rw [hcalls, Slot.bodyCalls, if_neg hname, List.filterMap_cons, Inst.call?_createCall,
    List.filter_cons_of_pos (by rfl), List.filterMap_map]
  simp only [Function.comp_def, Inst.call?_createCall, List.filterMap_some]
  congr 1
  split
  · simpa [List.filter_eq_self] using hnl
  · rfl

/-- The load of the stack slot in `stackSlotStoreLoad`. -/
theorem loadsAndStores_instrumented_stackSlotStoreLoad :
    stackSlotStoreLoad.instAt (0, 1) = some (.load (.plain32 (.alloca 0 false))) ∧
      (Inst.load (Access.plain32 (.alloca 0 false))).plainAccess =
        some (false, .plain32 (.alloca 0 false)) ∧
      ∃ s, (runOnFunction (.int 64) {} (passTests fun _ => false) stackSlotStoreLoad).1.slotAt
          (0, 1) = some s ∧ s.placed = .kept (.load (.plain32 (.alloca 0 false))) ∧
        s.bodyCalls = if stackSlotStoreLoad.name = kTsanModuleCtorName then [] else
          printVariables (if false then 391 else 403) (.plain32 (.alloca 0 false)) ::
            if ({} : Options).instrumentMemoryAccesses = true ∧
                stackSlotStoreLoad.sanitizeThread = true ∧
                (0, 1) ∈ (traverse (passTests fun _ => false) stackSlotStoreLoad).all then
              (instrumentLoadOrStore (.plain32 (.alloca 0 false))
                (Inst.load (Access.plain32 (.alloca 0 false))).storedValue).1 else [] :=
  ⟨rfl, rfl, loadsAndStores_instrumented (.int 64) (fun _ => false) {} stackSlotStoreLoad (0, 1) _
    false _ rfl rfl⟩

/-- After `runOnFunction`, with `-tsan-instrument-atomics`, every cross-thread atomic instruction
of a function other than the module constructor has been lowered by `instrumentAtomic` at its
place, whether the function is marked `sanitize_thread` or not: its slot has grown, through the
stages after the body, from the slot the lowering leaves, with no print call and no probe of a
plain access in front of it. -/
theorem atomics_instrumented (capturedInProgram : Value → Bool) (opts : Options)
    (F : Function Value) (p : Pos) (I : Inst Value) (hI : F.instAt p = some I)
    (hat : I.isAtomic = true) :
    ∃ s, (runOnFunction intptrTy opts (passTests capturedInProgram) F).1.slotAt p = some s ∧
      ((if F.name ≠ kTsanModuleCtorName ∧ opts.instrumentAtomics = true then
        (instrumentAtomic I).1.apply intptrTy else id) ⟨[], .kept I⟩).Grows intptrTy s := by
  by_cases hname : F.name = kTsanModuleCtorName
  · refine ⟨⟨[], .kept I⟩, by simp [runOnFunction, hname, slotAt_initialBlocks, hI], ?_⟩
    rw [if_neg fun h => h.1 hname]
    exact .refl
  have hall : p ∉ (traverse (passTests capturedInProgram) F).all := fun hp => by
    obtain ⟨J, w, acc, hJ, ha, -⟩ := (mem_traverse_passTests capturedInProgram F p).1 hp
    rw [hI, Option.some.injEq] at hJ
    subst hJ
    simp [Inst.plainAccess, hat] at ha
  obtain ⟨t, ht, hgrow⟩ := (grows_runOnFunction intptrTy opts _ hname).forward p _
    (slotAt_instrumentBody_of_atomic intptrTy opts _ hI hat hall)
  exact ⟨t, ht, by simpa only [ne_eq, hname, not_false_eq_true, true_and] using hgrow⟩

/-- The fence of `loadFenceStore`. -/
theorem atomics_instrumented_loadFenceStore :
    loadFenceStore.instAt (0, 1) = some (.fence .sequentiallyConsistent .crossThread) ∧
      (Inst.fence .sequentiallyConsistent .crossThread : Inst Value).isAtomic = true ∧
      ∃ s, (runOnFunction (.int 64) {} (passTests fun _ => false) loadFenceStore).1.slotAt (0, 1) =
          some s ∧
        ((if loadFenceStore.name ≠ kTsanModuleCtorName ∧ ({} : Options).instrumentAtomics = true then
          (instrumentAtomic (Inst.fence .sequentiallyConsistent .crossThread : Inst Value)).1.apply
            (.int 64) else id) ⟨[], .kept (.fence .sequentiallyConsistent .crossThread)⟩).Grows
          (.int 64) s :=
  ⟨rfl, rfl, atomics_instrumented (.int 64) (fun _ => false) {} loadFenceStore (0, 1) _ rfl rfl⟩

/-- After `runOnFunction`, one call to `__tsan_func_entry` stands in front of the first
instruction of the entry block when the pass instruments the entry and the exits of the function,
and none otherwise; no other place has one. A function with neither a call nor an instrumented
access gets no entry probe, whatever its attributes. -/
theorem funcEntry_probes (opts : Options) (T : AddressTests Value) (F : Function Value) :
    (runOnFunction intptrTy opts T F).1.EntryProbes F
      (if instrumentsEntryExit intptrTy opts T F = true then 1 else 0) := by
  have hbody : (instrumentBody intptrTy opts T F).1.EntryProbes F 0 :=
    (bodySlots_instrumentBody intptrTy opts T F).entryProbes
  have hign : ∀ b : Bool, (if b = true then insertRuntimeIgnores intptrTy opts.handleCxxExceptions
      F.doesNotThrow (instrumentBody intptrTy opts T F).1
      else (instrumentBody intptrTy opts T F).1).EntryProbes F 0 := fun b => by
    split
    exacts [hbody.insertRuntimeIgnores intptrTy _ _, hbody]
  by_cases hname : F.name = kTsanModuleCtorName
  · simp only [runOnFunction, instrumentsEntryExit, hname, if_true, bne_self_eq_false,
      Bool.false_and, Bool.false_eq_true, if_false]
    exact (bodySlots_initialBlocks F).entryProbes
  rw [instrumentsEntryExit, bne_iff_ne.2 hname, Bool.true_and]
  simp only [runOnFunction, hname, if_false]
  split
  · have h := ((hign (F.noCheckingAtRunTime && (traverse T F).hasCalls)).atEntry intptrTy
      (funcEntryCall F)).escapeEnumerator intptrTy
      opts.handleCxxExceptions F.doesNotThrow (ne_funcEntryCall (funcExitCall F)
      (show tsanFuncExit ≠ tsanFuncEntry by decide))
    rw [if_pos rfl, zero_add] at h
    split
    · exact h.escapeEnumerator intptrTy _ _ (ne_funcEntryCall (mainFuncExitCall F)
      (show tsanMainFuncExit ≠ tsanFuncEntry by decide))
    · exact h
  · exact hign _

/-- A `sanitize_thread` function that only returns gets no entry probe. -/
example : ((runOnFunction (.int 64) {} (passTests fun _ => false)
    ⟨"f", [[.ret]], true, false, true⟩).1.slotAt (0, 0)).map
      (Slot.entryProbes ⟨"f", [[(.ret : Inst Value)]], true, false, true⟩) = some 0 := by
  decide

end Run

end EmbedSanitizer
