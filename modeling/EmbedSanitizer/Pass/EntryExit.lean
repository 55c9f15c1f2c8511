import EmbedSanitizer.Pass.Run
import EmbedSanitizer.Pass.Selection

/-!
# Entry and exit probes

On every path out of a function that gets `__tsan_func_entry`, the probes of the pass run in
the order the spec asks: `__tsan_func_entry`, then `__tsan_ignore_thread_begin` when the
function is bracketed, then the other probes, then `__tsan_ignore_thread_end`,
`__tsan_func_exit` and, in `main`, `__tsan_main_func_exit` (`lifecycle_probes_on_exit`). In a
bracketed function the two ignore calls enclose the other probes on every path also when the
pass adds no entry or exit probe (`runtimeIgnores_bracket`).

The proof follows the stages of `runOnFunction`. The body instrumentation inserts only calls
to other callbacks (`BodySlots`). Each `EscapeEnumerator` run then adds its exit call behind
those already in front of every exit, and the first run that turns calls into invokes leaves
no call that may throw, so a later run adds no cleanup block (`Good`). The code has then the
shape `leaves_probes` needs.
-/

namespace EmbedSanitizer

variable {α : Type}

/-! ### Entry and exit probes -/

/-- The callbacks of entry and exit. -/
def lifecycleNames : List String :=
  [tsanFuncEntry, tsanFuncExit, tsanMainFuncExit, tsanIgnoreBegin, tsanIgnoreEnd]

/-- Whether a call is to a callback of entry or exit. -/
def Call.isLifecycle (c : Call α) : Bool := c.callee ∈ lifecycleNames

/-- Two strings differ whatever follows the first, when they differ at a position inside it. -/
theorem String.append_ne {a b : String} (x : String) {k : Nat} (hk : k < a.length)
    (h : a.data[k]? ≠ b.data[k]?) : a ++ x ≠ b := by
  rintro rfl
  apply h
  rw [String.data_append, List.getElem?_append_left hk]

/-- The names of the other callbacks start with `__tsan_` and a letter no entry or exit
callback has there. -/
theorem append_not_mem_lifecycleNames {a : String} (x : String) (h7 : 7 < a.length)
    (h : a.data[7]? ∉ [some 'f', some 'm', some 'i']) : a ++ x ∉ lifecycleNames := by
  simp only [lifecycleNames, List.mem_cons, List.not_mem_nil, or_false, not_or] at h ⊢
  exact ⟨String.append_ne x h7 fun he => h.1 (he.trans (by decide)),
    String.append_ne x h7 fun he => h.1 (he.trans (by decide)),
    String.append_ne x h7 fun he => h.2.1 (he.trans (by decide)),
    String.append_ne x h7 fun he => h.2.2 (he.trans (by decide)),
    String.append_ne x h7 fun he => h.2.2 (he.trans (by decide))⟩

theorem sized_not_mem_lifecycleNames (i : Nat) :
    tsanRead i ∉ lifecycleNames ∧ tsanWrite i ∉ lifecycleNames ∧
      tsanUnalignedRead i ∉ lifecycleNames ∧ tsanUnalignedWrite i ∉ lifecycleNames ∧
      tsanAtomicLoad i ∉ lifecycleNames ∧ tsanAtomicStore i ∉ lifecycleNames ∧
      tsanAtomicCAS i ∉ lifecycleNames ∧
      ∀ op f, tsanAtomicRMW op i = some f → f ∉ lifecycleNames := by
  refine ⟨append_not_mem_lifecycleNames _ (by decide) (by decide),
    append_not_mem_lifecycleNames _ (by decide) (by decide),
    append_not_mem_lifecycleNames _ (by decide) (by decide),
    append_not_mem_lifecycleNames _ (by decide) (by decide), ?_, ?_, ?_, ?_⟩
  · rw [tsanAtomicLoad, String.append_assoc]
    exact append_not_mem_lifecycleNames _ (by decide) (by decide)
  · rw [tsanAtomicStore, String.append_assoc]
    exact append_not_mem_lifecycleNames _ (by decide) (by decide)
  · rw [tsanAtomicCAS, String.append_assoc]
    exact append_not_mem_lifecycleNames _ (by decide) (by decide)
  · intro op f hf
    obtain ⟨part, -, rfl⟩ := Option.map_eq_some'.1 hf
    rw [String.append_assoc]
    exact append_not_mem_lifecycleNames _ (by decide) (by decide)

/-- The calls the lowering of a load or store inserts are not entry or exit probes. -/
theorem instrumentLoadOrStore_not_lifecycle (a : Access Value) (stored : Option (Value × IRType)) :
    ∀ c ∈ (instrumentLoadOrStore a stored).1, c.isLifecycle = false := by
  have hs := sized_not_mem_lifecycleNames
  unfold instrumentLoadOrStore
  split
  · simp
  · split
    · simp
    · split <;> simp only [List.mem_singleton, forall_eq, Call.isLifecycle, decide_eq_false_iff_not]
      · decide
      · decide
      · split <;> split <;> simp [hs]

/-- The call of an atomic lowering is not an entry or exit probe. -/
theorem instrumentAtomic_not_lifecycle (I : Inst α) :
    ∀ c ∈ (instrumentAtomic I).1.call?, c.isLifecycle = false := by
  have hs := sized_not_mem_lifecycleNames
  intro c hc
  simp only [Call.isLifecycle, decide_eq_false_iff_not]
  cases I <;> simp only [instrumentAtomic] at hc <;> repeat' split at hc
  all_goals simp only [AtomicLowering.call?, Option.mem_def, Option.some.injEq, reduceCtorEq] at hc
  all_goals subst hc; dsimp only
  all_goals first
    | exact (hs _).2.2.2.2.2.2.2 _ _ ‹_›
    | decide
    | simp [hs]

theorem instrumentMemIntrinsic_not_lifecycle (intptrTy : IRType) (m : MemIntrinsic α) :
    (instrumentMemIntrinsic intptrTy m).isLifecycle = false := by
  unfold instrumentMemIntrinsic
  simp only [Call.isLifecycle, decide_eq_false_iff_not]
  split <;> dsimp only
  · decide
  · split <;> decide

/-! ### The body instrumentation -/

/-- An instruction the body instrumentation inserts: a call, made as `createCall` makes it, to a
callback other than the entry and exit probes, or one of the `other` instructions of an atomic
lowering. -/
def Inserted (I : Inst α) : Prop :=
  I = .other ∨ ∃ c nt, I = .call c nt none ∧ c.isLifecycle = false

theorem inserted_createCall (intptrTy : IRType) {c : Call α} (hc : c.isLifecycle = false) :
    Inserted (createCall intptrTy c) :=
  .inr ⟨c, _, rfl, hc⟩

/-- A slot after the body instrumentation: inserted instructions in front, and at the place the
instruction of the function, an inserted call, or nothing. -/
def BodySlot (F : Function α) (p : Pos) (s : Slot α) : Prop :=
  (∀ I ∈ s.before, Inserted I) ∧ (∀ I, s.placed = .kept I → F.instAt p = some I) ∧
    ∀ I, s.placed = .created I → Inserted I

/-- The blocks after the body instrumentation: those of the function, slot for slot. -/
def BodySlots (F : Function α) (G : Blocks α) : Prop :=
  G.map List.length = F.blocks.map List.length ∧ ∀ p s, G.slotAt p = some s → BodySlot F p s

theorem bodySlots_initialBlocks (F : Function α) : BodySlots F (initialBlocks F) := by
  refine ⟨by simp [initialBlocks, Function.comp_def], fun p s hs => ?_⟩
  rw [slotAt_initialBlocks] at hs
  obtain ⟨I, hI, rfl⟩ := Option.map_eq_some'.1 hs
  exact ⟨by simp, by simp [hI], by simp⟩

theorem BodySlots.modifySlot {F : Function α} {G : Blocks α} (h : BodySlots F G)
    {f : Slot α → Slot α} {p : Pos} (hf : ∀ s, BodySlot F p s → BodySlot F p (f s)) :
    BodySlots F (G.modifySlot f p) := by
  refine ⟨by rw [Blocks.map_length_modifySlot, h.1], fun q s hs => ?_⟩
  · rw [Blocks.slotAt_modifySlot] at hs
    split at hs
    · subst q
      obtain ⟨s', hs', rfl⟩ := Option.map_eq_some'.1 hs
      exact hf s' (h.2 p s' hs')
    · exact h.2 q s hs

theorem BodySlot.insertBefore {F : Function α} {p : Pos} {s : Slot α} (h : BodySlot F p s)
    {is : List (Inst α)} (his : ∀ I ∈ is, Inserted I) : BodySlot F p (s.insertBefore is) :=
  ⟨by simpa [or_imp, forall_and] using ⟨h.1, his⟩, h.2.1, h.2.2⟩

section Body

variable (intptrTy : IRType)

theorem bodySlot_apply {F : Function α} {p : Pos} {s : Slot α} (h : BodySlot F p s) (I : Inst α) :
    BodySlot F p ((instrumentAtomic I).1.apply intptrTy s) := by
  have hc := instrumentAtomic_not_lifecycle I
  cases hlow : (instrumentAtomic I).1 with
  | keep => exact h
  | replaceUses c ty =>
    simp only [hlow, AtomicLowering.call?, Option.mem_def, Option.some.injEq, forall_eq'] at hc
    refine h.insertBefore fun J hJ => ?_
    simp only [List.mem_cons, List.not_mem_nil, or_false] at hJ
    rcases hJ with rfl | rfl
    exacts [inserted_createCall intptrTy hc, .inl rfl]
  | replaceInst c =>
    simp only [hlow, AtomicLowering.call?, Option.mem_def, Option.some.injEq, forall_eq'] at hc
    exact ⟨h.1, by simp [AtomicLowering.apply], by
      simpa [AtomicLowering.apply] using inserted_createCall intptrTy hc⟩
  | cmpXchg c cmp ty =>
    simp only [hlow, AtomicLowering.call?, Option.mem_def, Option.some.injEq, forall_eq'] at hc
    refine ⟨?_, by simp [AtomicLowering.apply], by simp [AtomicLowering.apply]⟩
    intro J hJ
    rcases List.mem_append.1 hJ with hJ | hJ
    · exact h.1 J hJ
    · have : J = createCall intptrTy c ∨ J = .other := by
        split at hJ <;> simp only [List.mem_append, List.mem_cons, List.not_mem_nil] at hJ <;> tauto
      rcases this with rfl | rfl
      exacts [inserted_createCall intptrTy hc, .inl rfl]

/-- Induction along one of the body's loops: a property of the blocks that each step keeps. -/
theorem instrumentEach_induction {motive : Blocks Value → Prop}
    (step : Blocks Value → Pos → Blocks Value × Bool) (ps : List Pos) (G : Blocks Value) (res : Bool)
    (hstep : ∀ G p, motive G → motive (step G p).1) (hG : motive G) :
    motive (instrumentEach step ps G res).1 :=
  List.foldlRecOn (motive := fun r : Blocks Value × Bool => motive r.1) ps _ _ hG
    fun r hr p _ => hstep r.1 p hr

/-- Induction along the body instrumentation: a property of the blocks that the initial blocks
have, and that each print call and each step of the three loops keeps, holds of the
instrumented body, whichever options are set. -/
theorem instrumentBody_induction {motive : Blocks Value → Prop} (opts : Options)
    (T : AddressTests Value) (F : Function Value) (hinit : motive (initialBlocks F))
    (hprint : ∀ G, ∀ pc ∈ (traverse T F).printCalls, motive G →
      motive (G.modifySlot (·.insertBefore [createCall intptrTy pc.2]) pc.1))
    (hls : ∀ G p, motive G → motive (instrumentLoadOrStoreAt intptrTy F G p).1)
    (hat : ∀ G p, motive G → motive (instrumentAtomicAt intptrTy F G p).1)
    (hmem : ∀ G p, motive G → motive (instrumentMemIntrinsicAt intptrTy F G p)) :
    motive (instrumentBody intptrTy opts T F).1 := by
  have stage : ∀ (b : Bool) (f : Blocks Value × Bool → Blocks Value × Bool) (r : Blocks Value × Bool),
      (∀ r, motive r.1 → motive (f r).1) → motive r.1 → motive (if b then f r else r).1 :=
    fun b f r hf hr => by split; exacts [hf r hr, hr]
  exact stage _ (fun r => ((traverse T F).memIntrinCalls.foldl (instrumentMemIntrinsicAt intptrTy F)
      r.1, r.2)) _ (fun r hr => List.foldlRecOn _ _ _ hr fun G hG p _ => hmem G p hG)
    (stage _ (fun r => instrumentEach (instrumentAtomicAt intptrTy F) (traverse T F).atomics r.1 r.2)
      _ (fun r hr => instrumentEach_induction _ _ _ _ hat hr)
      (stage _ (fun r => instrumentEach (instrumentLoadOrStoreAt intptrTy F) (traverse T F).all r.1
        r.2) (_, false) (fun r hr => instrumentEach_induction _ _ _ _ hls hr)
        (List.foldlRecOn _ _ _ hinit fun G hG pc hpc => hprint G pc hpc hG)))

/-- The body instrumentation inserts no entry or exit probe, and keeps every instruction it
does not replace or erase at its place. -/
theorem bodySlots_instrumentBody (opts : Options) (T : AddressTests Value) (F : Function Value) :
    BodySlots F (instrumentBody intptrTy opts T F).1 := by
  refine instrumentBody_induction intptrTy opts T F (bodySlots_initialBlocks F) ?print ?ls ?atomic ?mem
  case print =>
    refine fun G pc hpc hG => hG.modifySlot fun s hs => ?_
    obtain ⟨tag, a, hpc⟩ := traverse_printCalls T F pc hpc
    have hl : pc.2.isLifecycle = false := by rw [hpc]; rfl
    exact hs.insertBefore (by simpa using inserted_createCall intptrTy hl)
  case ls =>
    refine fun G p hG => hG.modifySlot fun s hs => hs.insertBefore fun J hJ => ?_
    obtain ⟨c, hc, rfl⟩ := List.mem_map.1 hJ
    refine inserted_createCall intptrTy ?_
    split at hc
    · exact instrumentLoadOrStore_not_lifecycle _ _ c hc
    · exact instrumentLoadOrStore_not_lifecycle _ _ c hc
    · simp at hc
  case atomic =>
    intro G p hG
    unfold instrumentAtomicAt
    split
    · exact hG.modifySlot fun s hs => bodySlot_apply intptrTy hs _
    · exact hG
  case mem =>
    intro G p hG
    unfold instrumentMemIntrinsicAt
    split
    · refine hG.modifySlot fun s hs => ⟨?_, by simp, by simp⟩
      simpa [or_imp, forall_and] using ⟨hs.1, inserted_createCall intptrTy
        (instrumentMemIntrinsic_not_lifecycle intptrTy _)⟩
    · exact hG

end Body

/-! ### The shape of the blocks -/

/-- A body instruction of the instrumented function: no entry or exit probe, no `ret` or
`resume`, and no edge to the entry block. -/
def BodyInst (x : Inst α × Bool) : Prop :=
  (∀ c ∈ probeOf x, c.isLifecycle = false) ∧ x.1.isExit = false ∧ 0 ∉ x.1.successors

/-- A slot between two stages of the pass: in front of its place the opening calls `O`, then
body instructions, then, when it is the last slot of its block and stands for an exit, the
closing calls `E`. -/
def SlotShape (O E : List (Inst α)) (last : Prop) (s : Slot α) : Prop :=
  ∃ B, (∀ I ∈ B, BodyInst (I, true)) ∧
    ((s.before = O ++ B ∧ ∀ x ∈ s.placed.items, BodyInst x) ∨
      (last ∧ s.before = O ++ B ++ E ∧ s.placed.isExit = true))

/-- No call that may throw is left. -/
def Blocks.NoThrow (G : Blocks α) : Prop :=
  ∀ p s, G.slotAt p = some s → ∀ I ∈ s.insts, I.mayThrowCall = false

/-- The blocks between two stages of the pass: the entry block opens with the calls `O`, every
exit is preceded by the calls `E`, the rest are body instructions, and once calls have been
turned into invokes (`converted`) none may throw. -/
structure Good (converted : Bool) (O E : List (Inst α)) (G : Blocks α) : Prop where
  entry : (G.slotAt (0, 0)).isSome
  slot : ∀ p s, G.slotAt p = some s → SlotShape (if p = (0, 0) then O else []) E (G.IsLast p) s
  noThrow : converted = true → G.NoThrow
  opening : ∀ I ∈ O, Straight (I, true)
  closing : ∀ I ∈ E, Straight (I, true)

/-- What the IR verifier guarantees of a function the pass receives: the entry block is not
empty, a `ret` or `resume` only ends a block, and no instruction leads to the entry block. -/
structure Function.WellFormed (F : Function α) : Prop where
  entry : (F.instAt (0, 0)).isSome
  exit_last : ∀ (b : Nat) (blk : List (Inst α)) (i : Nat) (I : Inst α), F.blocks[b]? = some blk → blk[i]? = some I → I.isExit = true →
    blk.length = i + 1
  entry_pred : ∀ p I, F.instAt p = some I → 0 ∉ I.successors

@[simp] theorem Slot.items_prepend (is : List (Inst α)) (s : Slot α) :
    (s.prepend is).items = is.map (·, true) ++ s.items := by
  simp [Slot.items, Slot.prepend]

@[simp] theorem Placed.isExit_kept (I : Inst α) : (Placed.kept I).isExit = I.isExit := by
  cases I <;> rfl

@[simp] theorem Placed.isExit_created (I : Inst α) : (Placed.created I).isExit = I.isExit := by
  cases I <;> rfl

@[simp] theorem Slot.insts_prepend (is : List (Inst α)) (s : Slot α) :
    (s.prepend is).insts = is ++ s.insts := by
  simp [Slot.insts]

@[simp] theorem Placed.isExit_map_toInvoke (n : Nat) (P : Placed α) :
    (P.map (Inst.toInvoke n)).isExit = P.isExit := by
  cases P <;> simp [Placed.map]

theorem Slot.mem_insts_of_mem_items {s : Slot α} {x : Inst α × Bool} (h : x ∈ s.items) :
    x.1 ∈ s.insts := by
  obtain ⟨I, b⟩ := x
  rcases s with ⟨before, _ | _ | _⟩ <;>
    simp_all [Slot.items, Slot.insts, Placed.items, Placed.inst?] <;> aesop

theorem Placed.isExit_of_bodyInst {P : Placed α} (h : ∀ x ∈ P.items, BodyInst x) :
    P.isExit = false := by
  cases P with
  | kept I => simpa using (h (I, false) (by simp [Placed.items])).2.1
  | created I => simpa using (h (I, true) (by simp [Placed.items])).2.1
  | erased => rfl

theorem Inserted.bodyInst {I : Inst α} (h : Inserted I) : BodyInst (I, true) := by
  rcases h with rfl | ⟨c, nt, rfl, hc⟩
  · simp [BodyInst, probeOf, Inst.isExit, Inst.successors]
  · simp [BodyInst, probeOf, Inst.isExit, Inst.successors, hc]

theorem BodySlots.isLast_iff {F : Function α} {G : Blocks α} (h : BodySlots F G) (p : Pos) :
    G.IsLast p ↔ (F.blocks[p.1]?.map List.length) = some (p.2 + 1) := by
  rw [Blocks.IsLast, h.1, List.getElem?_map]

theorem BodySlots.slotAt_isSome {F : Function α} {G : Blocks α} (h : BodySlots F G) (p : Pos) :
    (G.slotAt p).isSome = (F.instAt p).isSome := by
  have hlen := congrArg (·[p.1]?) h.1
  simp only [List.getElem?_map] at hlen
  simp only [Blocks.slotAt, Function.instAt]
  revert hlen
  rcases G[p.1]? with _ | a <;> rcases F.blocks[p.1]? with _ | b <;> simp
  intro hlen
  by_cases hi : p.2 < a.length
  · simp [List.getElem?_eq_getElem hi, List.getElem?_eq_getElem (hlen ▸ hi)]
  · simp [List.getElem?_eq_none (Nat.le_of_not_lt hi), List.getElem?_eq_none (hlen ▸ Nat.le_of_not_lt hi)]

/-- After the body instrumentation, with no opening or closing calls yet. -/
theorem good_of_bodySlots {F : Function α} (hF : F.WellFormed) {G : Blocks α}
    (h : BodySlots F G) : Good false [] [] G := by
  refine ⟨by rw [h.slotAt_isSome]; exact hF.entry, fun p s hs => ?_, by simp, by simp, by simp⟩
  obtain ⟨hbefore, hkept, hcreated⟩ := h.2 p s hs
  rw [ite_self]
  refine ⟨s.before, fun I hI => (hbefore I hI).bodyInst, ?_⟩
  rcases hP : s.placed with I | I | _
  · -- an instruction of the function: an exit ends its block
    obtain ⟨blk, hblk, hI⟩ := Option.bind_eq_some.1 (hkept I hP)
    cases hx : I.isExit
    · refine .inl ⟨by simp, ?_⟩
      simpa [Placed.items, BodyInst, hx] using hF.entry_pred p I (hkept I hP)
    · exact .inr ⟨(h.isLast_iff p).2 (by simp [hblk, hF.exit_last _ _ _ _ hblk hI hx]), by simp, by simp [hx]⟩
  · exact .inl ⟨by simp, by simpa [Placed.items] using (hcreated I hP).bodyInst⟩
  · exact .inl ⟨by simp, by simp [Placed.items]⟩

/-! ### The stages of the entry and exit probes -/

section Slots

variable {O E : List (Inst α)} {last : Prop} {s : Slot α}

theorem SlotShape.prepend (h : SlotShape O E last s) (is : List (Inst α)) :
    SlotShape (is ++ O) E last (s.prepend is) := by
  obtain ⟨B, hB, ⟨hb, hp⟩ | ⟨hl, hb, hx⟩⟩ := h
  · exact ⟨B, hB, .inl ⟨by simp [hb], hp⟩⟩
  · exact ⟨B, hB, .inr ⟨hl, by simp [hb], hx⟩⟩

/-- At the last slot of a block, the exit call goes behind the closing calls. -/
theorem SlotShape.atExit (h : SlotShape O E last s) (hl : last) (exit : Inst α) :
    SlotShape O (E ++ [exit]) last (s.atExit exit) := by
  obtain ⟨B, hB, ⟨hb, hp⟩ | ⟨-, hb, hx⟩⟩ := h
  · rw [Slot.atExit, Placed.isExit_of_bodyInst hp]
    exact ⟨B, hB, .inl ⟨hb, hp⟩⟩
  · exact ⟨B, hB, .inr ⟨hl, by simp [Slot.atExit, hx, hb], by simp [Slot.atExit, hx]⟩⟩

/-- A slot other than the last one of its block holds no exit. -/
theorem SlotShape.extend (h : SlotShape O E last s) (hl : ¬ last) (E' : List (Inst α)) :
    SlotShape O E' last s := by
  obtain ⟨B, hB, h | ⟨hl', -⟩⟩ := h
  exacts [⟨B, hB, .inl h⟩, absurd hl' hl]

theorem BodyInst.toInvoke {n : Nat} (hn : n ≠ 0) {x : Inst α × Bool} (h : BodyInst x) :
    BodyInst (x.1.toInvoke n, x.2) := by
  obtain ⟨hp, hx, hs⟩ := h
  refine ⟨by simpa using hp, by simpa using hx, fun h0 => ?_⟩
  rcases Inst.successors_toInvoke n x.1 0 h0 with h0 | h0
  exacts [hn h0.symm, hs h0]

theorem map_toInvoke_of_straight {is : List (Inst α)} (h : ∀ I ∈ is, Straight (I, true)) (n : Nat) :
    is.map (Inst.toInvoke n) = is :=
  (List.map_congr_left fun I hI => Inst.toInvoke_of_mayThrowCall (h I hI).2.2.2 n).trans
    (List.map_id' is)

/-- Turning calls into invokes of a cleanup block other than the entry block keeps the shape. -/
theorem SlotShape.toInvoke (h : SlotShape O E last s) {n : Nat} (hn : n ≠ 0)
    (hO : ∀ I ∈ O, Straight (I, true)) (hE : ∀ I ∈ E, Straight (I, true)) :
    SlotShape O E last (s.toInvoke n) := by
  obtain ⟨B, hB, ⟨hb, hp⟩ | ⟨hl, hb, hx⟩⟩ := h
  all_goals refine ⟨B.map (Inst.toInvoke n), by simpa using fun I hI => (hB I hI).toInvoke hn, ?_⟩
  · refine .inl ⟨by simp [hb, map_toInvoke_of_straight hO], fun x hx => ?_⟩
    rw [Slot.toInvoke_placed, Placed.items_map] at hx
    obtain ⟨y, hy, rfl⟩ := List.mem_map.1 hx
    exact (hp y hy).toInvoke hn
  · refine .inr ⟨hl, by simp [hb, map_toInvoke_of_straight hO, map_toInvoke_of_straight hE], ?_⟩
    rw [Slot.toInvoke_placed, Placed.isExit_map_toInvoke, hx]

end Slots

section Stages

variable {c : Bool} {O E : List (Inst α)} {G : Blocks α}

theorem Good.atEntry (h : Good c O E G) {is : List (Inst α)} (his : ∀ I ∈ is, Straight (I, true)) :
    Good c (is ++ O) E (G.atEntry is) := by
  have hlast : ∀ p, (G.atEntry is).IsLast p ↔ G.IsLast p := fun p => by
    rw [Blocks.IsLast, Blocks.IsLast, Blocks.atEntry, Blocks.map_length_modifySlot]
  have hslot : ∀ p, (G.atEntry is).slotAt p =
      if p = (0, 0) then (G.slotAt p).map (Slot.prepend is) else G.slotAt p :=
    fun p => Blocks.slotAt_modifySlot _ _ _ _
  refine ⟨by simpa [hslot] using h.entry, fun p s hs => ?_, fun hc p s hs => ?_,
    List.forall_mem_append.2 ⟨his, h.opening⟩, h.closing⟩
  · rw [hlast]
    rw [hslot] at hs
    split at hs
    · subst p
      obtain ⟨s0, hs0, rfl⟩ := Option.map_eq_some'.1 hs
      simpa using (h.slot _ s0 hs0).prepend is
    · rw [if_neg ‹_›]
      simpa only [if_neg ‹_›] using h.slot p s hs
  · rw [hslot] at hs
    split at hs
    · obtain ⟨s0, hs0, rfl⟩ := Option.map_eq_some'.1 hs
      intro I hI
      rw [Slot.insts_prepend] at hI
      rcases List.mem_append.1 hI with hI | hI
      exacts [(his I hI).2.2.2, h.noThrow hc p s0 hs0 I hI]
    · exact h.noThrow hc p s hs

theorem Slot.mem_insts_atExit {exit I : Inst α} {s : Slot α} (h : I ∈ (s.atExit exit).insts) :
    I ∈ s.insts ∨ I = exit := by
  unfold Slot.atExit at h
  split at h
  · simp only [Slot.insts, Slot.insertBefore_before, Slot.insertBefore_placed, List.mem_append,
      List.mem_singleton] at h
    rcases h with (h | h) | h
    exacts [.inl (List.mem_append_left _ h), .inr h, .inl (List.mem_append_right _ h)]
  · exact .inl h

@[simp] theorem Slot.insts_toInvoke (n : Nat) (s : Slot α) :
    (s.toInvoke n).insts = s.insts.map (Inst.toInvoke n) := by
  cases h : s.placed.inst? <;> simp [Slot.insts, h]

theorem Blocks.noThrow_iff (G : Blocks α) :
    G.NoThrow ↔ G.any (·.any (·.insts.any Inst.mayThrowCall)) = false := by
  simp only [List.any_eq_false, Bool.not_eq_true]
  constructor
  · intro h blk hblk s hs I hI
    obtain ⟨b, hb⟩ := List.mem_iff_getElem?.1 hblk
    obtain ⟨i, hi⟩ := List.mem_iff_getElem?.1 hs
    exact h (b, i) s (by simp [Blocks.slotAt, hb, hi]) I hI
  · intro h p s hs I hI
    obtain ⟨blk, hblk, hs⟩ := Option.bind_eq_some.1 hs
    exact h blk (List.getElem?_mem hblk) s (List.getElem?_mem hs) I hI

/-- The first round of `EscapeEnumerator`: the exit call in front of every `ret` and `resume`. -/
theorem Good.atExits (h : Good c O E G) {exit : Inst α} (hexit : Straight (exit, true)) :
    Good c O (E ++ [exit]) (G.map (List.modifyLast (Slot.atExit exit))) := by
  refine ⟨?_, fun p s hs => ?_, fun hc p s hs => ?_, h.opening,
    List.forall_mem_append.2 ⟨h.closing, by simpa using hexit⟩⟩
  · rw [Blocks.slotAt_map_modifyLast]
    split <;> simpa using h.entry
  · rw [Blocks.isLast_map_modifyLast]
    rw [Blocks.slotAt_map_modifyLast] at hs
    split at hs
    · obtain ⟨s0, hs0, rfl⟩ := Option.map_eq_some'.1 hs
      exact (h.slot p s0 hs0).atExit ‹_› exit
    · exact (h.slot p s hs).extend ‹_› _
  · rw [Blocks.slotAt_map_modifyLast] at hs
    split at hs
    · obtain ⟨s0, hs0, rfl⟩ := Option.map_eq_some'.1 hs
      intro I hI
      rcases Slot.mem_insts_atExit hI with hI | rfl
      exacts [h.noThrow hc p s0 hs0 I hI, hexit.2.2.2]
    · exact h.noThrow hc p s hs

/-- The second round of `EscapeEnumerator`: every call that may throw becomes an invoke of a new
cleanup block, whose `resume` gets the exit call. -/
theorem Good.cleanup {exit : Inst α} (h : Good c O [exit] G) :
    Good true O [exit] (G.map (·.map (Slot.toInvoke G.length)) ++
      [[⟨[], .created .landingPad⟩, ⟨[exit], .created .resume⟩]]) := by
  have hn : G.length ≠ 0 := fun hn => by simpa [List.length_eq_zero.1 hn, Blocks.slotAt] using h.entry
  have hO : ∀ p, ∀ I ∈ (if p = ((0, 0) : Pos) then O else []), Straight (I, true) := fun p => by
    split
    exacts [h.opening, by simp]
  refine ⟨?_, fun p s hs => ?_, fun _ p s hs => ?_, h.opening, h.closing⟩
  · rw [Blocks.slotAt_append_of_lt _ (by simpa using Nat.pos_of_ne_zero hn), Blocks.slotAt_map_map]
    simpa using h.entry
  · rcases Nat.lt_or_ge p.1 G.length with hp | hp
    · rw [Blocks.slotAt_append_of_lt _ (by simpa using hp), Blocks.slotAt_map_map] at hs
      rw [Blocks.isLast_append_of_lt _ (by simpa using hp), Blocks.isLast_map_map]
      obtain ⟨s0, hs0, rfl⟩ := Option.map_eq_some'.1 hs
      exact (h.slot p s0 hs0).toInvoke hn (hO p) h.closing
    · -- the cleanup block
      rw [Blocks.slotAt_append_of_le _ (by simpa using hp), Blocks.slotAt_pair] at hs
      rw [Blocks.isLast_append_of_le _ (by simpa using hp),
        if_neg fun h0 => hn (by simpa [h0] using hp)]
      rcases hs with ⟨hq, rfl⟩ | ⟨hq, rfl⟩ <;> rw [hq]
      · exact ⟨[], by simp, .inl ⟨rfl, by simp [Placed.items, BodyInst, probeOf, Inst.isExit,
          Inst.successors]⟩⟩
      · exact ⟨[], by simp, .inr ⟨by simp [Blocks.IsLast], rfl, rfl⟩⟩
  · intro I hI
    rcases Nat.lt_or_ge p.1 G.length with hp | hp
    · rw [Blocks.slotAt_append_of_lt _ (by simpa using hp), Blocks.slotAt_map_map] at hs
      obtain ⟨s0, -, rfl⟩ := Option.map_eq_some'.1 hs
      rw [Slot.insts_toInvoke] at hI
      obtain ⟨J, -, rfl⟩ := List.mem_map.1 hI
      exact Inst.mayThrowCall_toInvoke _ _
    · -- the landing pad, the exit call and the `resume`
      rw [Blocks.slotAt_append_of_le _ (by simpa using hp), Blocks.slotAt_pair] at hs
      rcases hs with ⟨-, rfl⟩ | ⟨-, rfl⟩ <;> simp only [Slot.insts, Placed.inst?, Option.toList_some,
        List.nil_append, List.singleton_append, List.mem_cons, List.not_mem_nil, or_false] at hI
      · subst hI; rfl
      · rcases hI with rfl | rfl
        exacts [(h.closing _ (List.mem_singleton_self _)).2.2.2, rfl]

/-- A run of `EscapeEnumerator` adds its exit call behind the closing calls. Calls that may throw
are left only when exceptions are not handled or the function does not throw, and the first run
that converts them is the run that adds the first closing call. -/
theorem Good.enumerateEscapes (h : Good c O E G) {hx dnt : Bool} (hc : E = [] ∨ c = (hx && !dnt))
    {exit : Inst α} (hexit : Straight (exit, true)) :
    Good (hx && !dnt) O (E ++ [exit]) (escapeEnumerator hx dnt exit G) := by
  have h1 := h.atExits hexit
  unfold EmbedSanitizer.escapeEnumerator
  dsimp only
  split
  · rename_i hany
    obtain ⟨hxd, hany⟩ := Bool.and_eq_true_iff.1 hany
    -- the closing calls are new: had an earlier run converted the calls, none would be left
    obtain rfl : E = [] := hc.resolve_right fun hc' => by
      rw [h1.noThrow (hc'.trans hxd) |> (Blocks.noThrow_iff _).1] at hany
      exact Bool.false_ne_true hany
    rw [hxd]
    simpa using h1.cleanup
  · rename_i hany
    refine ⟨h1.entry, h1.slot, fun hxd => (Blocks.noThrow_iff _).2 ?_, h1.opening, h1.closing⟩
    simpa [hxd] using hany

end Stages

/-! ### The shape the path law needs -/

/-- The instructions between the opening and the closing calls: body instructions, none of which
may throw once the calls have been converted. -/
def GoodBody (converted : Bool) (x : Inst α × Bool) : Prop :=
  BodyInst x ∧ (converted = true → x.1.mayThrowCall = false)

theorem Placed.items_of_isExit {P : Placed α} (h : P.isExit = true) :
    ∃ y, P.items = [y] ∧ y.1.isExit = true := by
  cases P with
  | kept I => exact ⟨(I, false), rfl, by simpa using h⟩
  | created I => exact ⟨(I, true), rfl, by simpa using h⟩
  | erased => cases h

/-- The instructions of a slot: the opening ones, then what remains of a block. -/
theorem SlotShape.items {c : Bool} {O E : List (Inst α)} {last : Prop} {s : Slot α}
    (h : SlotShape O E last s) (hthrow : c = true → ∀ I ∈ s.insts, I.mayThrowCall = false) :
    ∃ r, s.items = O.map (·, true) ++ r ∧ Rest (GoodBody c) (E.map (·, true)) r ∧
      (¬ last → ∀ x ∈ r, GoodBody c x) := by
  have hthrow' : ∀ x ∈ s.items, c = true → x.1.mayThrowCall = false := fun x hx hc =>
    hthrow hc _ (Slot.mem_insts_of_mem_items hx)
  obtain ⟨B, hB, ⟨hb, hp⟩ | ⟨hl, hb, hx⟩⟩ := h
  · have hr : ∀ x ∈ B.map (·, true) ++ s.placed.items, GoodBody c x := by
      intro x hx
      refine ⟨?_, hthrow' x ?_⟩
      · rcases List.mem_append.1 hx with hx | hx
        · obtain ⟨I, hI, rfl⟩ := List.mem_map.1 hx
          exact hB I hI
        · exact hp x hx
      · rw [Slot.items, hb, List.map_append, List.append_assoc]
        exact List.mem_append_right _ hx
    exact ⟨_, by simp [Slot.items, hb], ⟨_, [], by simp, hr, .inl rfl⟩, fun _ => hr⟩
  · obtain ⟨y, hy, hyx⟩ := Placed.items_of_isExit hx
    refine ⟨B.map (·, true) ++ (E.map (·, true) ++ [y]), by simp [Slot.items, hb, hy],
      ⟨_, _, rfl, fun x hx => ⟨?_, hthrow' x ?_⟩, .inr ⟨y, hyx, rfl⟩⟩, fun hl' => absurd hl hl'⟩
    · obtain ⟨I, hI, rfl⟩ := List.mem_map.1 hx
      exact hB I hI
    · simp only [Slot.items, hb, List.map_append, List.mem_append]
      exact .inl (.inl (.inr hx))

/-- A run of slots, all of body instructions but the last, which may close the function. -/
theorem rest_flatMap_items {Body : Inst α × Bool → Prop} {E : List (Inst α × Bool)} :
    ∀ l : List (Slot α), (∀ i s, l[i]? = some s →
      Rest Body E s.items ∧ (l.length ≠ i + 1 → ∀ x ∈ s.items, Body x)) →
      Rest Body E (l.flatMap Slot.items)
  | [], _ => ⟨[], [], rfl, by simp, .inl rfl⟩
  | [s], h => by simpa using (h 0 s rfl).1
  | s :: s' :: l, h => by
    rw [List.flatMap_cons]
    exact Rest.append _ _ ((h 0 s rfl).2 (by simp))
      (rest_flatMap_items (s' :: l) fun i t ht => by simpa using h (i + 1) t (by simpa using ht))

section Shaped

variable {c : Bool} {O E : List (Inst α)} {G : Blocks α}

theorem Good.slot_items (h : Good c O E G) {b : Nat} {blk : List (Slot α)} (hb : G[b]? = some blk)
    {i : Nat} {s : Slot α} (hs : blk[i]? = some s) :
    ∃ r, s.items = (if ((b, i) : Pos) = (0, 0) then O else []).map (·, true) ++ r ∧
      Rest (GoodBody c) (E.map (·, true)) r ∧ (blk.length ≠ i + 1 → ∀ x ∈ r, GoodBody c x) := by
  have hsl : G.slotAt (b, i) = some s := by simp [Blocks.slotAt, hb, hs]
  obtain ⟨r, hr, hrest, hbody⟩ := (h.slot _ s hsl).items fun hc => h.noThrow hc _ s hsl
  exact ⟨r, hr, hrest, fun hl => hbody fun hl' => hl (by simpa [Blocks.IsLast, hb] using hl')⟩

/-- The slots of a block after the first slot of the entry block. -/
theorem Good.rest_flatMap (h : Good c O E G) {b : Nat} {blk : List (Slot α)} (hb : G[b]? = some blk)
    (k : Nat) (hk : b ≠ 0 ∨ k ≠ 0) :
    Rest (GoodBody c) (E.map (·, true)) ((blk.drop k).flatMap Slot.items) := by
  refine rest_flatMap_items _ fun i s hs => ?_
  rw [List.getElem?_drop] at hs
  obtain ⟨r, hr, hrest, hbody⟩ := h.slot_items hb hs
  rw [if_neg (by simp only [Prod.mk.injEq]; omega), List.map_nil, List.nil_append] at hr
  exact ⟨hr ▸ hrest, fun hl => hr ▸ hbody (by simp at hl; omega)⟩

/-- The blocks have the shape the path law needs. -/
theorem Good.shaped (h : Good c O E G) :
    Shaped (GoodBody c) (O.map (·, true)) (E.map (·, true)) c G.code where
  entry cblk hc := by
    obtain ⟨blk, hb, rfl⟩ := Option.map_eq_some'.1 (by simpa [Blocks.code] using hc)
    have hne : (blk[0]?).isSome := by simpa [Blocks.slotAt, hb] using h.entry
    rcases blk with _ | ⟨s, l⟩
    · simp at hne
    obtain ⟨r, hr, hrest, hbody⟩ := h.slot_items hb List.getElem?_cons_zero
    refine ⟨r ++ l.flatMap Slot.items, by simp [hr], ?_⟩
    rcases l with _ | ⟨t, l⟩
    · simpa using hrest
    · exact Rest.append _ _ (hbody (by simp)) (by simpa using h.rest_flatMap hb 1 (.inr one_ne_zero))
  block b cblk hb0 hc := by
    obtain ⟨blk, hb, rfl⟩ := Option.map_eq_some'.1 (by simpa [Blocks.code] using hc)
    simpa using h.rest_flatMap hb 0 (.inl hb0)
  opening := by simpa using h.opening
  closing := by simpa using h.closing
  body_exit _ hx := hx.1.2.1
  body_entry _ hx := hx.1.2.2
  body_throw _ hx hc := hx.2 hc

end Shaped

/-! ### Every path out of the function -/

/-- The probes a path runs on entering a function: `__tsan_func_entry`, then
`__tsan_ignore_thread_begin` when the function is bracketed. -/
def openingProbes (T : AddressTests Value) (F : Function Value) : List (Call Value) :=
  funcEntryCall F :: if F.noCheckingAtRunTime && (traverse T F).hasCalls then [ignoreBeginCall] else []

/-- The probes a path runs on leaving a function: `__tsan_ignore_thread_end` when the function is
bracketed, `__tsan_func_exit`, and `__tsan_main_func_exit` in `main`. -/
def closingProbes (T : AddressTests Value) (F : Function Value) : List (Call Value) :=
  (if F.noCheckingAtRunTime && (traverse T F).hasCalls then [ignoreEndCall] else []) ++
    funcExitCall F :: if F.name = "main" then [mainFuncExitCall F] else []

section Run

variable (intptrTy : IRType)

theorem straight_createCall {c : Call α}
    (h : (declarationOf (initializeCallbacks intptrTy) c.callee).elim false (·.noUnwind) = true) :
    Straight (createCall intptrTy c, true) := by
  simp [createCall, h, Straight, Inst.fallsThrough, Inst.successors, Inst.isExit, Inst.mayThrowCall]

@[simp] theorem probeOf_createCall (c : Call α) : probeOf (createCall intptrTy c, true) = [c] := rfl

theorem flatMap_probeOf_createCall (cs : List (Call α)) :
    ((cs.map (createCall intptrTy)).map (·, true)).flatMap probeOf = cs := by
  induction cs with
  | nil => rfl
  | cons c cs ih => simp only [List.map_cons, List.flatMap_cons, probeOf_createCall, ih, List.singleton_append]

/-- The entry probe, the exit probe and, in `main`, the final probe, on blocks whose closing
calls are new or whose calls have been converted already. -/
theorem Good.entryExit {c : Bool} {O E : List (Inst Value)} {G : Blocks Value} (h : Good c O E G)
    (hx dnt : Bool) (hc : E = [] ∨ c = (hx && !dnt)) (F : Function Value) :
    Good (hx && !dnt) (createCall intptrTy (funcEntryCall F) :: O)
      (E ++ (funcExitCall F :: if F.name = "main" then [mainFuncExitCall F] else []).map
        (createCall intptrTy))
      (if F.name = "main" then
        escapeEnumerator hx dnt (createCall intptrTy (mainFuncExitCall F))
          (escapeEnumerator hx dnt (createCall intptrTy (funcExitCall F))
            (G.atEntry [createCall intptrTy (funcEntryCall F)]))
      else
        escapeEnumerator hx dnt (createCall intptrTy (funcExitCall F))
          (G.atEntry [createCall intptrTy (funcEntryCall F)])) := by
  have hentry : Straight (createCall intptrTy (funcEntryCall F), true) := straight_createCall intptrTy rfl
  have hexit : Straight (createCall intptrTy (funcExitCall F), true) := straight_createCall intptrTy rfl
  have hmain : Straight (createCall intptrTy (mainFuncExitCall F), true) :=
    straight_createCall intptrTy rfl
  have h2 := (h.atEntry (by simpa using hentry : ∀ I ∈ [_], _)).enumerateEscapes hc hexit
  split <;> rename_i hm
  · simpa [hm] using h2.enumerateEscapes (.inr rfl) hmain
  · simpa [hm] using h2

/-- Between the stages of `runOnFunction`: the blocks it returns open with the calls of the
opening probes and close every exit with those of the closing probes. -/
theorem good_runOnFunction {opts : Options} {T : AddressTests Value} {F : Function Value}
    (hF : F.WellFormed) (he : instrumentsEntryExit intptrTy opts T F = true) :
    Good (opts.handleCxxExceptions && !F.doesNotThrow) ((openingProbes T F).map (createCall intptrTy))
      ((closingProbes T F).map (createCall intptrTy)) (runOnFunction intptrTy opts T F).1 := by
  simp only [instrumentsEntryExit, Bool.and_eq_true, bne_iff_ne, ne_eq] at he
  obtain ⟨⟨hname, hres⟩, hfe⟩ := he
  have h0 := good_of_bodySlots hF (bodySlots_instrumentBody intptrTy opts T F)
  simp only [runOnFunction, hname, if_false, hres, hfe, Bool.and_self, if_true, openingProbes,
    closingProbes]
  cases hign : (F.noCheckingAtRunTime && (traverse T F).hasCalls)
  · -- no runtime ignores
    simpa using h0.entryExit intptrTy opts.handleCxxExceptions F.doesNotThrow (.inl rfl) F
  · -- `InsertRuntimeIgnores` first
    have hbegin : Straight (createCall intptrTy (ignoreBeginCall : Call Value), true) :=
      straight_createCall intptrTy rfl
    have hend : Straight (createCall intptrTy (ignoreEndCall : Call Value), true) :=
      straight_createCall intptrTy rfl
    simpa [insertRuntimeIgnores] using
      ((h0.atEntry (by simpa using hbegin : ∀ I ∈ [_], _)).enumerateEscapes (.inl rfl) hend).entryExit
        intptrTy opts.handleCxxExceptions F.doesNotThrow (.inr rfl) F

/-- On every path out of a function that gets `__tsan_func_entry`, the probes of the pass run in
order: the opening probes, then probes other than the entry and exit probes, then the closing
probes. -/
theorem lifecycle_probes_on_exit (opts : Options) (T : AddressTests Value) (F : Function Value)
    (hF : F.WellFormed) (hx : opts.handleCxxExceptions = true)
    (he : instrumentsEntryExit intptrTy opts T F = true) (t : List (Call Value))
    (ht : Leaves (runOnFunction intptrTy opts T F).1.code (!F.doesNotThrow) t) :
    ∃ mid, (∀ c ∈ mid, c.isLifecycle = false) ∧ t = openingProbes T F ++ mid ++ closingProbes T F := by
  have hG := good_runOnFunction intptrTy hF he
  rw [hx, Bool.true_and] at hG
  obtain ⟨xs, hxs, rfl⟩ := leaves_probes hG.shaped ht
  refine ⟨xs.flatMap probeOf, fun c hc => ?_,
    by rw [flatMap_probeOf_createCall, flatMap_probeOf_createCall]⟩
  obtain ⟨x, hx, hc⟩ := List.mem_flatMap.1 hc
  exact (hxs x hx).1.1 c hc

/-- In a function marked `sanitize_thread_no_checking_at_run_time` that has calls, every path out
of the function runs `__tsan_ignore_thread_begin` before, and `__tsan_ignore_thread_end` after,
every probe of the body, whether or not the pass instruments the entry and the exits: outside
the two stand only `__tsan_func_entry` in front and `__tsan_func_exit` (and, in `main`,
`__tsan_main_func_exit`) behind, when it does. -/
theorem runtimeIgnores_bracket (opts : Options) (T : AddressTests Value) (F : Function Value)
    (hF : F.WellFormed) (hx : opts.handleCxxExceptions = true)
    (hname : F.name ≠ kTsanModuleCtorName)
    (hign : (F.noCheckingAtRunTime && (traverse T F).hasCalls) = true) (t : List (Call Value))
    (ht : Leaves (runOnFunction intptrTy opts T F).1.code (!F.doesNotThrow) t) :
    ∃ mid, (∀ c ∈ mid, c.isLifecycle = false) ∧
      t = (if instrumentsEntryExit intptrTy opts T F then [funcEntryCall F] else []) ++
        ignoreBeginCall :: mid ++ ignoreEndCall ::
          if instrumentsEntryExit intptrTy opts T F then
            funcExitCall F :: if F.name = "main" then [mainFuncExitCall F] else []
          else [] := by
  -- the blocks open and close with the probes `O` and `E` around body instructions
  obtain ⟨O, E, hG, hO, hE⟩ : ∃ O E, Good (opts.handleCxxExceptions && !F.doesNotThrow)
      (O.map (createCall intptrTy)) (E.map (createCall intptrTy)) (runOnFunction intptrTy opts T F).1 ∧
      O = (if instrumentsEntryExit intptrTy opts T F then [funcEntryCall F] else []) ++
        [ignoreBeginCall] ∧
      E = ignoreEndCall :: if instrumentsEntryExit intptrTy opts T F then
        funcExitCall F :: if F.name = "main" then [mainFuncExitCall F] else [] else [] := by
    by_cases he : instrumentsEntryExit intptrTy opts T F = true
    · refine ⟨_, _, good_runOnFunction intptrTy hF he, ?_, ?_⟩ <;>
        simp [openingProbes, closingProbes, hign, he]
    · -- no entry or exit probe: the blocks of `InsertRuntimeIgnores`
      have he' : (((instrumentBody intptrTy opts T F).2 || (traverse T F).hasCalls) &&
          opts.instrumentFuncEntryExit) = false := by
        simpa [instrumentsEntryExit, hname] using he
      have hbegin : Straight (createCall intptrTy (ignoreBeginCall : Call Value), true) :=
        straight_createCall intptrTy rfl
      have hend : Straight (createCall intptrTy (ignoreEndCall : Call Value), true) :=
        straight_createCall intptrTy rfl
      have h0 := good_of_bodySlots hF (bodySlots_instrumentBody intptrTy opts T F)
      refine ⟨[ignoreBeginCall], [ignoreEndCall], ?_, by simp [he], by simp [he]⟩
      simpa [runOnFunction, hname, hign, he', insertRuntimeIgnores] using
        (h0.atEntry (by simpa using hbegin : ∀ I ∈ [_], _)).enumerateEscapes (.inl rfl) hend
  rw [hx, Bool.true_and] at hG
  obtain ⟨xs, hxs, rfl⟩ := leaves_probes hG.shaped ht
  refine ⟨xs.flatMap probeOf, fun c hc => ?_, ?_⟩
  · obtain ⟨x, hx, hc⟩ := List.mem_flatMap.1 hc
    exact (hxs x hx).1.1 c hc
  · rw [flatMap_probeOf_createCall, flatMap_probeOf_createCall, hO, hE]
    simp

end Run

/-- The one block `call g; ret` passes the IR verifier, whatever the function's name and
attributes. -/
theorem wellFormed_of_blocks_callG {F : Function Value}
    (h : F.blocks = [[.call ⟨"g", []⟩ false none, .ret]]) : F.WellFormed where
  entry := by simp [Function.instAt, h]
  exit_last b blk i I hb hi hx := by
    rcases b with _ | b <;> simp [h] at hb
    subst hb
    rcases i with _ | _ | i <;> simp at hi <;> subst hi <;> simp_all [Inst.isExit]
  entry_pred p I hI := by
    rcases p with ⟨_ | b, _ | _ | i⟩ <;> simp [Function.instAt, h] at hI <;> subst hI <;>
      simp [Inst.successors]

/-- `main`, marked `sanitize_thread_no_checking_at_run_time`, calls `g`, which may throw, and
returns. -/
def mainCallsG : Function Value :=
  ⟨"main", [[.call ⟨"g", []⟩ false none, .ret]], false, true, false⟩

theorem mainCallsG_wellFormed : mainCallsG.WellFormed := wellFormed_of_blocks_callG rfl

/-- The unwind path of `mainCallsG`: from the invoke of `g` to the cleanup block that
`EscapeEnumerator` created, and out through its `resume`. -/
theorem mainCallsG_unwind :
    Leaves (runOnFunction (.int 64) {} (passTests fun _ => false) mainCallsG).1.code
      (!mainCallsG.doesNotThrow)
      [funcEntryCall mainCallsG, ignoreBeginCall, ignoreEndCall, funcExitCall mainCallsG,
        mainFuncExitCall mainCallsG] := by
  have h0 : Reaches (runOnFunction (.int 64) {} (passTests fun _ => false) mainCallsG).1.code
    (0, 0) [] := .entry
  have hinvoke := ((h0.next rfl rfl).next rfl rfl).jump rfl (List.mem_singleton_self 1)
  exact .exit ((((hinvoke.next rfl rfl).next rfl rfl).next rfl rfl).next rfl rfl) rfl rfl

theorem lifecycle_probes_on_exit_mainCallsG :
    mainCallsG.WellFormed ∧ ({} : Options).handleCxxExceptions = true ∧
      instrumentsEntryExit (.int 64) {} (passTests fun _ => false) mainCallsG = true ∧
      Leaves (runOnFunction (.int 64) {} (passTests fun _ => false) mainCallsG).1.code
        (!mainCallsG.doesNotThrow)
        [funcEntryCall mainCallsG, ignoreBeginCall, ignoreEndCall, funcExitCall mainCallsG,
          mainFuncExitCall mainCallsG] ∧
      ∃ mid, (∀ c ∈ mid, c.isLifecycle = false) ∧
        [funcEntryCall mainCallsG, ignoreBeginCall, ignoreEndCall, funcExitCall mainCallsG,
          mainFuncExitCall mainCallsG] =
          openingProbes (passTests fun _ => false) mainCallsG ++ mid ++
            closingProbes (passTests fun _ => false) mainCallsG :=
  ⟨mainCallsG_wellFormed, rfl, by decide, mainCallsG_unwind,
    lifecycle_probes_on_exit (.int 64) {} _ mainCallsG mainCallsG_wellFormed rfl (by decide) _
      mainCallsG_unwind⟩

/-- `f`, with no attribute, calls `g`, which may throw, and returns. -/
def fCallsG : Function Value :=
  ⟨"f", [[.call ⟨"g", []⟩ false none, .ret]], false, false, false⟩

/-- With `-tsan-handle-cxx-exceptions` off, the call of `g` stays a call, and an exception out of
it leaves `fCallsG` after `__tsan_func_entry` with no `__tsan_func_exit`: the path does not end
with the closing probes. -/
theorem lifecycle_probes_without_cxx_exceptions :
    fCallsG.WellFormed ∧
      instrumentsEntryExit (.int 64) { handleCxxExceptions := false } (passTests fun _ => false)
        fCallsG = true ∧
      Leaves (runOnFunction (.int 64) { handleCxxExceptions := false } (passTests fun _ => false)
        fCallsG).1.code (!fCallsG.doesNotThrow) [funcEntryCall fCallsG] ∧
      ¬ ∃ mid, (∀ c ∈ mid, c.isLifecycle = false) ∧
        [funcEntryCall fCallsG] = openingProbes (passTests fun _ => false) fCallsG ++ mid ++
          closingProbes (passTests fun _ => false) fCallsG := by
  refine ⟨wellFormed_of_blocks_callG rfl, by decide, ?_, fun ⟨mid, _, h⟩ => ?_⟩
  · have h0 : Reaches (runOnFunction (.int 64) { handleCxxExceptions := false }
      (passTests fun _ => false) fCallsG).1.code (0, 0) [] := .entry
    exact .throw (h0.next rfl rfl) rfl rfl rfl
  · have := congrArg List.length h
    simp [openingProbes, closingProbes] at this

/-- Without entry and exit probes, the path of `mainCallsG` through the call of `g` and out of
its `ret`. -/
theorem mainCallsG_return_ignores :
    Leaves (runOnFunction (.int 64) { instrumentFuncEntryExit := false } (passTests fun _ => false)
      mainCallsG).1.code (!mainCallsG.doesNotThrow) [ignoreBeginCall, ignoreEndCall] := by
  have h0 : Reaches (runOnFunction (.int 64) { instrumentFuncEntryExit := false }
    (passTests fun _ => false) mainCallsG).1.code (0, 0) [] := .entry
  exact .exit (((h0.next rfl rfl).next rfl rfl).next rfl rfl) rfl rfl

/-- With `-tsan-instrument-func-entry-exit` off, the ignore calls alone bracket the path of
`mainCallsG` that returns. -/
theorem runtimeIgnores_bracket_mainCallsG :
    instrumentsEntryExit (.int 64) { instrumentFuncEntryExit := false } (passTests fun _ => false)
        mainCallsG = false ∧
      ∃ mid, (∀ c ∈ mid, c.isLifecycle = false) ∧
        [ignoreBeginCall, ignoreEndCall] =
          (if instrumentsEntryExit (.int 64) { instrumentFuncEntryExit := false }
              (passTests fun _ => false) mainCallsG then [funcEntryCall mainCallsG] else []) ++
            ignoreBeginCall :: mid ++ ignoreEndCall ::
              if instrumentsEntryExit (.int 64) { instrumentFuncEntryExit := false }
                  (passTests fun _ => false) mainCallsG then
                funcExitCall mainCallsG ::
                  if mainCallsG.name = "main" then [mainFuncExitCall mainCallsG] else []
              else [] :=
  ⟨by decide, runtimeIgnores_bracket (.int 64) _ _ mainCallsG mainCallsG_wellFormed rfl (by decide)
    (by decide) _ mainCallsG_return_ignores⟩

end EmbedSanitizer
