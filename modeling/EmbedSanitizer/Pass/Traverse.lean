import Mathlib.Data.List.Nodup
import EmbedSanitizer.Pass.Choose

/-!
# The traversal of `runOnFunction`

`runOnFunction` walks the instructions of each block in order. Cross-thread atomics go to
`AtomicAccesses`, plain loads and stores to `LocalLoadsAndStores`, and a call or invoke marks
the function as having calls, records a memory intrinsic, and flushes the local run through
`chooseInstructionsToInstrument`; the run is flushed again at the end of every block.

The scan inserts its print calls in front of instructions the walk has already passed, so the
walk reads the instructions of the function as given.
-/

namespace EmbedSanitizer

variable {α : Type} [DecidableEq α]

/-- The lists and flags the traversal builds. -/
structure Traversal (α : Type) where
  /-- `AllLoadsAndStores`. -/
  all : List Pos
  /-- `LocalLoadsAndStores`. -/
  locals : List (Candidate α)
  /-- `AtomicAccesses`. -/
  atomics : List Pos
  /-- `MemIntrinCalls`. -/
  memIntrinCalls : List Pos
  /-- `HasCalls`. -/
  hasCalls : Bool
  /-- The calls to `__tsan_print_variables` the scan has inserted. -/
  printCalls : List (Pos × Call α)

/-- The traversal before the first instruction. -/
def Traversal.init : Traversal α := ⟨[], [], [], [], false, []⟩

/-- `chooseInstructionsToInstrument(LocalLoadsAndStores, AllLoadsAndStores, DL)`, which leaves
`LocalLoadsAndStores` empty. -/
def Traversal.flush (T : AddressTests α) (st : Traversal α) : Traversal α :=
  let r := chooseInstructionsToInstrument T st.locals st.all st.printCalls
  { st with all := r.1, printCalls := r.2, locals := [] }

/-- The body of the inner loop of `runOnFunction`, for the instruction `I` at `p`. -/
def visitInst (T : AddressTests α) (st : Traversal α) (p : Pos) (I : Inst α) : Traversal α :=
  if I.isAtomic then { st with atomics := st.atomics ++ [p] }
  else
    match I with
    | .load a => { st with locals := st.locals ++ [⟨p, false, a⟩] }
    | .store a _ _ => { st with locals := st.locals ++ [⟨p, true, a⟩] }
    | .call _ _ _ => Traversal.flush T { st with hasCalls := true }
    | .memIntrinsic _ =>
      Traversal.flush T { st with memIntrinCalls := st.memIntrinCalls ++ [p], hasCalls := true }
    | _ => st

/-- The inner loop over the instructions of block `b`, from index `i`. -/
def visitInsts (T : AddressTests α) (b : Nat) : Nat → List (Inst α) → Traversal α → Traversal α
  | _, [], st => st
  | i, I :: is, st => visitInsts T b (i + 1) is (visitInst T st (b, i) I)

/-- The outer loop over the blocks, from block `b`; each block ends with a flush. -/
def visitBlocks (T : AddressTests α) : Nat → List (List (Inst α)) → Traversal α → Traversal α
  | _, [], st => st
  | b, blk :: blks, st => visitBlocks T (b + 1) blks ((visitInsts T b 0 blk st).flush T)

/-- The traversal of a function. -/
def traverse (T : AddressTests α) (F : Function α) : Traversal α :=
  visitBlocks T 0 F.blocks .init

/-! ### One step of the walk -/

/-- What one instruction does to the walk: a plain access joins the local run; a call or invoke
flushes it, after touching neither `All`, the run nor the print calls; anything else leaves
them alone. -/
theorem visitInst_cases (T : AddressTests α) (st : Traversal α) (p : Pos) (I : Inst α) :
    (∃ w a, I.plainAccess = some (w, a) ∧
        visitInst T st p I = { st with locals := st.locals ++ [⟨p, w, a⟩] }) ∨
    (I.isCallOrInvoke = true ∧ ∃ st' : Traversal α, visitInst T st p I = st'.flush T ∧ st'.all = st.all ∧
        st'.locals = st.locals ∧ st'.printCalls = st.printCalls) ∨
    (I.plainAccess = none ∧ I.isCallOrInvoke = false ∧ (visitInst T st p I).all = st.all ∧
        (visitInst T st p I).locals = st.locals ∧
        (visitInst T st p I).printCalls = st.printCalls) := by
  by_cases ha : I.isAtomic = true
  · -- an atomic instruction only joins `AtomicAccesses`
    have hc : I.isCallOrInvoke = false := by cases I <;> simp_all [Inst.isAtomic, Inst.isCallOrInvoke]
    have hv : visitInst T st p I = { st with atomics := st.atomics ++ [p] } := by simp [visitInst, ha]
    exact .inr (.inr ⟨by simp [Inst.plainAccess, ha], hc, by rw [hv], by rw [hv], by rw [hv]⟩)
  · cases I with
    | call c nt u =>
      exact .inr (.inl ⟨rfl, { st with hasCalls := true }, by simp [visitInst, Inst.isAtomic], rfl, rfl, rfl⟩)
    | memIntrinsic m =>
      exact .inr (.inl ⟨rfl, { st with memIntrinCalls := st.memIntrinCalls ++ [p], hasCalls := true },
        by simp [visitInst, Inst.isAtomic], rfl, rfl, rfl⟩)
    | _ => simp_all [visitInst, Inst.plainAccess, Inst.isCallOrInvoke]

theorem Traversal.flush_locals (T : AddressTests α) (st : Traversal α) :
    (st.flush T).locals = [] := rfl

/-- A plain store to `a` follows the instruction at `p` in its block, with no call or invoke
between them. -/
def Function.StoreFollows (F : Function α) (p : Pos) (a : α) : Prop :=
  ∃ blk pre J post, F.blocks[p.1]? = some blk ∧ blk.drop (p.2 + 1) = pre ++ J :: post ∧
    J.plainStoreAddr = some a ∧ ∀ K ∈ pre, K.isCallOrInvoke = false

omit [DecidableEq α] in
/-- The element at index `j` splits a list around it. -/
private theorem exists_eq_append_cons_iff {β : Type} {l post : List β} {j : Nat} {x : β} :
    (∃ pre, l = pre ++ x :: post ∧ j = pre.length) ↔ l[j]? = some x ∧ post = l.drop (j + 1) := by
  constructor
  · rintro ⟨pre, rfl, rfl⟩
    rw [List.getElem?_append_right le_rfl]
    simp [List.drop_append_eq_append_drop]
  · rintro ⟨h, rfl⟩
    obtain ⟨hj, rfl⟩ := List.getElem?_eq_some_iff.1 h
    exact ⟨l.take j, by simp, by simp; omega⟩

/-! ### Atomics and memory intrinsics -/

/-- Whether an instruction is a memory intrinsic. -/
def Inst.isMemIntrinsic : Inst α → Bool
  | .memIntrinsic _ => true
  | _ => false

omit [DecidableEq α] in
/-- The positions of the instructions of block `b`, from index `i`, that satisfy `P`. -/
def positionsIn (P : Inst α → Bool) (b : Nat) : Nat → List (Inst α) → List Pos
  | _, [] => []
  | i, I :: is => (if P I then [(b, i)] else []) ++ positionsIn P b (i + 1) is

omit [DecidableEq α] in
/-- The positions of the instructions of the blocks from `b` on that satisfy `P`. -/
def positionsFrom (P : Inst α → Bool) : Nat → List (List (Inst α)) → List Pos
  | _, [] => []
  | b, blk :: blks => positionsIn P b 0 blk ++ positionsFrom P (b + 1) blks

theorem visitInsts_atomics (T : AddressTests α) (b : Nat) : ∀ (i : Nat) (is : List (Inst α))
    (st : Traversal α), (visitInsts T b i is st).atomics =
      st.atomics ++ positionsIn Inst.isAtomic b i is ∧
    (visitInsts T b i is st).memIntrinCalls =
      st.memIntrinCalls ++ positionsIn Inst.isMemIntrinsic b i is
  | _, [], st => by simp [visitInsts, positionsIn]
  | i, I :: is, st => by
    rw [visitInsts, (visitInsts_atomics T b (i + 1) is _).1, (visitInsts_atomics T b (i + 1) is _).2]
    unfold visitInst
    by_cases ha : I.isAtomic = true
    · have : I.isMemIntrinsic = false := by cases I <;> simp_all [Inst.isAtomic, Inst.isMemIntrinsic]
      simp [ha, this, positionsIn]
    · cases I <;> simp_all [positionsIn, Traversal.flush, Inst.isMemIntrinsic]

/-- `AtomicAccesses` and `MemIntrinCalls` list, in program order, the positions of the atomic
instructions and of the memory intrinsics of the function. -/
theorem traverse_atomics (T : AddressTests α) (F : Function α) :
    (traverse T F).atomics = positionsFrom Inst.isAtomic 0 F.blocks ∧
      (traverse T F).memIntrinCalls = positionsFrom Inst.isMemIntrinsic 0 F.blocks := by
  suffices ∀ b blks (st : Traversal α), (visitBlocks T b blks st).atomics =
      st.atomics ++ positionsFrom Inst.isAtomic b blks ∧ (visitBlocks T b blks st).memIntrinCalls =
      st.memIntrinCalls ++ positionsFrom Inst.isMemIntrinsic b blks from this 0 F.blocks .init
  intro b blks
  induction blks generalizing b with
  | nil => simp [visitBlocks, positionsFrom]
  | cons blk blks ih =>
    intro st
    simp [visitBlocks, positionsFrom, ih, Traversal.flush, (visitInsts_atomics T b 0 blk st).1,
      (visitInsts_atomics T b 0 blk st).2]

section Positions

omit [DecidableEq α]

variable (P : Inst α → Bool)

theorem mem_positionsIn {b : Nat} {p : Pos} : ∀ {i : Nat} {is : List (Inst α)},
    p ∈ positionsIn P b i is ↔ p.1 = b ∧ i ≤ p.2 ∧ ∃ I, is[p.2 - i]? = some I ∧ P I = true
  | i, [] => by simp [positionsIn]
  | i, I :: is => by
    obtain ⟨b', j⟩ := p
    simp only [positionsIn, List.mem_append, mem_positionsIn]
    constructor
    · rintro (h | ⟨rfl, hj, J, hJ, hP⟩)
      · split at h
        · simp only [List.mem_singleton, Prod.mk.injEq] at h
          obtain ⟨rfl, rfl⟩ := h
          simp_all
        · simp at h
      · refine ⟨rfl, by omega, J, ?_, hP⟩
        rw [show j - i = j - (i + 1) + 1 by omega]
        simpa using hJ
    · rintro ⟨rfl, hj, J, hJ, hP⟩
      rcases Nat.eq_or_lt_of_le hj with rfl | hj
      · simp_all
      · refine .inr ⟨rfl, hj, J, ?_, hP⟩
        rw [show j - i = j - (i + 1) + 1 by omega] at hJ
        simpa using hJ

theorem nodup_positionsIn (b : Nat) : ∀ (i : Nat) (is : List (Inst α)), (positionsIn P b i is).Nodup
  | _, [] => List.nodup_nil
  | i, I :: is => by
    refine List.nodup_append.2 ⟨by split <;> simp, nodup_positionsIn b (i + 1) is, ?_⟩
    intro p hp hp'
    have := ((mem_positionsIn P).1 hp').2.1
    split at hp <;> simp_all

theorem mem_positionsFrom : ∀ {b : Nat} {blks : List (List (Inst α))} {p : Pos},
    p ∈ positionsFrom P b blks ↔ b ≤ p.1 ∧ ∃ I, (blks[p.1 - b]? >>= (·[p.2]?)) = some I ∧ P I = true
  | _, [], _ => by simp [positionsFrom]
  | b, blk :: blks, p => by
    rw [positionsFrom, List.mem_append, mem_positionsIn, mem_positionsFrom]
    constructor
    · rintro (⟨rfl, -, I, hI, hP⟩ | ⟨hb, I, hI, hP⟩)
      · exact ⟨le_rfl, I, by simpa using hI, hP⟩
      · refine ⟨by omega, I, ?_, hP⟩
        rw [show p.1 - b = p.1 - (b + 1) + 1 by omega]
        simpa using hI
    · rintro ⟨hb, I, hI, hP⟩
      rcases Nat.eq_or_lt_of_le hb with hb | hb
      · exact .inl ⟨hb.symm, Nat.zero_le _, I, by simpa [← hb] using hI, hP⟩
      · refine .inr ⟨hb, I, ?_, hP⟩
        rw [show p.1 - b = p.1 - (b + 1) + 1 by omega] at hI
        simpa using hI

theorem nodup_positionsFrom : ∀ (b : Nat) (blks : List (List (Inst α))),
    (positionsFrom P b blks).Nodup
  | _, [] => List.nodup_nil
  | b, blk :: blks => by
    refine List.nodup_append.2 ⟨nodup_positionsIn P b 0 blk, nodup_positionsFrom (b + 1) blks, ?_⟩
    intro p hp hp'
    have h1 := ((mem_positionsIn P).1 hp).1
    have h2 := ((mem_positionsFrom P).1 hp').1
    omega

/-- The positions of a function whose instruction satisfies `P`. -/
theorem mem_positionsFrom_blocks {F : Function α} {p : Pos} :
    p ∈ positionsFrom P 0 F.blocks ↔ ∃ I, F.instAt p = some I ∧ P I = true := by
  simp [mem_positionsFrom, Function.instAt]

theorem not_mem_positionsFrom_blocks {F : Function α} {p : Pos} {I : Inst α}
    (hI : F.instAt p = some I) (hP : P I = false) : p ∉ positionsFrom P 0 F.blocks := fun hp => by
  obtain ⟨J, hJ, hPJ⟩ := (mem_positionsFrom_blocks P).1 hp
  rw [hI, Option.some.injEq] at hJ
  rw [← hJ, hP] at hPJ
  cases hPJ

end Positions

/-! ### The print calls -/

section Candidates

omit [DecidableEq α]

/-- The plain loads and stores of block `b` from index `i`, as the candidates the walk hands to
the scan. -/
def candidatesIn (b : Nat) : Nat → List (Inst α) → List (Candidate α)
  | _, [] => []
  | i, I :: is =>
    (I.plainAccess.map fun x => (⟨(b, i), x.1, x.2⟩ : Candidate α)).toList ++ candidatesIn b (i + 1) is

/-- The plain loads and stores of the blocks from `b` on, as candidates of the scan. -/
def candidatesFrom : Nat → List (List (Inst α)) → List (Candidate α)
  | _, [] => []
  | b, blk :: blks => candidatesIn b 0 blk ++ candidatesFrom (b + 1) blks

theorem map_pos_candidatesIn (b : Nat) : ∀ (i : Nat) (is : List (Inst α)),
    (candidatesIn b i is).map Candidate.pos = positionsIn (·.plainAccess.isSome) b i is
  | _, [] => rfl
  | i, I :: is => by
    rw [candidatesIn, positionsIn, List.map_append, map_pos_candidatesIn b (i + 1) is]
    cases I.plainAccess <;> rfl

theorem map_pos_candidatesFrom : ∀ (b : Nat) (blks : List (List (Inst α))),
    (candidatesFrom b blks).map Candidate.pos = positionsFrom (·.plainAccess.isSome) b blks
  | _, [] => rfl
  | b, blk :: blks => by
    rw [candidatesFrom, positionsFrom, List.map_append, map_pos_candidatesIn,
      map_pos_candidatesFrom (b + 1) blks]

theorem plainAccess_of_mem_candidatesIn {b : Nat} {c : Candidate α} : ∀ {i : Nat}
    {is : List (Inst α)}, c ∈ candidatesIn b i is →
      c.pos.1 = b ∧ i ≤ c.pos.2 ∧ is[c.pos.2 - i]?.bind Inst.plainAccess = some (c.isWrite, c.access)
  | i, I :: is, h => by
    rcases List.mem_append.1 h with h | h
    · obtain ⟨x, hx, rfl⟩ := Option.mem_map.1 (Option.mem_toList.1 h)
      simpa using hx
    · obtain ⟨hb, hi, hc⟩ := plainAccess_of_mem_candidatesIn h
      refine ⟨hb, by omega, ?_⟩
      rwa [show c.pos.2 - i = c.pos.2 - (i + 1) + 1 by omega, List.getElem?_cons_succ]

theorem plainAccess_of_mem_candidatesFrom {c : Candidate α} : ∀ {b : Nat}
    {blks : List (List (Inst α))}, c ∈ candidatesFrom b blks →
      b ≤ c.pos.1 ∧ (blks[c.pos.1 - b]? >>= (·[c.pos.2]?)).bind Inst.plainAccess =
        some (c.isWrite, c.access)
  | b, blk :: blks, h => by
    rcases List.mem_append.1 h with h | h
    · obtain ⟨hb, -, hc⟩ := plainAccess_of_mem_candidatesIn h
      exact ⟨hb.ge, by simpa [hb] using hc⟩
    · obtain ⟨hb, hc⟩ := plainAccess_of_mem_candidatesFrom h
      refine ⟨by omega, ?_⟩
      rwa [show c.pos.1 - b = c.pos.1 - (b + 1) + 1 by omega, List.getElem?_cons_succ]

/-- The candidates of a function are its plain loads and stores, each once. -/
theorem candidatesFrom_spec (F : Function α) :
    ((candidatesFrom 0 F.blocks).map Candidate.pos).Nodup ∧
      ∀ p w a, (⟨p, w, a⟩ : Candidate α) ∈ candidatesFrom 0 F.blocks ↔
        (F.instAt p).bind Inst.plainAccess = some (w, a) := by
  refine ⟨map_pos_candidatesFrom 0 F.blocks ▸ nodup_positionsFrom _ 0 F.blocks, fun p w a => ⟨
    fun h => by simpa [Function.instAt] using (plainAccess_of_mem_candidatesFrom h).2, fun h => ?_⟩⟩
  obtain ⟨I, hI, ha⟩ := Option.bind_eq_some.1 h
  obtain ⟨c, hc, rfl⟩ : ∃ c ∈ candidatesFrom 0 F.blocks, c.pos = p := by
    rw [← List.mem_map, map_pos_candidatesFrom, mem_positionsFrom_blocks]
    exact ⟨I, hI, by simp [ha]⟩
  have : (F.instAt c.pos).bind Inst.plainAccess = some (c.isWrite, c.access) := by
    simpa [Function.instAt] using (plainAccess_of_mem_candidatesFrom hc).2
  rw [hI, Option.some_bind, ha, Option.some.injEq, Prod.mk.injEq] at this
  obtain ⟨rfl, rfl⟩ := this
  exact hc

end Candidates

theorem Traversal.flush_printCalls (T : AddressTests α) (st : Traversal α) :
    (st.flush T).printCalls = st.printCalls ++ st.locals.reverse.map Candidate.printCall :=
  chooseInstructionsToInstrument_printCalls T _ _ _

/-- The walk over the rest `is` of a block, from a local run: the print calls after the flush at
the end of the block. -/
theorem visitInsts_flush_printCalls_perm (T : AddressTests α) (b : Nat) :
    ∀ (i : Nat) (is : List (Inst α)) (st : Traversal α),
      (((visitInsts T b i is st).flush T).printCalls).Perm
        (st.printCalls ++ (st.locals ++ candidatesIn b i is).map Candidate.printCall)
  | i, [], st => by
    simpa [visitInsts, candidatesIn, Traversal.flush_printCalls] using
      ((List.reverse_perm st.locals).map Candidate.printCall).append_left st.printCalls
  | i, I :: is, st => by
    rw [visitInsts]
    refine (visitInsts_flush_printCalls_perm T b (i + 1) is _).trans ?_
    rcases visitInst_cases T st (b, i) I with ⟨w, a, hI, hv⟩ | ⟨hc, st', hv, -, hloc, hp⟩ |
      ⟨hI, -, -, hloc, hp⟩
    · -- a plain access joins the run
      simp [hv, candidatesIn, hI]
    · -- a call or invoke flushes the run
      rw [hv, Traversal.flush_locals, Traversal.flush_printCalls, hp, hloc, candidatesIn,
        Inst.plainAccess_eq_none_of_isCallOrInvoke hc]
      simpa using ((List.reverse_perm st.locals).map Candidate.printCall).append_right _
        |>.append_left st.printCalls
    · -- anything else
      simp [hp, hloc, candidatesIn, hI]

theorem visitBlocks_printCalls_perm (T : AddressTests α) : ∀ (b : Nat)
    (blks : List (List (Inst α))) (st : Traversal α), st.locals = [] →
      ((visitBlocks T b blks st).printCalls).Perm
        (st.printCalls ++ (candidatesFrom b blks).map Candidate.printCall)
  | b, [], st, _ => by simp [visitBlocks, candidatesFrom]
  | b, blk :: blks, st, h => by
    rw [visitBlocks, candidatesFrom, List.map_append, ← List.append_assoc]
    refine (visitBlocks_printCalls_perm T (b + 1) blks _ (Traversal.flush_locals _ _)).trans ?_
    exact List.Perm.append_right _ (by simpa [h] using visitInsts_flush_printCalls_perm T b 0 blk st)

/-- The walk inserts one print call per plain load and store of the function, in front of it:
`__tsan_print_variables` with `391` for a store and `403` for a load. -/
theorem traverse_printCalls_perm (T : AddressTests α) (F : Function α) :
    ((traverse T F).printCalls).Perm ((candidatesFrom 0 F.blocks).map Candidate.printCall) := by
  simpa [Traversal.init] using visitBlocks_printCalls_perm T 0 F.blocks .init rfl

omit [DecidableEq α] in
/-- In a list of candidates at distinct positions, the one at the position of `c` is `c`. -/
theorem filter_pos_eq_singleton {l : List (Candidate α)} (hnd : (l.map Candidate.pos).Nodup)
    {c : Candidate α} (hc : c ∈ l) : l.filter (·.pos = c.pos) = [c] := by
  induction l with
  | nil => cases hc
  | cons d l ih =>
    obtain ⟨hd, hnd⟩ := List.nodup_cons.1 hnd
    rcases List.mem_cons.1 hc with rfl | hc
    · rw [List.filter_cons_of_pos (by simp), List.filter_eq_nil_iff.2 fun e he hpe =>
        hd (List.mem_map.2 ⟨e, he, by simpa using hpe⟩)]
    · rw [List.filter_cons_of_neg fun h => hd (List.mem_map.2 ⟨c, hc, (of_decide_eq_true h).symm⟩),
        ih hnd hc]

/-- In front of the instruction at `p` the walk inserts one print call if it is a plain load or
store, and none otherwise. -/
theorem filter_printCalls_traverse (T : AddressTests α) (F : Function α) (p : Pos) :
    (traverse T F).printCalls.filter (·.1 = p) =
      (((F.instAt p).bind Inst.plainAccess).map fun x =>
        (⟨p, x.1, x.2⟩ : Candidate α).printCall).toList := by
  obtain ⟨hnd, hmem⟩ := candidatesFrom_spec F
  have hcand : (candidatesFrom 0 F.blocks).filter (·.pos = p) =
      (((F.instAt p).bind Inst.plainAccess).map fun x => (⟨p, x.1, x.2⟩ : Candidate α)).toList := by
    cases h : (F.instAt p).bind Inst.plainAccess with
    | none =>
      refine List.filter_eq_nil_iff.2 fun c hc hcp => ?_
      obtain rfl : c.pos = p := by simpa using hcp
      rw [(hmem c.pos c.isWrite c.access).1 hc] at h
      cases h
    | some x => exact filter_pos_eq_singleton hnd ((hmem p x.1 x.2).2 h)
  have hperm := (traverse_printCalls_perm T F).filter (·.1 = p)
  rw [List.filter_map, show ((fun pc : Pos × Call α => decide (pc.1 = p)) ∘ Candidate.printCall) =
    (fun c => decide (c.pos = p)) from rfl, hcand] at hperm
  cases h : (F.instAt p).bind Inst.plainAccess <;> rw [h] at hperm
  · exact List.perm_nil.1 hperm
  · exact List.perm_singleton.1 hperm

/-- The calls the walk inserts are calls to `__tsan_print_variables`. -/
theorem traverse_printCalls (T : AddressTests α) (F : Function α) :
    ∀ pc ∈ (traverse T F).printCalls, ∃ tag a, pc.2 = printVariables tag a := by
  intro pc hpc
  obtain ⟨c, -, rfl⟩ := List.mem_map.1 ((traverse_printCalls_perm T F).subset hpc)
  exact ⟨_, c.access, rfl⟩

/-! ### The selection, for fixed address tests -/

section Fixed

variable (excluded constant uncapturedStack : α → Bool)

/-- The address a plain store adds to `WriteTargets`. -/
def storeTarget (I : Inst α) : List α :=
  match I.plainStoreAddr with
  | some a => if excluded a then [] else [a]
  | none => []

/-- The addresses of the plain stores of `is` before its first call or invoke, as the scan adds
them to `WriteTargets`. -/
def storesAhead : List (Inst α) → List α
  | [] => []
  | I :: is => if I.isCallOrInvoke then [] else storeTarget excluded I ++ storesAhead is

/-- The positions of block `b`, from index `i` on, the traversal adds to `AllLoadsAndStores`. -/
def selectedIn (b : Nat) : Nat → List (Inst α) → List Pos
  | _, [] => []
  | i, I :: is =>
    (match I.plainAccess with
      | some (w, a) =>
        if keeps excluded constant uncapturedStack ⟨(b, i), w, a⟩ (storesAhead excluded is)
        then [(b, i)] else []
      | none => []) ++ selectedIn b (i + 1) is

/-- The positions of the blocks from `b` on the traversal adds to `AllLoadsAndStores`. -/
def selectedFrom : Nat → List (List (Inst α)) → List Pos
  | _, [] => []
  | b, blk :: blks => selectedIn excluded constant uncapturedStack b 0 blk ++ selectedFrom (b + 1) blks

theorem Traversal.flush_ofFixed_all (st : Traversal α) :
    (st.flush (.ofFixed excluded constant uncapturedStack)).all =
      st.all ++ chosenWith excluded constant uncapturedStack st.locals [] :=
  chooseInstructionsToInstrument_ofFixed excluded constant uncapturedStack _ _ _

/-- The walk over the rest `is` of a block, from a local run: what is in `All` after the flush
at the end of the block. -/
theorem visitInsts_flush_all_perm (b : Nat) : ∀ (i : Nat) (is : List (Inst α)) (st : Traversal α),
    (((visitInsts (.ofFixed excluded constant uncapturedStack) b i is st).flush
      (.ofFixed excluded constant uncapturedStack)).all).Perm
      (st.all ++ chosenWith excluded constant uncapturedStack st.locals (storesAhead excluded is) ++
        selectedIn excluded constant uncapturedStack b i is)
  | i, [], st => by simp [visitInsts, Traversal.flush_ofFixed_all, storesAhead, selectedIn]
  | i, I :: is, st => by
    rw [visitInsts]
    rcases visitInst_cases (.ofFixed excluded constant uncapturedStack) st (b, i) I with
      ⟨w, a, hI, hv⟩ | ⟨hc, st', hv, hall, hloc, -⟩ | ⟨hI, hc, hall, hloc, -⟩
    · -- a plain access joins the run
      have hc := Inst.isCallOrInvoke_eq_false_of_plainAccess hI
      refine (visitInsts_flush_all_perm b (i + 1) is _).trans ?_
      rw [hv]
      simp only [chosenWith_append, storesAhead, selectedIn, hc, hI, Bool.false_eq_true, ite_false]
      refine List.perm_iff_count.2 fun x => ?_
      cases w <;> cases he : excluded a.addr <;>
        simp [chosenWith, storeTargets, storeTarget, Inst.plainStoreAddr, List.count_append, he,
          hI] <;> omega
    · -- a call or invoke flushes the run
      refine (visitInsts_flush_all_perm b (i + 1) is _).trans ?_
      rw [hv, Traversal.flush_locals, Traversal.flush_ofFixed_all, hall, hloc]
      simp [chosenWith, storesAhead, selectedIn, hc, Inst.plainAccess_eq_none_of_isCallOrInvoke hc]
    · -- anything else
      refine (visitInsts_flush_all_perm b (i + 1) is _).trans ?_
      rw [hall, hloc]
      simp [storesAhead, storeTarget, Inst.plainStoreAddr, selectedIn, hc, hI]

theorem visitBlocks_all_perm : ∀ (b : Nat) (blks : List (List (Inst α))) (st : Traversal α),
    st.locals = [] →
    ((visitBlocks (.ofFixed excluded constant uncapturedStack) b blks st).all).Perm
      (st.all ++ selectedFrom excluded constant uncapturedStack b blks)
  | b, [], st, _ => by simp [visitBlocks, selectedFrom]
  | b, blk :: blks, st, h => by
    rw [visitBlocks, selectedFrom, ← List.append_assoc]
    refine (visitBlocks_all_perm (b + 1) blks _ (Traversal.flush_locals _ _)).trans ?_
    refine List.Perm.append_right _ ?_
    simpa [h, chosenWith] using visitInsts_flush_all_perm excluded constant uncapturedStack b 0 blk st

/-- `AllLoadsAndStores` is, up to order, the list of positions `selectedFrom` names. -/
theorem traverse_all_perm (F : Function α) :
    ((traverse (.ofFixed excluded constant uncapturedStack) F).all).Perm
      (selectedFrom excluded constant uncapturedStack 0 F.blocks) := by
  simpa [Traversal.init] using visitBlocks_all_perm excluded constant uncapturedStack 0 F.blocks
    .init rfl

/-! ### Membership -/

omit [DecidableEq α] in
theorem mem_storeTarget {a : α} {I : Inst α} :
    a ∈ storeTarget excluded I ↔ I.plainStoreAddr = some a ∧ excluded a = false := by
  unfold storeTarget
  cases I.plainStoreAddr with
  | none => simp
  | some b =>
    simp only [Option.some.injEq]
    constructor
    · intro h
      split at h <;> simp_all
    · rintro ⟨rfl, he⟩
      simp [he]

omit [DecidableEq α] in
/-- An address is among the stores ahead exactly when a plain store to it comes before the next
call or invoke. -/
theorem mem_storesAhead {a : α} : ∀ {is : List (Inst α)}, a ∈ storesAhead excluded is ↔
    excluded a = false ∧ ∃ pre J post, is = pre ++ J :: post ∧ J.plainStoreAddr = some a ∧
      ∀ K ∈ pre, K.isCallOrInvoke = false
  | [] => by simp [storesAhead]
  | I :: is => by
    have hcall : I.isCallOrInvoke = true → I.plainStoreAddr = none := fun hc => by
      simp [Inst.plainStoreAddr, Inst.plainAccess_eq_none_of_isCallOrInvoke hc]
    simp only [storesAhead, List.cons_eq_append_iff]
    split <;> rename_i hc
    · simp only [List.not_mem_nil, false_iff, not_and, not_exists]
      rintro - pre J post (⟨rfl, h⟩ | ⟨pre', rfl, -⟩) hJ hpre
      · cases h; simp [hcall hc] at hJ
      · simp [hc] at hpre
    · rw [List.mem_append, mem_storeTarget, mem_storesAhead]
      constructor
      · rintro (⟨hJ, he⟩ | ⟨he, pre, J, post, rfl, hJ, hpre⟩)
        · exact ⟨he, [], I, is, .inl ⟨rfl, rfl⟩, hJ, by simp⟩
        · exact ⟨he, I :: pre, J, post, .inr ⟨pre, rfl, rfl⟩, hJ, by simp_all⟩
      · rintro ⟨he, pre, J, post, ⟨rfl, h⟩ | ⟨pre', rfl, rfl⟩, hJ, hpre⟩
        · cases h; exact .inl ⟨hJ, he⟩
        · exact .inr ⟨he, pre', J, post, rfl, hJ, fun K hK => hpre K (by simp [hK])⟩

omit [DecidableEq α] in
/-- Past an instruction of block `blk`, a store follows it exactly when its address is among the
stores ahead of it. -/
theorem storeFollows_iff_mem_storesAhead {F : Function α} {p : Pos} {blk : List (Inst α)} {a : α}
    (hblk : F.blocks[p.1]? = some blk) (he : excluded a = false) :
    F.StoreFollows p a ↔ a ∈ storesAhead excluded (blk.drop (p.2 + 1)) := by
  simp [Function.StoreFollows, mem_storesAhead, hblk, he]

/-- The positions `selectedIn` names: the plain accesses of the block the scan keeps, given the
stores after them. -/
theorem mem_selectedIn {b : Nat} {p : Pos} : ∀ {i : Nat} {is : List (Inst α)},
    p ∈ selectedIn excluded constant uncapturedStack b i is ↔
      p.1 = b ∧ ∃ pre I post, is = pre ++ I :: post ∧ p.2 = i + pre.length ∧
        ∃ w a, I.plainAccess = some (w, a) ∧
          keeps excluded constant uncapturedStack ⟨p, w, a⟩ (storesAhead excluded post) = true
  | i, [] => by simp [selectedIn]
  | i, I :: is => by
    simp only [selectedIn, List.mem_append, mem_selectedIn, List.cons_eq_append_iff]
    constructor
    · rintro (h | ⟨hb, pre, J, post, rfl, hj, hJ⟩)
      · -- the head, at index `i`
        split at h
        · rename_i w a hI
          split at h
          · rename_i hk
            obtain rfl := List.mem_singleton.1 h
            exact ⟨rfl, [], I, is, .inl ⟨rfl, rfl⟩, rfl, w, a, hI, hk⟩
          · simp at h
        · simp at h
      · exact ⟨hb, I :: pre, J, post, .inr ⟨pre, rfl, rfl⟩, by simp [hj]; omega, hJ⟩
    · rintro ⟨hb, pre, J, post, ⟨rfl, h⟩ | ⟨pre', rfl, rfl⟩, hj, w, a, hJ, hk⟩
      · obtain ⟨rfl, rfl⟩ := List.cons.inj h
        obtain ⟨b', j⟩ := p
        simp only at hb hj
        subst hb hj
        left
        simp [hJ, hk]
      · exact .inr ⟨hb, pre', J, post, rfl, by simp at hj; omega, w, a, hJ, hk⟩

theorem le_of_mem_selectedIn {b i : Nat} {is : List (Inst α)} {p : Pos}
    (h : p ∈ selectedIn excluded constant uncapturedStack b i is) : p.1 = b ∧ i ≤ p.2 := by
  obtain ⟨hb, pre, -, -, -, hj, -⟩ := (mem_selectedIn excluded constant uncapturedStack).1 h
  exact ⟨hb, by omega⟩

theorem nodup_selectedIn (b : Nat) : ∀ (i : Nat) (is : List (Inst α)),
    (selectedIn excluded constant uncapturedStack b i is).Nodup
  | _, [] => List.nodup_nil
  | i, I :: is => by
    refine List.nodup_append.2 ⟨?_, nodup_selectedIn b (i + 1) is, ?_⟩
    · split
      · split <;> simp
      · simp
    · intro p hp hp'
      have := (le_of_mem_selectedIn excluded constant uncapturedStack hp').2
      split at hp
      · split at hp
        · simp at hp; subst hp; simp at this
        · simp at hp
      · simp at hp

theorem le_of_mem_selectedFrom : ∀ {b : Nat} {blks : List (List (Inst α))} {p : Pos},
    p ∈ selectedFrom excluded constant uncapturedStack b blks → b ≤ p.1
  | _, [], _, h => by simp [selectedFrom] at h
  | b, blk :: blks, p, h => by
    rcases List.mem_append.1 h with h | h
    · exact (le_of_mem_selectedIn excluded constant uncapturedStack h).1.ge
    · have := le_of_mem_selectedFrom h; omega

theorem nodup_selectedFrom : ∀ (b : Nat) (blks : List (List (Inst α))),
    (selectedFrom excluded constant uncapturedStack b blks).Nodup
  | _, [] => List.nodup_nil
  | b, blk :: blks => by
    refine List.nodup_append.2 ⟨nodup_selectedIn excluded constant uncapturedStack b 0 blk,
      nodup_selectedFrom (b + 1) blks, fun p hp hp' => ?_⟩
    have h1 := (le_of_mem_selectedIn excluded constant uncapturedStack hp).1
    have h2 := le_of_mem_selectedFrom excluded constant uncapturedStack hp'
    omega

theorem mem_selectedFrom : ∀ {b : Nat} {blks : List (List (Inst α))} {p : Pos},
    p ∈ selectedFrom excluded constant uncapturedStack b blks ↔
      b ≤ p.1 ∧ ∃ blk, blks[p.1 - b]? = some blk ∧
        p ∈ selectedIn excluded constant uncapturedStack p.1 0 blk
  | _, [], _ => by simp [selectedFrom]
  | b, blk :: blks, p => by
    rw [selectedFrom, List.mem_append, mem_selectedFrom]
    constructor
    · rintro (h | ⟨hb, blk', hblk, h⟩)
      · have := (le_of_mem_selectedIn excluded constant uncapturedStack h).1
        subst this
        exact ⟨le_rfl, blk, by simp, h⟩
      · refine ⟨by omega, blk', ?_, h⟩
        rw [show p.1 - b = p.1 - (b + 1) + 1 by omega]
        simpa using hblk
    · rintro ⟨hb, blk', hblk, h⟩
      rcases Nat.eq_or_lt_of_le hb with hb | hb
      · subst hb
        simp at hblk
        subst hblk
        exact .inl h
      · refine .inr ⟨hb, blk', ?_, h⟩
        rw [show p.1 - b = p.1 - (b + 1) + 1 by omega] at hblk
        simpa using hblk

/-- `AllLoadsAndStores` holds each instruction at most once, and exactly the plain loads and
stores whose address is neither excluded nor an uncaptured stack slot, and that write, or read
data that is not constant and that no plain store overwrites before the next call or invoke of
their block. -/
theorem allLoadsAndStores_spec (F : Function α) :
    (traverse (.ofFixed excluded constant uncapturedStack) F).all.Nodup ∧
      ∀ p, p ∈ (traverse (.ofFixed excluded constant uncapturedStack) F).all ↔
        ∃ I w acc, F.instAt p = some I ∧ I.plainAccess = some (w, acc) ∧
          excluded acc.addr = false ∧ uncapturedStack acc.addr = false ∧
          (w = true ∨ (constant acc.addr = false ∧ ¬ F.StoreFollows p acc.addr)) := by
  have hperm := traverse_all_perm excluded constant uncapturedStack F
  refine ⟨hperm.nodup_iff.2 (nodup_selectedFrom excluded constant uncapturedStack 0 F.blocks),
    fun p => ?_⟩
  rw [hperm.mem_iff, mem_selectedFrom]
  simp only [zero_le, Nat.sub_zero, true_and, mem_selectedIn, zero_add]
  constructor
  · rintro ⟨blk, hblk, pre, I, post, hsplit, hj, w, acc, hI, hk⟩
    obtain ⟨hI', rfl⟩ := exists_eq_append_cons_iff.1 ⟨pre, hsplit, hj⟩
    refine ⟨I, w, acc, by simp [Function.instAt, hblk, hI'], hI, ?_⟩
    obtain ⟨he, hu, hw⟩ := (keeps_eq_true excluded constant uncapturedStack).1 hk
    exact ⟨he, hu, hw.imp id fun ⟨hs, hc⟩ =>
      ⟨hc, mt (storeFollows_iff_mem_storesAhead excluded hblk he).1 hs⟩⟩
  · rintro ⟨I, w, acc, hp, hI, he, hu, hw⟩
    obtain ⟨blk, hblk, hI'⟩ : ∃ blk, F.blocks[p.1]? = some blk ∧ blk[p.2]? = some I := by
      simpa [Function.instAt, Option.bind_eq_some] using hp
    obtain ⟨pre, hsplit, hj⟩ := exists_eq_append_cons_iff.2 ⟨hI', rfl⟩
    exact ⟨blk, hblk, pre, I, _, hsplit, hj, w, acc, hI,
      (keeps_eq_true excluded constant uncapturedStack).2 ⟨he, hu, hw.imp id fun ⟨hc, hs⟩ =>
        ⟨mt (storeFollows_iff_mem_storesAhead excluded hblk he).2 hs, hc⟩⟩⟩

end Fixed

end EmbedSanitizer
