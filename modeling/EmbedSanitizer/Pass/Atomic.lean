import EmbedSanitizer.Pass.Lowering
import Mathlib.Logic.Function.Basic
import Mathlib.Tactic.IntervalCases

/-!
# Lowering atomic instructions

`instrumentAtomic` turns a cross-thread atomic load or store, an `atomicrmw` whose operation
has a callback, a `cmpxchg` or a `fence` into a call to the run-time's `__tsan_atomicN_*`
entry point of the access width `N`.

The meaning of the run-time's entry points is the one its interface documents: `atomicN_load`
returns the `N`-bit contents, `atomicN_store` writes its value, `atomicN_fetch_op` writes
`op(old, v)` and returns `old`, `atomicN_compare_exchange_val` writes the new value iff the old
one equals the expected one and returns the old one. `atomicRuntime` states it per symbol name,
apart from `initializeCallbacks`, so that a lowering that calls the wrong entry point, or
passes its arguments in the wrong order, runs to another result.

Running the lowered code against it gives the original instruction's result and memory, for
every memory and every operand value (`instrumentAtomic_exec`).
-/

namespace EmbedSanitizer

variable {α : Type}

/-! ### The lowering -/

/-- What `instrumentAtomic` makes of an atomic instruction. -/
inductive AtomicLowering (α : Type) where
  /-- The instruction stays as it is. -/
  | keep
  /-- An atomic load: the call goes in front of the load, `CreateBitOrPointerCast(C, OrigTy)`
  takes its uses, and the load stays. -/
  | replaceUses (c : Call α) (origTy : IRType)
  /-- `ReplaceInstWithInst(I, C)`. -/
  | replaceInst (c : Call α)
  /-- A `cmpxchg`: the call, `Success = (C == CmpOperand)`, `OldVal` (cast to `OrigOldValTy`
  by `inttoptr` when the operand type is not `iN`) and the pair of them, which takes the uses
  of the erased instruction. -/
  | cmpXchg (c : Call α) (cmpOperand : Arg α) (oldValTy : Option IRType)
  deriving DecidableEq, Repr

/-- The call a lowering inserts. -/
def AtomicLowering.call? : AtomicLowering α → Option (Call α)
  | .keep => none
  | .replaceUses c _ | .replaceInst c | .cmpXchg c _ _ => some c

/-- `IRB.CreatePointerCast(Addr, PtrTy)` for the `iN*` of access size `idx`. -/
def atomicPtrArg (addr : α) (idx : Nat) : Arg α :=
  .pointerCast (.operand addr) (.ptr (.int (bitSize idx)))

/-- `instrumentAtomic`: the lowering of an atomic instruction, and whether it reports a change.
A load or store without ordering (`NotAtomic`) never reaches it: `isAtomic` rules it out, and
`createOrdering` would be unreachable. -/
def instrumentAtomic : Inst α → AtomicLowering α × Bool
  | .load a =>
    match getMemoryAccessFuncIndex a.storeSizeInBits, a.ordering with
    | none, _ => (.keep, false)
    | some idx, some ord =>
      (.replaceUses ⟨tsanAtomicLoad idx, [atomicPtrArg a.addr idx, createOrdering ord]⟩ a.ty, true)
    | some _, none => (.keep, true)
  | .store a v _ =>
    match getMemoryAccessFuncIndex a.storeSizeInBits, a.ordering with
    | none, _ => (.keep, false)
    | some idx, some ord =>
      (.replaceInst ⟨tsanAtomicStore idx, [atomicPtrArg a.addr idx,
        .bitOrPointerCast (.operand v) (.int (bitSize idx)), createOrdering ord]⟩, true)
    | some _, none => (.keep, true)
  | .atomicRMW r =>
    match getMemoryAccessFuncIndex r.storeSizeInBits with
    | none => (.keep, false)
    | some idx =>
      match tsanAtomicRMW r.op idx with
      | none => (.keep, false)
      | some f =>
        (.replaceInst ⟨f, [atomicPtrArg r.addr idx, .intCast (.operand r.val) (.int (bitSize idx)),
          createOrdering r.ordering]⟩, true)
  | .cmpXchg c =>
    match getMemoryAccessFuncIndex c.storeSizeInBits with
    | none => (.keep, false)
    | some idx =>
      let ty := IRType.int (bitSize idx)
      let cmpOperand := Arg.bitOrPointerCast (.operand c.cmp) ty
      (.cmpXchg ⟨tsanAtomicCAS idx, [atomicPtrArg c.addr idx, cmpOperand,
          .bitOrPointerCast (.operand c.new) ty, createOrdering c.successOrdering,
          createOrdering c.failureOrdering]⟩ cmpOperand (if ty ≠ c.ty then some c.ty else none),
        true)
  | .fence ord scope =>
    (.replaceInst ⟨if scope = .singleThread then tsanAtomicSignalFence else tsanAtomicThreadFence,
      [createOrdering ord]⟩, true)
  | _ => (.keep, true)

/-! ### The meaning of atomic instructions -/

/-- The operation of an `atomicrmw` on `n`-bit values: the new contents from the old ones and
the operand. -/
def BinOp.eval (n : Nat) (op : BinOp) (old v : Nat) : Nat :=
  let a := BitVec.ofNat n old
  let b := BitVec.ofNat n v
  BitVec.toNat <| match op with
    | .xchg => b
    | .add => a + b
    | .sub => a - b
    | .and => a &&& b
    | .nand => ~~~(a &&& b)
    | .or => a ||| b
    | .xor => a ^^^ b
    | .max => if b.slt a then a else b
    | .min => if a.slt b then a else b
    | .umax => if b.ult a then a else b
    | .umin => if a.ult b then a else b

/-- The operation reads its operand as an `n`-bit value. -/
theorem BinOp.eval_mod (n : Nat) (op : BinOp) (old v : Nat) :
    op.eval n old (v % 2 ^ n) = op.eval n old v := by
  have : BitVec.ofNat n (v % 2 ^ n) = BitVec.ofNat n v := by
    apply BitVec.eq_of_toNat_eq
    simp
  simp only [BinOp.eval, this]

/-- What an atomic instruction yields to its users. -/
inductive AtomicYield where
  | nothing
  | value (v : Nat)
  | pair (old : Nat) (success : Bool)
  deriving DecidableEq, Repr

/-- The single-threaded meaning of an atomic instruction over a memory that maps each address
to its contents: what it yields and the memory after it. An access of store size `S` reads and
writes the low `S` bits, and a value is given the type it is used at by `IRType.castBits`. -/
def Inst.atomicSem (env : α → Nat) (mem : Nat → Nat) : Inst α → AtomicYield × (Nat → Nat)
  | .load a => (.value (a.ty.castBits (mem (env a.addr) % 2 ^ a.storeSizeInBits)), mem)
  | .store a v _ =>
    (.nothing, Function.update mem (env a.addr) (env v % 2 ^ a.storeSizeInBits))
  | .atomicRMW r =>
    let old := mem (env r.addr) % 2 ^ r.storeSizeInBits
    (.value old, Function.update mem (env r.addr) (r.op.eval r.storeSizeInBits old (env r.val)))
  | .cmpXchg c =>
    let old := mem (env c.addr) % 2 ^ c.storeSizeInBits
    let success := old == env c.cmp % 2 ^ c.storeSizeInBits
    (.pair (c.ty.castBits old) success,
      if success then Function.update mem (env c.addr) (env c.new % 2 ^ c.storeSizeInBits)
      else mem)
  | _ => (.nothing, mem)

/-! ### The run-time -/

/-- Modelled from the spec: the documented operation of an atomic entry point of the
run-time, on `n`-bit values. -/
inductive AtomicProbe where
  | load (n : Nat)
  | store (n : Nat)
  | fetch (op : BinOp) (n : Nat)
  | compareExchange (n : Nat)
  | fence
  deriving DecidableEq, Repr

/-- Modelled from the spec: the atomic entry points of the run-time by symbol name, for the
widths of 8 to 128 bits and the operations of its interface. -/
def atomicRuntime : List (String × AtomicProbe) :=
  ([8, 16, 32, 64, 128].flatMap fun n =>
    let p := "__tsan_atomic" ++ toString n
    [(p ++ "_load", .load n), (p ++ "_store", .store n), (p ++ "_exchange", .fetch .xchg n),
      (p ++ "_fetch_add", .fetch .add n), (p ++ "_fetch_sub", .fetch .sub n),
      (p ++ "_fetch_and", .fetch .and n), (p ++ "_fetch_or", .fetch .or n),
      (p ++ "_fetch_xor", .fetch .xor n), (p ++ "_fetch_nand", .fetch .nand n),
      (p ++ "_compare_exchange_val", .compareExchange n)]) ++
  [("__tsan_atomic_thread_fence", .fence), ("__tsan_atomic_signal_fence", .fence)]

/-- The entry point a symbol names. -/
def atomicProbeOf (name : String) : Option AtomicProbe :=
  (atomicRuntime.find? (·.1 == name)).map (·.2)

/-- Run an entry point on the values of its arguments: its result and the memory after. -/
def AtomicProbe.run (mem : Nat → Nat) : AtomicProbe → List Nat → Option (Option Nat × (Nat → Nat))
  | .load n, [p, _] => some (some (mem p % 2 ^ n), mem)
  | .store _, [p, v, _] => some (none, Function.update mem p v)
  | .fetch op n, [p, v, _] =>
    let old := mem p % 2 ^ n
    some (some old, Function.update mem p (op.eval n old v))
  | .compareExchange n, [p, e, v, _, _] =>
    let old := mem p % 2 ^ n
    some (some old, if old = e then Function.update mem p v else mem)
  | .fence, [_] => some (none, mem)
  | _, _ => none

/-- Run a call to an atomic entry point. -/
def Call.runAtomic (env : α → Nat) (mem : Nat → Nat) (c : Call α) :
    Option (Option Nat × (Nat → Nat)) := do
  let probe ← atomicProbeOf c.callee
  let args ← c.args.mapM (Arg.eval env)
  probe.run mem args

/-- Run the code a lowering leaves in place of the instruction `I`. An atomic load stays after
the call, and its value is no longer used. -/
def AtomicLowering.exec (env : α → Nat) (mem : Nat → Nat) (I : Inst α) :
    AtomicLowering α → Option (AtomicYield × (Nat → Nat))
  | .keep => some (I.atomicSem env mem)
  | .replaceUses c origTy => do
    let (r, mem') ← c.runAtomic env mem
    let v ← r
    pure (.value (origTy.castBits v), mem')
  | .replaceInst c => do
    let (r, mem') ← c.runAtomic env mem
    pure (r.elim .nothing .value, mem')
  | .cmpXchg c cmpOperand oldValTy => do
    let (r, mem') ← c.runAtomic env mem
    let old ← r
    let e ← cmpOperand.eval env
    pure (.pair (oldValTy.elim old (·.castBits old)) (old == e), mem')

/-! ### The entry points the lowering calls -/

section Probes

variable {i : Nat} (hi : i < kNumberOfAccessSizes)
include hi

theorem atomicProbeOf_tsanAtomicLoad : atomicProbeOf (tsanAtomicLoad i) = some (.load (bitSize i)) := by
  simp only [kNumberOfAccessSizes] at hi
  interval_cases i <;> decide

theorem atomicProbeOf_tsanAtomicStore :
    atomicProbeOf (tsanAtomicStore i) = some (.store (bitSize i)) := by
  simp only [kNumberOfAccessSizes] at hi
  interval_cases i <;> decide

theorem atomicProbeOf_tsanAtomicCAS :
    atomicProbeOf (tsanAtomicCAS i) = some (.compareExchange (bitSize i)) := by
  simp only [kNumberOfAccessSizes] at hi
  interval_cases i <;> decide

theorem atomicProbeOf_tsanAtomicRMW {op : BinOp} {f : String} (hf : tsanAtomicRMW op i = some f) :
    atomicProbeOf f = some (.fetch op (bitSize i)) := by
  simp only [kNumberOfAccessSizes] at hi
  cases op <;> simp only [tsanAtomicRMW, rmwNamePart, Option.map_some', Option.map_none',
    Option.some.injEq, reduceCtorEq] at hf <;> subst hf <;> interval_cases i <;> decide

end Probes

theorem atomicProbeOf_fence (scope : SynchScope) :
    atomicProbeOf (if scope = .singleThread then tsanAtomicSignalFence else tsanAtomicThreadFence) =
      some .fence := by
  split <;> decide

/-! ### The lowered code runs as the instruction -/

/-- The store size of what an atomic instruction accesses; a fence accesses no memory. -/
def Inst.accessSize : Inst α → Option Nat
  | .load a | .store a _ _ => some a.storeSizeInBits
  | .atomicRMW r => some r.storeSizeInBits
  | .cmpXchg c => some c.storeSizeInBits
  | _ => none

/-- `createOrdering` of the orderings of an atomic instruction, the success ordering of a
`cmpxchg` before its failure ordering. -/
def Inst.orderingArgs : Inst α → List (Arg α)
  | .load a | .store a _ _ => a.ordering.toList.map createOrdering
  | .atomicRMW r => [createOrdering r.ordering]
  | .cmpXchg c => [createOrdering c.successOrdering, createOrdering c.failureOrdering]
  | .fence ord _ => [createOrdering ord]
  | _ => []

section Exec

variable (env : α → Nat) (mem : Nat → Nat)

@[simp] theorem Arg.eval_atomicPtrArg (addr : α) (idx : Nat) :
    (atomicPtrArg addr idx).eval env = some (env addr) := rfl

theorem instrumentAtomic_load_exec (a : Access α) (hS : a.storeSizeInBits < 2 ^ 32) :
    (instrumentAtomic (.load a)).1.exec env mem (.load a) = some ((Inst.load a).atomicSem env mem) := by
  cases hidx : getMemoryAccessFuncIndex a.storeSizeInBits with
  | none => simp [instrumentAtomic, hidx, AtomicLowering.exec]
  | some idx =>
    obtain ⟨hi, hsz⟩ := (getMemoryAccessFuncIndex_eq_some_of_lt hS).1 hidx
    cases hord : a.ordering with
    | none => simp [instrumentAtomic, hidx, hord, AtomicLowering.exec]
    | some ord =>
      simp only [instrumentAtomic, hidx, hord, AtomicLowering.exec, Call.runAtomic,
        atomicProbeOf_tsanAtomicLoad hi, List.mapM_cons, List.mapM_nil, Arg.eval_atomicPtrArg]
      simp only [Arg.eval, Option.pure_def, Option.bind_eq_bind, Option.some_bind, AtomicProbe.run,
        Inst.atomicSem, hsz]

theorem instrumentAtomic_store_exec (a : Access α) (v : α) (ty : IRType)
    (hS : a.storeSizeInBits < 2 ^ 32) :
    (instrumentAtomic (.store a v ty)).1.exec env mem (.store a v ty) =
      some ((Inst.store a v ty).atomicSem env mem) := by
  cases hidx : getMemoryAccessFuncIndex a.storeSizeInBits with
  | none => simp [instrumentAtomic, hidx, AtomicLowering.exec]
  | some idx =>
    obtain ⟨hi, hsz⟩ := (getMemoryAccessFuncIndex_eq_some_of_lt hS).1 hidx
    cases hord : a.ordering with
    | none => simp [instrumentAtomic, hidx, hord, AtomicLowering.exec]
    | some ord =>
      simp only [instrumentAtomic, hidx, hord, AtomicLowering.exec, Call.runAtomic,
        atomicProbeOf_tsanAtomicStore hi, List.mapM_cons, List.mapM_nil, Arg.eval_atomicPtrArg]
      simp only [Arg.eval, Option.map_some', IRType.castBits_int, Option.pure_def, Option.bind_eq_bind,
        Option.some_bind, AtomicProbe.run, Option.elim_none, Inst.atomicSem, hsz]

/-- The `fetch_op` entry point reads its operand as an `N`-bit value, as the instruction does:
the unsigned cast of the operand to `iN` changes nothing. -/
theorem instrumentAtomic_atomicRMW_exec (r : AtomicRMW α) (hS : r.storeSizeInBits < 2 ^ 32) :
    (instrumentAtomic (.atomicRMW r)).1.exec env mem (.atomicRMW r) =
      some ((Inst.atomicRMW r).atomicSem env mem) := by
  cases hidx : getMemoryAccessFuncIndex r.storeSizeInBits with
  | none => simp [instrumentAtomic, hidx, AtomicLowering.exec]
  | some idx =>
    obtain ⟨hi, hsz⟩ := (getMemoryAccessFuncIndex_eq_some_of_lt hS).1 hidx
    cases hf : tsanAtomicRMW r.op idx with
    | none => simp [instrumentAtomic, hidx, hf, AtomicLowering.exec]
    | some f =>
      simp only [instrumentAtomic, hidx, hf, AtomicLowering.exec, Call.runAtomic,
        atomicProbeOf_tsanAtomicRMW hi hf, List.mapM_cons, List.mapM_nil, Arg.eval_atomicPtrArg]
      simp only [Arg.eval, Option.map_some', IRType.castBits_int, Option.pure_def, Option.bind_eq_bind,
        Option.some_bind, AtomicProbe.run, BinOp.eval_mod, Option.elim_some, Inst.atomicSem, hsz]

/-- The rebuilt pair is `{old, old == expected}` on both outcomes; `OldVal` is cast back to the
operand type exactly when that type is not `iN`, a cast that keeps a pointer's bits. -/
theorem instrumentAtomic_cmpXchg_exec (c : CmpXchg α) (hS : c.storeSizeInBits < 2 ^ 32) :
    (instrumentAtomic (.cmpXchg c)).1.exec env mem (.cmpXchg c) =
      some ((Inst.cmpXchg c).atomicSem env mem) := by
  cases hidx : getMemoryAccessFuncIndex c.storeSizeInBits with
  | none => simp [instrumentAtomic, hidx, AtomicLowering.exec]
  | some idx =>
    obtain ⟨hi, hsz⟩ := (getMemoryAccessFuncIndex_eq_some_of_lt hS).1 hidx
    simp only [instrumentAtomic, hidx, AtomicLowering.exec, Call.runAtomic,
      atomicProbeOf_tsanAtomicCAS hi, List.mapM_cons, List.mapM_nil, Arg.eval_atomicPtrArg]
    by_cases hty : IRType.int (bitSize idx) = c.ty
    · simp only [Arg.eval, Option.map_some', IRType.castBits_int, Option.pure_def, Option.bind_eq_bind,
        Option.some_bind, AtomicProbe.run, ← hty, ne_eq, not_true_eq_false, if_false, Option.elim_none,
        Inst.atomicSem, hsz, Nat.mod_mod_of_dvd _ (dvd_refl _), beq_iff_eq]
    · simp only [Arg.eval, Option.map_some', IRType.castBits_int, Option.pure_def, Option.bind_eq_bind,
        Option.some_bind, AtomicProbe.run, ne_eq, hty, not_false_eq_true, if_true, Option.elim_some,
        Inst.atomicSem, hsz, beq_iff_eq]

theorem instrumentAtomic_fence_exec (ord : AtomicOrdering) (scope : SynchScope) :
    (instrumentAtomic (.fence ord scope : Inst α)).1.exec env mem (.fence ord scope) =
      some ((Inst.fence ord scope).atomicSem env mem) := by
  simp only [instrumentAtomic, AtomicLowering.exec, Call.runAtomic, atomicProbeOf_fence,
    List.mapM_cons, List.mapM_nil]
  simp only [Arg.eval, Option.pure_def, Option.bind_eq_bind, Option.some_bind, AtomicProbe.run,
    Option.elim_none, Inst.atomicSem]

end Exec

/-- The call of a lowering passes `createOrdering` of the instruction's orderings as its last
arguments. -/
theorem orderingArgs_suffix_args (I : Inst α) (c : Call α)
    (hc : (instrumentAtomic I).1.call? = some c) : I.orderingArgs <:+ c.args := by
  cases I <;> simp only [instrumentAtomic] at hc <;> repeat' split at hc
  all_goals simp only [AtomicLowering.call?, Option.some.injEq, reduceCtorEq] at hc
  all_goals
    subst hc
    simp_all [Inst.orderingArgs, List.suffix_cons_iff]

/-- `instrumentAtomic` lowers to a call every instruction `isAtomic` hands it whose access is 1,
2, 4, 8 or 16 bytes wide, except an `atomicrmw` whose operation has no entry point. -/
theorem instrumentAtomic_call?_isSome (I : Inst α) (hI : I.isAtomic = true)
    (hsize : ∀ S, I.accessSize = some S → S ∈ [8, 16, 32, 64, 128])
    (hop : ∀ r, I = .atomicRMW r → rmwNamePart r.op ≠ none) :
    ((instrumentAtomic I).1.call?).isSome = true := by
  have hidx : ∀ S ∈ [8, 16, 32, 64, 128], (getMemoryAccessFuncIndex S).isSome = true := by decide
  cases I with
  | load a | store a v ty =>
    obtain ⟨idx, h⟩ := Option.isSome_iff_exists.1 (hidx _ (hsize _ rfl))
    obtain ⟨ord, hord⟩ := Option.isSome_iff_exists.1 (Bool.and_eq_true _ _ ▸ hI).1
    simp [instrumentAtomic, h, hord, AtomicLowering.call?]
  | atomicRMW r =>
    obtain ⟨idx, h⟩ := Option.isSome_iff_exists.1 (hidx _ (hsize _ rfl))
    obtain ⟨part, hp⟩ := Option.ne_none_iff_exists'.1 (hop r rfl)
    simp [instrumentAtomic, h, tsanAtomicRMW, hp, AtomicLowering.call?]
  | cmpXchg c =>
    obtain ⟨idx, h⟩ := Option.isSome_iff_exists.1 (hidx _ (hsize _ rfl))
    simp [instrumentAtomic, h, AtomicLowering.call?]
  | fence ord scope => rfl
  | _ => cases hI

/-- A sequentially consistent `cmpxchg` of 32-bit integers. -/
def casWord : Inst Nat :=
  .cmpXchg ⟨0, .int 32, 32, 1, 2, .sequentiallyConsistent, .monotonic⟩

end EmbedSanitizer
