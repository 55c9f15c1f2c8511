import EmbedSanitizer.IR.Value

/-!
# Instructions and functions

The instructions of a function, with the operands and attributes the pass reads, and the
calls the pass builds. The operands of instructions range over a type `α` of values; the
pass itself works over `Value`.

An `invoke` is written as a call that names its landing-pad block, followed by a branch to
its normal destination: the pass treats the two alike (`isa<CallInst> || isa<InvokeInst>`),
and `changeToInvokeAndSplitBasicBlock`, which turns a call into an invoke, then only sets the
landing pad of the call, the rest of the block being its normal destination.
-/

namespace EmbedSanitizer

/-- The debug location of an instruction, as `getLineNumber` and `getFileName` read it. -/
structure DebugLoc where
  line : Nat
  file : String
  deriving DecidableEq, Repr

/-- A value built with `IRBuilder` to pass to an inserted call. -/
inductive Arg (α : Type) where
  /-- An operand of the instrumented instruction, used as it is. -/
  | operand (v : α)
  | pointerCast (a : Arg α) (ty : IRType)
  /-- `CreateIntCast(_, ty, /*isSigned=*/false)`. -/
  | intCast (a : Arg α) (ty : IRType)
  | bitOrPointerCast (a : Arg α) (ty : IRType)
  | intToPtr (a : Arg α) (ty : IRType)
  | extractElement (a : Arg α) (idx : Nat)
  | constInt (bits : Nat) (k : Nat)
  /-- `EmbedSanitizer::getLineNumber(I)`. -/
  | lineNumber (loc : DebugLoc)
  /-- `EmbedSanitizer::getObjectName(Addr, I, DL)`. -/
  | objectName (addr : α)
  /-- `EmbedSanitizer::getFileName(I)`. -/
  | fileName (loc : DebugLoc)
  /-- `EmbedSanitizer::getFuncName(F)`. -/
  | funcName (name : String)
  deriving DecidableEq, Repr

/-- A call to a named function. -/
structure Call (α : Type) where
  callee : String
  args : List (Arg α)
  deriving DecidableEq, Repr

/-- What the pass reads of a `LoadInst` or a `StoreInst`. -/
structure Access (α : Type) where
  addr : α
  /-- The element type of the address's pointer type. -/
  ty : IRType
  /-- `DL.getTypeStoreSizeInBits` of `ty`, a 64-bit quantity. -/
  storeSizeInBits : Nat
  /-- `getAlignment()`, `0` for the natural alignment. -/
  alignment : Nat
  /-- `getOrdering()`, `none` for `NotAtomic`. -/
  ordering : Option AtomicOrdering
  scope : SynchScope
  /-- The `tbaa` tag of the instruction is a vtable access. -/
  isVtableAccess : Bool
  loc : DebugLoc
  deriving DecidableEq, Repr

/-- An `AtomicRMWInst`. -/
structure AtomicRMW (α : Type) where
  op : BinOp
  addr : α
  ty : IRType
  storeSizeInBits : Nat
  val : α
  ordering : AtomicOrdering
  deriving DecidableEq, Repr

/-- An `AtomicCmpXchgInst`. -/
structure CmpXchg (α : Type) where
  addr : α
  /-- The type of the compared and new values, an integer or a pointer. -/
  ty : IRType
  storeSizeInBits : Nat
  cmp : α
  new : α
  successOrdering : AtomicOrdering
  failureOrdering : AtomicOrdering
  deriving DecidableEq, Repr

/-- The three memory intrinsics. -/
inductive MemKind where
  | memSet
  | memCpy
  | memMove
  deriving DecidableEq, Repr

/-- A `MemIntrinsic`: `llvm.memset(dest, val, len)` or `llvm.mem{cpy,move}(dest, src, len)`. -/
structure MemIntrinsic (α : Type) where
  kind : MemKind
  dest : α
  /-- The source of a transfer, the `i8` fill value of a `memset`. -/
  src : α
  len : α
  /-- The width of the length operand (`i32` or `i64`). -/
  lenBits : Nat
  deriving DecidableEq, Repr

/-- An instruction. -/
inductive Inst (α : Type) where
  | load (a : Access α)
  | store (a : Access α) (val : α) (valTy : IRType)
  | atomicRMW (r : AtomicRMW α)
  | cmpXchg (c : CmpXchg α)
  | fence (ordering : AtomicOrdering) (scope : SynchScope)
  | memIntrinsic (m : MemIntrinsic α)
  /-- A call; with a landing pad it is an invoke. -/
  | call (c : Call α) (doesNotThrow : Bool) (unwind : Option Nat)
  | landingPad
  | ret
  | resume
  | br (succs : List Nat)
  | unreachable
  | other
  deriving DecidableEq, Repr

/-- The position of an instruction: its block and its index in the block. -/
abbrev Pos := Nat × Nat

/-- A function, with the attributes the pass reads. -/
structure Function (α : Type) where
  name : String
  blocks : List (List (Inst α))
  /-- `hasFnAttribute(Attribute::SanitizeThread)`. -/
  sanitizeThread : Bool
  /-- `hasFnAttribute("sanitize_thread_no_checking_at_run_time")`. -/
  noCheckingAtRunTime : Bool
  /-- `doesNotThrow()`. -/
  doesNotThrow : Bool

variable {α : Type}

namespace Inst

/-- `isAtomic`: the instructions `runOnFunction` hands to `instrumentAtomic`. -/
def isAtomic : Inst α → Bool
  | load a | store a _ _ => a.ordering.isSome && a.scope == .crossThread
  | atomicRMW _ | cmpXchg _ | fence _ _ => true
  | _ => false

/-- `isa<CallInst>(Inst) || isa<InvokeInst>(Inst)`. -/
def isCallOrInvoke : Inst α → Bool
  | call _ _ _ | memIntrinsic _ => true
  | _ => false

/-- A plain (not cross-thread atomic) load or store, with whether it writes. -/
def plainAccess (I : Inst α) : Option (Bool × Access α) :=
  if I.isAtomic then none
  else match I with
    | load a => some (false, a)
    | store a _ _ => some (true, a)
    | _ => none

/-- The address of a plain store. -/
def plainStoreAddr (I : Inst α) : Option α :=
  match I.plainAccess with
  | some (true, a) => some a.addr
  | _ => none

theorem plainAccess_eq_none_of_isCallOrInvoke {I : Inst α} (h : I.isCallOrInvoke = true) :
    I.plainAccess = none := by
  cases I <;> simp_all [isCallOrInvoke, plainAccess]

theorem isCallOrInvoke_eq_false_of_plainAccess {I : Inst α} {w : Bool} {a : Access α}
    (h : I.plainAccess = some (w, a)) : I.isCallOrInvoke = false := by
  cases hc : I.isCallOrInvoke
  · rfl
  · simp [plainAccess_eq_none_of_isCallOrInvoke hc] at h

end Inst

/-- The instruction at a position. -/
def Function.instAt (F : Function α) (p : Pos) : Option (Inst α) :=
  F.blocks[p.1]? >>= (·[p.2]?)

end EmbedSanitizer
