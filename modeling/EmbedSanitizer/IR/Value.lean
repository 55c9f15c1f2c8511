import Mathlib.Order.Basic

/-!
# Values and types of the instrumented IR

The LLVM 4 vocabulary the `tsan` pass of EmbedSanitizer reads: first-class types, the memory
orderings and scopes of atomic instructions, the `atomicrmw` operations, and the pointer
values that stand as operands of memory accesses.

A pointer value is built from the objects it may point into (globals, stack slots, function
arguments, loaded pointers) and the address arithmetic on them (`getelementptr`, `bitcast`,
`addrspacecast`), each either an instruction or a constant expression. Instructions carry an
identifier: two instructions are distinct values even when they compute the same address.
Constant expressions are uniqued by their operands, indices and result type, which they carry.
Equality of `Value` is therefore the pointer identity of `Value *` that `SmallSet<Value *, 8>`
compares.
-/

namespace EmbedSanitizer

/-- First-class types, as far as the pass builds or inspects them. -/
inductive IRType where
  | void
  | int (bits : Nat)
  | float (bits : Nat)
  | ptr (pointee : IRType)
  | vector (lanes : Nat) (elem : IRType)
  deriving DecidableEq, Repr

namespace IRType

/-- `IRB.getInt8PtrTy()`. -/
def i8Ptr : IRType := ptr (int 8)

end IRType

/-- The orderings of `llvm::AtomicOrdering` in LLVM 4 an atomic instruction can carry: all but
`NotAtomic`, which a plain load or store carries (`none` in `Access.ordering`). The enumeration
of LLVM 4 has no `Consume`. -/
inductive AtomicOrdering where
  | unordered
  | monotonic
  | acquire
  | release
  | acquireRelease
  | sequentiallyConsistent
  deriving DecidableEq, Repr

/-- `llvm::SynchronizationScope`. -/
inductive SynchScope where
  | singleThread
  | crossThread
  deriving DecidableEq, Repr

/-- `AtomicRMWInst::BinOp`, from `FIRST_BINOP = Xchg` to `LAST_BINOP = UMin`. -/
inductive BinOp where
  | xchg
  | add
  | sub
  | and
  | nand
  | or
  | xor
  | max
  | min
  | umax
  | umin
  deriving DecidableEq, Repr

/-- A global variable, with what the pass reads of it. -/
structure GlobalVariable where
  name : String
  /-- `getSection()`, present when `hasSection()`. -/
  sectionName : Option String
  isConstant : Bool
  addrSpace : Nat
  deriving DecidableEq, Repr

/-- A pointer value of the function. -/
inductive Value where
  | global (g : GlobalVariable)
  | alloca (id : Nat) (swiftError : Bool)
  | argument (id : Nat) (addrSpace : Nat) (swiftError : Bool)
  | gepInst (id : Nat) (inBounds : Bool) (base : Value)
  /-- A constant-expression `getelementptr`, with its constant indices. -/
  | gepExpr (inBounds : Bool) (base : Value) (indices : List Int)
  | bitCastInst (id : Nat) (base : Value)
  /-- A constant-expression `bitcast` to a pointer to `pointee`. -/
  | bitCastExpr (pointee : IRType) (base : Value)
  | addrSpaceCastInst (id : Nat) (addrSpace : Nat) (base : Value)
  /-- A constant-expression `addrspacecast` to a pointer to `pointee` in `addrSpace`. -/
  | addrSpaceCastExpr (addrSpace : Nat) (pointee : IRType) (base : Value)
  /-- A pointer loaded from memory, tagged when the load reads a vtable pointer. -/
  | load (id : Nat) (isVtableAccess : Bool) (addrSpace : Nat) (addr : Value)
  /-- Any other pointer: a call result, a `phi`, a `select`, an integer cast. -/
  | other (id : Nat) (addrSpace : Nat)
  deriving DecidableEq, Repr

namespace Value

/-- The address space of the value's pointer type. -/
def addrSpace : Value → Nat
  | global g => g.addrSpace
  | alloca _ _ => 0
  | argument _ as _ => as
  | gepInst _ _ v | gepExpr _ v _ | bitCastInst _ v | bitCastExpr _ v => v.addrSpace
  | addrSpaceCastInst _ as _ | addrSpaceCastExpr as _ _ => as
  | load _ _ as _ => as
  | other _ as => as

/-- `Value::isSwiftError()`: a `swifterror` argument or stack slot. -/
def isSwiftError : Value → Bool
  | alloca _ s | argument _ _ s => s
  | _ => false

/-- The value is an `AllocaInst`. -/
def isAlloca : Value → Bool
  | alloca _ _ => true
  | _ => false

end Value

end EmbedSanitizer
