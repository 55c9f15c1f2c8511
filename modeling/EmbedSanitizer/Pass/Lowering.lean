import EmbedSanitizer.Pass.Callbacks
import EmbedSanitizer.Pass.Address

/-!
# Lowering loads, stores and memory intrinsics

`instrumentLoadOrStore` inserts, in front of a selected load or store, a call to the sized
`__tsan_read`/`__tsan_write` callback (or its unaligned variant), or to `__tsan_vptr_update` or
`__tsan_vptr_read` for a vtable access. `instrumentMemIntrinsic` replaces a memory intrinsic by
a call to the library function of the same name.

`Arg.eval` gives the bits an argument carries at run time: a cast to a pointer or a
floating-point type keeps them, a cast to `iN` (`bitcast`, `ptrtoint`, an unsigned integer
cast) keeps them modulo `2 ^ N`.
-/

namespace EmbedSanitizer

variable {α : Type}

/-! ### Argument values -/

/-- The bits of a value cast to a type: an `iN` keeps the low `N` bits, a pointer or a
floating-point value of the same width all of them. -/
def IRType.castBits : IRType → Nat → Nat
  | .int w, n => n % 2 ^ w
  | _, n => n

@[simp] theorem IRType.castBits_int (w n : Nat) : (IRType.int w).castBits n = n % 2 ^ w := rfl

@[simp] theorem IRType.castBits_ptr (t : IRType) (n : Nat) : (IRType.ptr t).castBits n = n := rfl

/-- Modelled from the spec: `getLineNumber(I)`, which `EmbedSanitizerDebugInfo.h` (not in the
sources) provides, yields the source line of the instruction's debug location. The strings of
`getObjectName`, `getFileName` and `getFuncName` are opaque (`none`). -/
def Arg.eval (env : α → Nat) : Arg α → Option Nat
  | .operand v => some (env v)
  | .pointerCast a ty | .intCast a ty | .bitOrPointerCast a ty | .intToPtr a ty =>
    (a.eval env).map ty.castBits
  | .extractElement _ _ => none
  | .constInt _ k => some k
  | .lineNumber loc => some loc.line
  | .objectName _ | .fileName _ | .funcName _ => none

/-- `IRB.CreateIntCast(EmbedSanitizer::getLineNumber(I), IRB.getInt8Ty(), false)`. -/
def lineArg (loc : DebugLoc) : Arg α := .intCast (.lineNumber loc) (.int 8)

/-- The line a callback receives is the source line modulo `2 ^ 8`. -/
theorem eval_lineArg (env : α → Nat) (loc : DebugLoc) :
    (lineArg loc : Arg α).eval env = some (loc.line % 2 ^ 8) := rfl

/-! ### Loads and stores -/

/-- The value `__tsan_vptr_update` receives: the first lane of a vector, an integer cast to a
pointer. -/
def vptrStoredValue (v : Value) (ty : IRType) : Arg Value :=
  let (sv, svTy) :=
    match ty with
    | .vector _ elem => (Arg.extractElement (.operand v) 0, elem)
    | ty => (.operand v, ty)
  match svTy with
  | .int _ => .intToPtr sv .i8Ptr
  | _ => sv

/-- `instrumentLoadOrStore`: the calls inserted in front of a load or store (`stored` is the
value operand and its type for a store), and whether it was instrumented. -/
def instrumentLoadOrStore (a : Access Value) (stored : Option (Value × IRType)) :
    List (Call Value) × Bool :=
  let isWrite := stored.isSome
  let addr : Arg Value := .pointerCast (.operand a.addr) .i8Ptr
  if a.addr.isSwiftError then ([], false)
  else
    match getMemoryAccessFuncIndex a.storeSizeInBits with
    | none => ([], false)
    | some idx =>
      match stored, a.isVtableAccess with
      | some (v, ty), true =>
        ([⟨tsanVptrUpdate, [addr, .pointerCast (vptrStoredValue v ty) .i8Ptr, lineArg a.loc,
          .objectName a.addr, .fileName a.loc]⟩], true)
      | none, true => ([⟨tsanVptrLoad, [addr, lineArg a.loc, .objectName a.addr, .fileName a.loc]⟩], true)
      | _, false =>
        let typeSize := a.storeSizeInBits % 2 ^ 32
        let onAccessFunc :=
          if a.alignment == 0 || a.alignment ≥ 8 || a.alignment % (typeSize / 8) == 0 then
            if isWrite then tsanWrite idx else tsanRead idx
          else if isWrite then tsanUnalignedWrite idx else tsanUnalignedRead idx
        ([⟨onAccessFunc, [addr, lineArg a.loc, .objectName a.addr, .fileName a.loc]⟩], true)

/-! ### Memory intrinsics -/

/-- The library function `instrumentMemIntrinsic` calls for an intrinsic. -/
def MemKind.libFn : MemKind → String
  | .memSet => memsetFn
  | .memCpy => memcpyFn
  | .memMove => memmoveFn

/-- `instrumentMemIntrinsic`: the call that replaces a memory intrinsic. -/
def instrumentMemIntrinsic (intptrTy : IRType) (m : MemIntrinsic α) : Call α :=
  match m.kind with
  | .memSet =>
    ⟨memsetFn, [.pointerCast (.operand m.dest) .i8Ptr, .intCast (.operand m.src) (.int 32),
      .intCast (.operand m.len) intptrTy]⟩
  | k =>
    ⟨if k = .memCpy then memcpyFn else memmoveFn,
      [.pointerCast (.operand m.dest) .i8Ptr, .pointerCast (.operand m.src) .i8Ptr,
        .intCast (.operand m.len) intptrTy]⟩

end EmbedSanitizer
