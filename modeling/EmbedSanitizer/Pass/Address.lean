import EmbedSanitizer.IR.Inst

/-!
# Classifying addresses

The tests `chooseInstructionsToInstrument` makes on the address of a load or store:
`shouldInstrumentReadWriteFromAddress` excludes compiler counters and other address spaces,
`addrPointsToConstantData` recognises constant globals and vtable pointers, and a stack slot
whose address is not captured is skipped.

The exclusion test strips every in-bounds `getelementptr` and pointer cast, instruction or
constant expression. The constant-data test peels only one `getelementptr` instruction.
-/

namespace EmbedSanitizer

namespace Value

/-- `Value::stripInBoundsOffsets()`. -/
def stripInBoundsOffsets : Value → Value
  | gepInst _ true v | gepExpr true v _ => v.stripInBoundsOffsets
  | bitCastInst _ v | bitCastExpr _ v => v.stripInBoundsOffsets
  | addrSpaceCastInst _ _ v | addrSpaceCastExpr _ _ v => v.stripInBoundsOffsets
  | v => v

/-- `GetUnderlyingObject(V, DL, MaxLookup)`: peel off `getelementptr`s and pointer casts, at
most `MaxLookup` of them. -/
def getUnderlyingObject : Nat → Value → Value
  | 0, v => v
  | n + 1, v =>
    match v with
    | gepInst _ _ b | gepExpr _ b _ | bitCastInst _ b | bitCastExpr _ b => getUnderlyingObject n b
    | addrSpaceCastInst _ _ b | addrSpaceCastExpr _ _ b => getUnderlyingObject n b
    | v => v

/-- `v` is `base`, or a pointer computed from it by `getelementptr`s and casts: the users of
`base` that capture tracking follows. -/
def derivesFrom (base : Value) : Value → Bool
  | v@(gepInst _ _ b) | v@(gepExpr _ b _) | v@(bitCastInst _ b) | v@(bitCastExpr _ b)
  | v@(addrSpaceCastInst _ _ b) | v@(addrSpaceCastExpr _ _ b) => v == base || derivesFrom base b
  | v => v == base

end Value

/-- `getInstrProfCountersSectionName(/*AddSegment=*/false)`. -/
def instrProfCountersSectionName : String := "__llvm_prf_cnts"

/-- `shouldInstrumentReadWriteFromAddress`. -/
def shouldInstrumentReadWriteFromAddress (addr : Value) : Bool :=
  let addr := addr.stripInBoundsOffsets
  let compilerData :=
    match addr with
    | .global g =>
      (g.sectionName.map (·.endsWith instrProfCountersSectionName)).getD false ||
        g.name.startsWith "__llvm_gcov" || g.name.startsWith "__llvm_gcda"
    | _ => false
  !compilerData && addr.addrSpace == 0

/-- `addrPointsToConstantData`. -/
def addrPointsToConstantData (addr : Value) : Bool :=
  let addr :=
    match addr with
    | .gepInst _ _ base => base
    | a => a
  match addr with
  | .global g => g.isConstant
  | .load _ isVtableAccess _ _ => isVtableAccess
  | _ => false

/-- The `MaxLookup` of `GetUnderlyingObject`'s default argument. -/
def maxLookup : Nat := 6

/-- `isa<AllocaInst>(GetUnderlyingObject(Addr, DL))`. -/
def underlyingObjectIsAlloca (addr : Value) : Bool :=
  (addr.getUnderlyingObject maxLookup).isAlloca

/-- The pointer an inserted call's argument passes, if it is an operand or a cast of one. -/
def Arg.passedPointer {α : Type} : Arg α → Option α
  | .operand v => some v
  | .pointerCast a _ | .bitOrPointerCast a _ => a.passedPointer
  | _ => none

/-- `PointerMayBeCaptured(Addr, /*ReturnCaptures=*/true, /*StoreCaptures=*/true)` on the IR once
the pass has inserted `calls`. `capturedInProgram` is its answer on the function as given; a
pointer passed to a call whose parameter is not `nocapture` is captured, and none of the
callbacks declares its parameters `nocapture`. -/
def pointerMayBeCaptured (capturedInProgram : Value → Bool) (calls : List (Call Value))
    (addr : Value) : Bool :=
  capturedInProgram addr ||
    calls.any fun c => c.args.any fun a => (a.passedPointer.map addr.derivesFrom).getD false

end EmbedSanitizer
