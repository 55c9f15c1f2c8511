import Mathlib.Tactic.IntervalCases
import EmbedSanitizer.IR.Inst

/-!
# The run-time callbacks

`initializeCallbacks` declares every function of the run-time library the pass may call, and
`getMemoryAccessFuncIndex` picks, from the store size of an access, the index into the tables
of sized callbacks. `createOrdering` encodes a memory ordering as the run-time's integer.

`getMemoryAccessFuncIndex` keeps the 64-bit store size in a `uint32_t`: sizes that agree with
a supported one modulo `2 ^ 32` receive that size's callback.
-/

namespace EmbedSanitizer

/-- A `FunctionType`: result and parameter types. -/
structure FunctionType where
  ret : IRType
  params : List IRType
  deriving DecidableEq, Repr

/-- A function declared with `getOrInsertFunction`. -/
structure Declaration where
  name : String
  type : FunctionType
  /-- Declared with the attribute set `Attr`, which holds `NoUnwind`. -/
  noUnwind : Bool
  deriving DecidableEq, Repr

/-- `kNumberOfAccessSizes`: accesses of 1, 2, 4, 8 and 16 bytes. -/
def kNumberOfAccessSizes : Nat := 5

/-- `ByteSize = 1U << i`. -/
def byteSize (i : Nat) : Nat := 2 ^ i

/-- `BitSize = ByteSize * 8`. -/
def bitSize (i : Nat) : Nat := byteSize i * 8

/-! ### Callback names -/

def tsanPrintVariables : String := "__tsan_print_variables"
def tsanMainFuncExit : String := "__tsan_main_func_exit"
def tsanFuncEntry : String := "__tsan_func_entry"
def tsanFuncExit : String := "__tsan_func_exit"
def tsanIgnoreBegin : String := "__tsan_ignore_thread_begin"
def tsanIgnoreEnd : String := "__tsan_ignore_thread_end"
def tsanVptrUpdate : String := "__tsan_vptr_update"
def tsanVptrLoad : String := "__tsan_vptr_read"
def tsanAtomicThreadFence : String := "__tsan_atomic_thread_fence"
def tsanAtomicSignalFence : String := "__tsan_atomic_signal_fence"
def memmoveFn : String := "memmove"
def memcpyFn : String := "memcpy"
def memsetFn : String := "memset"

def tsanRead (i : Nat) : String := "__tsan_read" ++ toString (byteSize i)
def tsanWrite (i : Nat) : String := "__tsan_write" ++ toString (byteSize i)
def tsanUnalignedRead (i : Nat) : String := "__tsan_unaligned_read" ++ toString (byteSize i)
def tsanUnalignedWrite (i : Nat) : String := "__tsan_unaligned_write" ++ toString (byteSize i)
def tsanAtomicLoad (i : Nat) : String := "__tsan_atomic" ++ toString (bitSize i) ++ "_load"
def tsanAtomicStore (i : Nat) : String := "__tsan_atomic" ++ toString (bitSize i) ++ "_store"
def tsanAtomicCAS (i : Nat) : String :=
  "__tsan_atomic" ++ toString (bitSize i) ++ "_compare_exchange_val"

/-- The `NamePart` of the read-modify-write callback of an operation; `none` where the loop of
`initializeCallbacks` continues and leaves `TsanAtomicRMW[op][i]` null. -/
def rmwNamePart : BinOp → Option String
  | .xchg => some "_exchange"
  | .add => some "_fetch_add"
  | .sub => some "_fetch_sub"
  | .and => some "_fetch_and"
  | .or => some "_fetch_or"
  | .xor => some "_fetch_xor"
  | .nand => some "_fetch_nand"
  | _ => none

/-- `TsanAtomicRMW[op][i]`. -/
def tsanAtomicRMW (op : BinOp) (i : Nat) : Option String :=
  (rmwNamePart op).map fun part => "__tsan_atomic" ++ toString (bitSize i) ++ part

/-! ### Declarations -/

/-- The callbacks declared for access size `i`. -/
def sizedCallbacks (i : Nat) : List Declaration :=
  let i8p := IRType.i8Ptr
  let access := ⟨.void, [i8p, .int 8, i8p, i8p]⟩
  let ty := IRType.int (bitSize i)
  let ordTy := IRType.int 32
  [⟨tsanRead i, access, true⟩, ⟨tsanWrite i, access, true⟩,
    ⟨tsanUnalignedRead i, access, true⟩, ⟨tsanUnalignedWrite i, access, true⟩,
    ⟨tsanAtomicLoad i, ⟨ty, [.ptr ty, ordTy]⟩, true⟩,
    ⟨tsanAtomicStore i, ⟨.void, [.ptr ty, ty, ordTy]⟩, true⟩] ++
  ([BinOp.xchg, .add, .sub, .and, .nand, .or, .xor, .max, .min, .umax, .umin].filterMap
      fun op => (tsanAtomicRMW op i).map fun name => ⟨name, ⟨ty, [.ptr ty, ty, ordTy]⟩, true⟩) ++
  [⟨tsanAtomicCAS i, ⟨ty, [.ptr ty, ty, ty, ordTy, ordTy]⟩, true⟩]

/-- The declarations of `initializeCallbacks`, for the data layout's `IntptrTy`. -/
def initializeCallbacks (intptrTy : IRType) : List Declaration :=
  let i8p := IRType.i8Ptr
  [⟨tsanPrintVariables, ⟨.void, [.int 32, i8p]⟩, false⟩,
    ⟨tsanMainFuncExit, ⟨.void, []⟩, true⟩,
    ⟨tsanFuncEntry, ⟨.void, [i8p]⟩, true⟩,
    ⟨tsanFuncExit, ⟨.void, []⟩, true⟩,
    ⟨tsanIgnoreBegin, ⟨.void, []⟩, true⟩,
    ⟨tsanIgnoreEnd, ⟨.void, []⟩, true⟩] ++
  (List.range kNumberOfAccessSizes).flatMap sizedCallbacks ++
  [⟨tsanVptrUpdate, ⟨.void, [i8p, i8p, .int 8, i8p, i8p]⟩, true⟩,
    ⟨tsanVptrLoad, ⟨.void, [i8p, .int 8, i8p, i8p]⟩, true⟩,
    ⟨tsanAtomicThreadFence, ⟨.void, [.int 32]⟩, true⟩,
    ⟨tsanAtomicSignalFence, ⟨.void, [.int 32]⟩, true⟩,
    ⟨memmoveFn, ⟨i8p, [i8p, i8p, intptrTy]⟩, true⟩,
    ⟨memcpyFn, ⟨i8p, [i8p, i8p, intptrTy]⟩, true⟩,
    ⟨memsetFn, ⟨i8p, [i8p, .int 32, intptrTy]⟩, true⟩]

/-- The declaration of a callback, by name. -/
def declarationOf (decls : List Declaration) (name : String) : Option Declaration :=
  decls.find? (·.name == name)

/-! ### Orderings -/

variable {α : Type}

/-- `createOrdering`: the run-time's encoding of an ordering, as an `i32` constant. -/
def createOrdering (ord : AtomicOrdering) : Arg α :=
  .constInt 32 <| match ord with
    | .unordered | .monotonic => 0
    | .acquire => 2
    | .release => 3
    | .acquireRelease => 4
    | .sequentiallyConsistent => 5

/-! ### Sized callbacks -/

/-- `countTrailingZeros` of a 32-bit value, `32` for zero (`ZB_Width`). -/
def countTrailingZeros (x : Nat) : Nat := go 32 x
where
  go : Nat → Nat → Nat
    | 0, _ => 0
    | n + 1, x => if x % 2 = 1 then 0 else go n (x / 2) + 1

/-- `getMemoryAccessFuncIndex`, from the store size in bits of the accessed type; `none` is the
`-1` of an unusual size. -/
def getMemoryAccessFuncIndex (storeSizeInBits : Nat) : Option Nat :=
  let typeSize := storeSizeInBits % 2 ^ 32
  if typeSize != 8 && typeSize != 16 && typeSize != 32 && typeSize != 64 && typeSize != 128 then
    none
  else
    some (countTrailingZeros (typeSize / 8))

theorem countTrailingZeros_go_two_pow : ∀ {n i : Nat}, i < n → countTrailingZeros.go n (2 ^ i) = i
  | _ + 1, 0, _ => rfl
  | _ + 1, i + 1, h => by
    rw [countTrailingZeros.go, if_neg (by simp [Nat.pow_succ, Nat.mul_mod_left]),
      Nat.pow_succ, Nat.mul_div_cancel _ (by norm_num), countTrailingZeros_go_two_pow (by omega)]

/-- The index names the size the 64-bit store size has modulo `2 ^ 32`. -/
theorem getMemoryAccessFuncIndex_eq_some {S i : Nat} :
    getMemoryAccessFuncIndex S = some i ↔ i < kNumberOfAccessSizes ∧ S % 2 ^ 32 = bitSize i := by
  unfold getMemoryAccessFuncIndex
  generalize S % 2 ^ 32 = t
  constructor
  · intro h
    simp only at h
    split at h
    · cases h
    · rename_i ht
      have : (((t = 8 ∨ t = 16) ∨ t = 32) ∨ t = 64) ∨ t = 128 := by
        simpa [-not_and, not_and_or] using ht
      rcases this with (((rfl | rfl) | rfl) | rfl) | rfl <;> cases h <;> decide
  · rintro ⟨hi, rfl⟩
    simp only [kNumberOfAccessSizes] at hi
    interval_cases i <;> decide

/-- Below `2 ^ 32` bits the index names exactly the accessed size. -/
theorem getMemoryAccessFuncIndex_eq_some_of_lt {S i : Nat} (hS : S < 2 ^ 32) :
    getMemoryAccessFuncIndex S = some i ↔ i < kNumberOfAccessSizes ∧ S = bitSize i := by
  rw [getMemoryAccessFuncIndex_eq_some, Nat.mod_eq_of_lt hS]

/-- A store size of `2 ^ 32 + 8` bits, a 64-bit value, gets the index of one-byte accesses. -/
theorem getMemoryAccessFuncIndex_wraps :
    2 ^ 32 + 8 < 2 ^ 64 ∧ getMemoryAccessFuncIndex (2 ^ 32 + 8) = some 0 ∧
      2 ^ 32 + 8 ≠ bitSize 0 ∧ tsanRead 0 = "__tsan_read1" := by
  decide

end EmbedSanitizer
