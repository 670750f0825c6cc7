import Misan.Report

/-!
# The UBSan handlers

The handlers built on `UBSAN_HANDLE` that name a type or an attribute location. The macro ends in
`drt_arch_abort`, which does not return, so aborting is an error of the computation: what a handler
does behind the macro is there, and is run only if the macro returns. A computation carries the
printer's state and `ubsan_lock`. Arguments a handler casts to `void` are left out.
-/

namespace Misan

/-- `__ubsan_source_location`, the file name up to its terminator. -/
structure UbsanSourceLocation where
  filename : Option (List Byte)
  line : BitVec 32
  column : BitVec 32

/-- `__ubsan_type_descriptor`, of which only the name is read. -/
structure UbsanTypeDescriptor where
  typeName : List Byte

inductive UbsanStop where
  | print (e : PrintStop)
  | aborted
deriving DecidableEq

structure UbsanState where
  print : PrintState
  locked : Bool

abbrev Ubsan := EStateM UbsanStop UbsanState

def ubsanPrint (x : Print Unit) : Ubsan Unit := fun st =>
  match x st.print with
  | .ok a print => .ok a { st with print := print }
  | .error e print => .error (.print e) { st with print := print }

/-- `while (__atomic_test_and_set(&sl->lock, ...))` -/
def ubsanSpinLock : Nat → Ubsan Unit
  | 0 => throw (.print .outOfBudget)
  | budget + 1 => do
      let st ← get
      if st.locked then ubsanSpinLock budget else set { st with locked := true }

def ubsanSpinUnlock : Ubsan Unit := modify fun st => { st with locked := false }

def ubsanArchAbort : Ubsan Unit := throw .aborted

def ubsanPrintLocation (budget : Nat) (loc : Option UbsanSourceLocation) : Print Unit :=
  match loc with
  | some ⟨some filename, line, column⟩ =>
      drtPrintf budget (bytesOf "%s:%u:%u") [.str (some filename), .int line, .int column]
  | _ => drtPuts (bytesOf "<unknown>")

def ubsanPrintType (td : Option UbsanTypeDescriptor) : Print Unit :=
  match td with
  | some td => drtPuts td.typeName
  | none => drtPuts (bytesOf "<unknown type>")

/-- `UBSAN_HANDLE`, with `data->location` and the stack `drt_arch_capture_stack_trace` captures. -/
def ubsanHandle (budget : Nat) (name fmt : String) (args : List VaArg)
    (location : Option UbsanSourceLocation) (st : DrtStackTrace) : Ubsan Unit := do
  ubsanSpinLock budget
  ubsanPrint (drtPrintf budget
    (bytesOf "\n==UBSAN: " ++ bytesOf name ++ bytesOf "==\n  Location: ") [])
  ubsanPrint (ubsanPrintLocation budget location)
  ubsanPrint (drtPuts (bytesOf "\n"))
  ubsanPrint (drtPrintf budget (bytesOf fmt) args)
  ubsanPrint (drtPuts (bytesOf "\n"))
  ubsanPrint (drtPrintStackTrace budget st)
  ubsanSpinUnlock
  ubsanArchAbort

/-! ### Handlers that name a type -/

/-- `UBSAN_HANDLE(name, fmt, ...); ubsan_print_type(type);` -/
def ubsanHandleType (budget : Nat) (name fmt : String) (args : List VaArg)
    (location : Option UbsanSourceLocation) (type : Option UbsanTypeDescriptor)
    (st : DrtStackTrace) : Ubsan Unit := do
  ubsanHandle budget name fmt args location st
  ubsanPrint (ubsanPrintType type)

structure UbsanTypeMismatchData where
  location : Option UbsanSourceLocation
  type : Option UbsanTypeDescriptor

def ubsanHandleTypeMismatch (budget : Nat) (data : UbsanTypeMismatchData) (pointer : Addr)
    (st : DrtStackTrace) : Ubsan Unit :=
  ubsanHandleType budget "type mismatch" "  Pointer: %p  Type: " [.ptr pointer]
    data.location data.type st

structure UbsanTypeMismatchDataV1 where
  location : Option UbsanSourceLocation
  type : Option UbsanTypeDescriptor
  alignment : BitVec 8
  typeCheckKind : BitVec 8

/-- The two `uint8_t` fields are promoted to `int`. -/
def ubsanHandleTypeMismatchV1 (budget : Nat) (data : UbsanTypeMismatchDataV1) (pointer : Addr)
    (st : DrtStackTrace) : Ubsan Unit :=
  ubsanHandleType budget "type mismatch v1"
    "  Pointer: %p  Alignment: %u  Type check kind: %u  Type: "
    [.ptr pointer, .int (data.alignment.setWidth 32), .int (data.typeCheckKind.setWidth 32)]
    data.location data.type st

structure UbsanOverflowData where
  location : Option UbsanSourceLocation
  type : Option UbsanTypeDescriptor

def ubsanHandleAddOverflow (budget : Nat) (data : UbsanOverflowData) (st : DrtStackTrace) :
    Ubsan Unit :=
  ubsanHandleType budget "add overflow" "  Type: " [] data.location data.type st

def ubsanHandleSubOverflow (budget : Nat) (data : UbsanOverflowData) (st : DrtStackTrace) :
    Ubsan Unit :=
  ubsanHandleType budget "sub overflow" "  Type: " [] data.location data.type st

def ubsanHandleMulOverflow (budget : Nat) (data : UbsanOverflowData) (st : DrtStackTrace) :
    Ubsan Unit :=
  ubsanHandleType budget "mul overflow" "  Type: " [] data.location data.type st

def ubsanHandleNegateOverflow (budget : Nat) (data : UbsanOverflowData) (st : DrtStackTrace) :
    Ubsan Unit :=
  ubsanHandleType budget "negate overflow" "  Type: " [] data.location data.type st

def ubsanHandleDivremOverflow (budget : Nat) (data : UbsanOverflowData) (st : DrtStackTrace) :
    Ubsan Unit :=
  ubsanHandleType budget "divrem overflow" "  Type: " [] data.location data.type st

structure UbsanVlaBoundData where
  location : Option UbsanSourceLocation
  type : Option UbsanTypeDescriptor

def ubsanHandleVlaBoundNotPositive (budget : Nat) (data : UbsanVlaBoundData)
    (st : DrtStackTrace) : Ubsan Unit :=
  ubsanHandleType budget "VLA bound not positive" "  Type: " [] data.location data.type st

structure UbsanInvalidValueData where
  location : Option UbsanSourceLocation
  type : Option UbsanTypeDescriptor
  kind : BitVec 8

def ubsanHandleInvalidValue (budget : Nat) (data : UbsanInvalidValueData) (st : DrtStackTrace) :
    Ubsan Unit :=
  ubsanHandleType budget "invalid value" "  Type: " [] data.location data.type st

def ubsanHandleInvalidBuiltin (budget : Nat) (data : UbsanInvalidValueData)
    (st : DrtStackTrace) : Ubsan Unit :=
  ubsanHandleType budget "invalid builtin" "  Kind: %u  Type: " [.int (data.kind.setWidth 32)]
    data.location data.type st

/-! ### Handlers that name two types -/

/-- `UBSAN_HANDLE(name, fmt, ...);`, then both types with a text between them. -/
def ubsanHandleTypes (budget : Nat) (name fmt : String) (args : List VaArg)
    (location : Option UbsanSourceLocation) (first : Option UbsanTypeDescriptor) (between : String)
    (second : Option UbsanTypeDescriptor) (st : DrtStackTrace) : Ubsan Unit := do
  ubsanHandle budget name fmt args location st
  ubsanPrint (ubsanPrintType first)
  ubsanPrint (drtPuts (bytesOf between))
  ubsanPrint (ubsanPrintType second)

structure UbsanShiftOutOfBoundsData where
  location : Option UbsanSourceLocation
  leftType : Option UbsanTypeDescriptor
  rightType : Option UbsanTypeDescriptor

def ubsanHandleShiftOutOfBounds (budget : Nat) (data : UbsanShiftOutOfBoundsData)
    (st : DrtStackTrace) : Ubsan Unit :=
  ubsanHandleTypes budget "shift out of bounds" "  Left type: " []
    data.location data.leftType "  Right type: " data.rightType st

structure UbsanOutOfBoundsData where
  location : Option UbsanSourceLocation
  arrayType : Option UbsanTypeDescriptor
  indexType : Option UbsanTypeDescriptor

def ubsanHandleOutOfBounds (budget : Nat) (data : UbsanOutOfBoundsData) (st : DrtStackTrace) :
    Ubsan Unit :=
  ubsanHandleTypes budget "out of bounds" "  Array type: " []
    data.location data.arrayType "  Index type: " data.indexType st

structure UbsanImplicitConversionData where
  location : Option UbsanSourceLocation
  fromType : Option UbsanTypeDescriptor
  toType : Option UbsanTypeDescriptor
  kind : BitVec 8

def ubsanHandleImplicitConversion (budget : Nat) (data : UbsanImplicitConversionData)
    (st : DrtStackTrace) : Ubsan Unit :=
  ubsanHandleTypes budget "implicit conversion" "  Kind: %u  From type: "
    [.int (data.kind.setWidth 32)] data.location data.fromType "  To type: " data.toType st

/-! ### The handler that names a location -/

structure UbsanNonnullArgData where
  location : Option UbsanSourceLocation
  attrLocation : Option UbsanSourceLocation
  argIndex : BitVec 32

def ubsanHandleNonnullArg (budget : Nat) (data : UbsanNonnullArgData) (st : DrtStackTrace) :
    Ubsan Unit := do
  ubsanHandle budget "non-null arg" "  Arg index: %d  Attribute location: " [.int data.argIndex]
    data.location st
  ubsanPrint (ubsanPrintLocation budget data.attrLocation)

/-! ### Calls -/

/-- A call of one of these handlers. -/
inductive UbsanCall where
  | typeMismatch (data : UbsanTypeMismatchData) (pointer : Addr)
  | typeMismatchV1 (data : UbsanTypeMismatchDataV1) (pointer : Addr)
  | addOverflow (data : UbsanOverflowData)
  | subOverflow (data : UbsanOverflowData)
  | mulOverflow (data : UbsanOverflowData)
  | negateOverflow (data : UbsanOverflowData)
  | divremOverflow (data : UbsanOverflowData)
  | shiftOutOfBounds (data : UbsanShiftOutOfBoundsData)
  | outOfBounds (data : UbsanOutOfBoundsData)
  | vlaBoundNotPositive (data : UbsanVlaBoundData)
  | invalidValue (data : UbsanInvalidValueData)
  | invalidBuiltin (data : UbsanInvalidValueData)
  | nonnullArg (data : UbsanNonnullArgData)
  | implicitConversion (data : UbsanImplicitConversionData)

def ubsanRun (budget : Nat) (call : UbsanCall) (st : DrtStackTrace) : Ubsan Unit :=
  match call with
  | .typeMismatch data pointer => ubsanHandleTypeMismatch budget data pointer st
  | .typeMismatchV1 data pointer => ubsanHandleTypeMismatchV1 budget data pointer st
  | .addOverflow data => ubsanHandleAddOverflow budget data st
  | .subOverflow data => ubsanHandleSubOverflow budget data st
  | .mulOverflow data => ubsanHandleMulOverflow budget data st
  | .negateOverflow data => ubsanHandleNegateOverflow budget data st
  | .divremOverflow data => ubsanHandleDivremOverflow budget data st
  | .shiftOutOfBounds data => ubsanHandleShiftOutOfBounds budget data st
  | .outOfBounds data => ubsanHandleOutOfBounds budget data st
  | .vlaBoundNotPositive data => ubsanHandleVlaBoundNotPositive budget data st
  | .invalidValue data => ubsanHandleInvalidValue budget data st
  | .invalidBuiltin data => ubsanHandleInvalidBuiltin budget data st
  | .nonnullArg data => ubsanHandleNonnullArg budget data st
  | .implicitConversion data => ubsanHandleImplicitConversion budget data st

/-! ### The other handlers -/

structure UbsanPointerOverflowData where
  location : Option UbsanSourceLocation

/-- There is nothing behind the macro. -/
def ubsanHandlePointerOverflow (budget : Nat) (data : UbsanPointerOverflowData)
    (base result : Addr) (st : DrtStackTrace) : Ubsan Unit :=
  ubsanHandle budget "pointer overflow" "  Base: %p  Result: %p" [.ptr base, .ptr result]
    data.location st

/-- The location is a field and no pointer. -/
structure UbsanFunctionTypeMismatchData where
  location : UbsanSourceLocation
  type : Option UbsanTypeDescriptor

/-- Without the macro, and with the type in front of the stack. -/
def ubsanHandleFunctionTypeMismatch (budget : Nat) (data : UbsanFunctionTypeMismatchData)
    (st : DrtStackTrace) : Ubsan Unit := do
  ubsanSpinLock budget
  ubsanPrint (drtPrintf budget (bytesOf "\n==UBSAN: function type mismatch==\n  Location: ") [])
  ubsanPrint (ubsanPrintLocation budget (some data.location))
  ubsanPrint (drtPuts (bytesOf "\n  Type: "))
  ubsanPrint (ubsanPrintType data.type)
  ubsanPrint (drtPuts (bytesOf "\n"))
  ubsanPrint (drtPrintStackTrace budget st)
  ubsanSpinUnlock
  ubsanArchAbort

def ubsanHandleBuiltinUnreachable (budget : Nat) (loc : Option UbsanSourceLocation)
    (st : DrtStackTrace) : Ubsan Unit := do
  ubsanSpinLock budget
  ubsanPrint (drtPrintf budget (bytesOf "\n==UBSAN: builtin unreachable==\n  Location: ") [])
  ubsanPrint (ubsanPrintLocation budget loc)
  ubsanPrint (drtPuts (bytesOf "\n"))
  ubsanPrint (drtPrintStackTrace budget st)
  ubsanSpinUnlock
  ubsanArchAbort

structure UbsanFloatCastOverflowData where
  location : UbsanSourceLocation
  fromType : Option UbsanTypeDescriptor
  toType : Option UbsanTypeDescriptor

/-- The one handler that returns, and the one that does not take the lock. -/
def ubsanHandleFloatCastOverflow (budget : Nat) (data : UbsanFloatCastOverflowData) :
    Print Unit := do
  ubsanPrintLocation budget (some data.location)
  drtPuts (bytesOf "float cast overflow: From type: ")
  ubsanPrintType data.fromType
  drtPuts (bytesOf " To type: ")
  ubsanPrintType data.toType
  drtPuts (bytesOf "\n")

def ubsanHandleFloatCastOverflowAbort (budget : Nat) (data : UbsanFloatCastOverflowData) :
    Ubsan Unit := do
  ubsanPrint (ubsanHandleFloatCastOverflow budget data)
  ubsanArchAbort

/-- A call of any handler that takes the lock. -/
inductive UbsanLockedCall where
  | handler (call : UbsanCall)
  | pointerOverflow (data : UbsanPointerOverflowData) (base result : Addr)
  | functionTypeMismatch (data : UbsanFunctionTypeMismatchData)
  | builtinUnreachable (loc : Option UbsanSourceLocation)

def ubsanLockedRun (budget : Nat) (call : UbsanLockedCall) (st : DrtStackTrace) : Ubsan Unit :=
  match call with
  | .handler call => ubsanRun budget call st
  | .pointerOverflow data base result => ubsanHandlePointerOverflow budget data base result st
  | .functionTypeMismatch data => ubsanHandleFunctionTypeMismatch budget data st
  | .builtinUnreachable loc => ubsanHandleBuiltinUnreachable budget loc st

end Misan
