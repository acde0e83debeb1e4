import Mathlib.Tactic

/-!
# The Python runtime seen from the extension modules

Exceptions with the texts the wrappers give them, the two bytes types, and the C limits the
wrappers test against.
-/

set_option autoImplicit false

namespace PythonLz4.Runtime

/-- `INT_MAX`. -/
def INT_MAX : Nat := 2147483647

/-- The size of the address space: no object is larger or lies behind it. -/
def ADDRESS_SPACE : Nat := 2 ^ 48

/-- The exception classes the extension modules raise. -/
inductive PyExc where
  | OverflowError
  | ValueError
  | RuntimeError
  | MemoryError
  | EOFError
  | NotImplementedError
  | LZ4BlockError
  | LZ4StreamError
  deriving DecidableEq, Repr

/-- A raised exception. -/
structure PyErr where
  exc : PyExc
  msg : String
  deriving DecidableEq, Repr

/-- `PyErr_NoMemory ()`. -/
def PyErr_NoMemory : PyErr := ⟨.MemoryError, ""⟩

/-- A `bytes` object, or a `bytearray` where the caller asked for one. -/
structure PyBytes where
  isByteArray : Bool
  data : List UInt8
  deriving DecidableEq, Repr

end PythonLz4.Runtime
