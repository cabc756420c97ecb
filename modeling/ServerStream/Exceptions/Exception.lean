import Mathlib.Data.Nat.Notation

/-!
# The exceptions of the program

`exceptions::Exception` and the classes derived from it, by the constructor they
are built with. The stack trace is not part of the model.
-/

namespace ServerStream

namespace Exceptions

/-- `exceptions::Exception` and its subclasses. -/
inductive Exception
  | exception (message : String)
  | invalidJsonConfig (key expected : String)
  | returnValue (functionName rcode : String)
  | avError (errnum : Int)
  | avErrorWith (errnum : Int) (prev : Exception)
  deriving DecidableEq, Repr

/-- `ReturnValueException(functionName, rcode)` for a numeric code. -/
def returnCode (functionName : String) (rcode : Int) : Exception :=
  .returnValue functionName (toString rcode)

end Exceptions

end ServerStream
