import Mathlib.Data.Nat.Notation

/-!
# JSON documents

The documents that a queue message carries, as far as the application reads
them: members of objects, and the tests and conversions for the types it asks for.
The functions stand for those of ArduinoJson and do what its documentation says of
them: a missing member, and a member of something that is not an object, is `null`,
and `is<T>` holds of the values that `as<T>` converts.
-/

namespace ServerStream

/-- A JSON value; a number without fraction is an `int` of any size. -/
inductive Json
  | null
  | bool (value : Bool)
  | int (value : Int)
  | float (text : String)
  | string (value : String)
  | array (values : List Json)
  | object (members : List (String × Json))

namespace Json

/-- `value[key]`. -/
def get (key : String) : Json → Json
  | object members => (members.lookup key).getD null
  | _ => null

/-- `value.is<const char *>()` and `value.as<const char *>()`. -/
def asString : Json → Option String
  | string value => some value
  | _ => none

/-- `value.is<int>()` and `value.as<int>()`: an integer that fits 32 bits. -/
def asInt : Json → Option Int
  | int value =>
      if -2147483648 ≤ value ∧ value ≤ 2147483647 then some value else none
  | _ => none

/-- `value.is<bool>()` and `value.as<bool>()`. -/
def asBool : Json → Option Bool
  | bool value => some value
  | _ => none

/-- `value.is<float>()` and `std::abs(value.as<float>())`; a number with a
fraction is its text, here without the sign. -/
def asAbsFloat : Json → Option Json
  | int value => some (int value.natAbs)
  | float text => some (float (String.ofList (text.toList.dropWhile (· = '-'))))
  | _ => none

/-- `value.as<JsonObject>()`, which is null unless the value is an object. -/
def asObject : Json → Json
  | object members => object members
  | _ => null

/-- `value.isNull()`. -/
def isNull : Json → Bool
  | null => true
  | _ => false

end Json

end ServerStream
