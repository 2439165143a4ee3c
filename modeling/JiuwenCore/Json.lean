import JiuwenCore.Text

/-!
# JSON values

The values of the JSON library and the accessors the models call on them. An
accessor that throws in the library returns `none` here. The library is not part
of the repository: its parser, its printer and its conversion of floating-point
numbers are the fields of `JsonLib`, over which everything is stated.
-/

namespace JiuwenCore

inductive Json where
  | null
  | bool (b : Bool)
  | int (i : Int)
  | float (bits : UInt64)
  | str (s : Str)
  | arr (items : List Json)
  | obj (members : List (Str × Json))
  deriving Inhabited

/-- The entry points of the JSON library. -/
structure JsonLib where
  /-- `json::parse`, `none` where it throws. -/
  parse : Str → Option Json
  /-- `dump()`, `none` where it throws. -/
  dump : Json → Option Str
  /-- `dump(indent)`, `none` where it throws. -/
  dumpIndented : Nat → Json → Option Str
  /-- `static_cast<int>` of a stored `double`. -/
  floatToInt : UInt64 → Int32

namespace Json

/-- The member under `key`, if the value is an object that has one. -/
def member (key : Str) : Json → Option Json
  | obj members => (members.find? fun entry => entry.1 = key).map (·.2)
  | _ => none

def contains (j : Json) (key : Str) : Bool := (j.member key).isSome

/-- Non-const `operator[]` on an object: a missing key reads as `null`. -/
def memberOrNull (j : Json) (key : Str) : Json := (j.member key).getD null

def isObject : Json → Bool
  | obj _ => true
  | _ => false

/-- `push_back` on a value of any kind: throws on all but arrays and `null`. -/
def pushBack : Json → Json → Option Json
  | arr items, item => some (arr (items ++ [item]))
  | null, item => some (arr [item])
  | _, _ => none

/-- `get<std::string>()`. -/
def getString : Json → Option Str
  | str s => some s
  | _ => none

/-- The string under `key`: `contains(key)` and then `is_string()` on the member. -/
def stringMember (j : Json) (key : Str) : Option Str := (j.member key).bind getString

/-- `get<int>()`: integers wrap, Booleans count as 0 and 1. -/
def getInt (lib : JsonLib) : Json → Option Int32
  | int i => some (Int32.ofInt i)
  | float bits => some (lib.floatToInt bits)
  | bool b => some (if b then 1 else 0)
  | _ => none

/-- `value(key, default)`: throws on anything but an object, and on a member of
another type. -/
def value {α : Type} (get : Json → Option α) (key : Str) (default : α) : Json → Option α
  | obj members =>
      match (obj members).member key with
      | some j => get j
      | none => some default
  | _ => none

end Json

end JiuwenCore
