import JiuwenCore.Text

/-!
# Tool calls in plain text

`ExtractAllToolCalls` and what it needs. `std::string` positions are counted from
the front, and a search that finds nothing answers `none`; where the source adds
one to such an answer it starts again at the front.
-/

namespace JiuwenCore

structure ParsedToolCall where
  name : Str
  arguments : Str
  deriving DecidableEq, Repr

/-! ## Searching -/

/-- The position of the first occurrence of a text. -/
@[grind =] def indexOf (needle : Str) : Str → Option Nat
  | [] => if needle = [] then some 0 else none
  | c :: rest =>
      if needle.isPrefixOf (c :: rest) then some 0 else (indexOf needle rest).map (· + 1)

/-- `find(needle, pos)`. -/
def findFrom (needle str : Str) (pos : Nat) : Option Nat :=
  if pos ≤ str.length then (indexOf needle (str.drop pos)).map (· + pos) else none

/-- `find_first_not_of(" \t", pos)`. -/
def findNonBlank (str : Str) (pos : Nat) : Option Nat :=
  ((str.drop pos).findIdx? fun c => c ≠ 32 ∧ c ≠ 9).map (· + pos)

/-- `substr(pos, count)`. -/
def substr (str : Str) (pos count : Nat) : Str := (str.drop pos).take count

/-! ## JSON objects -/

/-- The number of bytes up to the brace that closes the object, if there is one. -/
def closingBrace : Nat → Bool → Str → Option Nat
  | depth, inString, 92 :: _ :: rest => (closingBrace depth inString rest).map (· + 2)
  | depth, inString, c :: rest =>
      let inString := if c = 34 then !inString else inString
      if inString then (closingBrace depth inString rest).map (· + 1)
      else if c = 123 then (closingBrace (depth + 1) inString rest).map (· + 1)
      else if c = 125 then
        if depth = 1 then some 1 else (closingBrace (depth - 1) inString rest).map (· + 1)
      else (closingBrace depth inString rest).map (· + 1)
  | _, _, [] => none

/-- `ExtractJson` at the front of the text; empty where there is no object. -/
def extractJson (text : Str) : Str :=
  if text.head? = some 123 then
    match closingBrace 0 false text with
    | some length => text.take length
    | none => []
  else []

/-! ## Calls -/

/-- The position of the first byte of the value behind a key that ends at `keyEnd`. -/
def valueStart (jsonStr : Str) (keyEnd : Nat) : Option Nat :=
  match findFrom [58] jsonStr keyEnd with
  | some colon => findNonBlank jsonStr (colon + 1)
  | none => findNonBlank jsonStr 0

/-- The text of the string that starts at `valStart`, without its quotes. -/
def quotedText (jsonStr : Str) (valStart : Nat) : Option Str :=
  if jsonStr[valStart]? = some 34 then
    (findFrom [34] jsonStr (valStart + 1)).map fun valEnd =>
      substr jsonStr (valStart + 1) (valEnd - valStart - 1)
  else none

def nameValue (jsonStr : Str) (nameKey : Nat) : Str :=
  ((valueStart jsonStr (nameKey + 6)).bind (quotedText jsonStr)).getD []

def argumentsValue (jsonStr : Str) (argsKey : Nat) : Str :=
  match valueStart jsonStr (argsKey + 11) with
  | none => lit "\x7b\x7d"
  | some valStart =>
      if jsonStr[valStart]? = some 123 then
        let argsObj := extractJson (jsonStr.drop valStart)
        if argsObj = [] then lit "\x7b\x7d" else argsObj
      else
        match quotedText jsonStr valStart with
        | some text => [34] ++ text ++ [34]
        | none => lit "\x7b\x7d"

/-- The call an object describes, if it has both keys and a plausible name. -/
def parseToolCall (jsonStr : Str) : Option ParsedToolCall :=
  match indexOf (lit "\"name\"") jsonStr, indexOf (lit "\"arguments\"") jsonStr with
  | some nameKey, some argsKey =>
      let call : ParsedToolCall :=
        { name := nameValue jsonStr nameKey, arguments := argumentsValue jsonStr argsKey }
      if call.name ≠ [] ∧ call.name.length < 50 ∧ 123 ∉ call.name ∧ 125 ∉ call.name then
        some call
      else none
  | _, _ => none

/-- The loop of `ExtractAllToolCalls`, with the rest of an object still to be passed. -/
@[grind =] def extractFrom : Nat → Str → List ParsedToolCall
  | _, [] => []
  | passing + 1, _ :: rest => extractFrom passing rest
  | 0, c :: rest =>
      match extractJson (c :: rest) with
      | [] => extractFrom 0 rest
      | jsonStr => (parseToolCall jsonStr).toList ++ extractFrom (jsonStr.length - 1) rest

def extractAllToolCalls (response : Str) : List ParsedToolCall := extractFrom 0 response

/-- `TrimStr`: without the blanks, tabs and line ends around it. -/
def trimStr (str : Str) : Str :=
  let blank := fun c : UInt8 => c = 32 ∨ c = 9 ∨ c = 13 ∨ c = 10
  ((str.dropWhile blank).reverse.dropWhile blank).reverse

end JiuwenCore
