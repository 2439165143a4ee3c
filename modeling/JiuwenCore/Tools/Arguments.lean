import JiuwenCore.Core.HistoryStore
import JiuwenCore.Utils.ToolParser

/-!
# Reading the arguments of a tool

The file tools and the shell tool look for their arguments in the text of the call. A value
is what follows the first colon behind the first `"key"` of the text. The copies of the
readers differ in what they make of an escape, and in how they read a boolean.
-/

namespace JiuwenCore.Tools

open HistoryStore (stoi)

/-- Where the value behind the first `"key"` starts. -/
def valueOf (json key : Str) : Option Str :=
  let searchKey := 34 :: key ++ [34]
  match findFrom searchKey json 0 with
  | none => none
  | some keyPos =>
      match findFrom [58] json (keyPos + searchKey.length) with
      | none => none
      | some colonPos => (findNonBlank json (colonPos + 1)).map fun valStart => json.drop valStart

/-- A string up to its quote, each escape as `escaped` has it. A backslash that ends the text
stays, and so does a text without an end. -/
def scanString (escaped : UInt8 → Str) : Str → Str
  | 92 :: c :: rest => escaped c ++ scanString escaped rest
  | 34 :: _ => []
  | c :: rest => c :: scanString escaped rest
  | [] => []

/-- The string at the front; empty where something else is. -/
def scanValue (escaped : UInt8 → Str) : Option Str → Str
  | some (34 :: rest) => scanString escaped rest
  | _ => []

def parseInt (json key : Str) (defaultVal : Int) : Int :=
  ((valueOf json key).bind stoi).getD defaultVal

def boolOf (val : Str) (defaultVal : Bool) : Bool :=
  if val = lit "true" then true else if val = lit "false" then false else defaultVal

/-- An escape as it is written. -/
def escapeWritten (c : UInt8) : Str := [92, c]

/-- An escape without its backslash. -/
def escapeDropped (c : UInt8) : Str := [c]

/-- The escapes that `edit_file` knows; the others lose their backslash. -/
def escapeDecoded (c : UInt8) : Str := if c = 110 then [10] else if c = 116 then [9] else [c]

namespace ReadFileTool

def parseStringField (json key : Str) : Str := scanValue escapeWritten (valueOf json key)

def parseIntField (json key : Str) (defaultVal : Int) : Int := parseInt json key defaultVal

end ReadFileTool

namespace ExecTool

def parseStringField (json key : Str) : Str := scanValue escapeWritten (valueOf json key)

def parseIntField (json key : Str) (defaultVal : Int) : Int := parseInt json key defaultVal

end ExecTool

namespace GrepTool

def parseStringField (json key : Str) : Str := scanValue escapeWritten (valueOf json key)

def parseIntField (json key : Str) (defaultVal : Int) : Int := parseInt json key defaultVal

def parseBoolField (json key : Str) (defaultVal : Bool) : Bool :=
  boolOf (parseStringField json key) defaultVal

end GrepTool

namespace WriteFileTool

def parseStringField (json key : Str) : Str := scanValue escapeWritten (valueOf json key)

end WriteFileTool

namespace EditFileTool

/-- A value that starts with a `t` or an `f` is read as a boolean, for every key. -/
def parseStringField (json key : Str) : Str :=
  match valueOf json key with
  | some (116 :: _) => lit "true"
  | some (102 :: _) => lit "false"
  | value => scanValue escapeDecoded value

def parseBoolField (json key : Str) (defaultVal : Bool) : Bool :=
  boolOf (parseStringField json key) defaultVal

end EditFileTool

end JiuwenCore.Tools
