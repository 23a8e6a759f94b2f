import Stencil.Json.Writer
import Stencil.Options.Json
import Stencil.Page

/-!
Rendering for callers that pass bytes which end at a NUL, or nothing at all. The
answer is a text that can be handed back in the same form, or a report of the
first thing that is wrong.
-/

namespace Stencil.Foreign

/-- The arguments of a call. -/
structure Call where
  template : Option (List UInt8)
  data : Option (List UInt8)
  /-- Nothing stands for the default options. -/
  options : Option (List UInt8)

/-- The text of an argument: its bytes up to the first NUL. -/
def readText : Option (List UInt8) → Except Error String
  | none => .error (.input .missingText)
  | some bytes =>
    (Text.Utf8.decode (bytes.takeWhile (· ≠ 0))).mapError fun fault => .input (.notUtf8 fault)

/-- The options of an argument. -/
def readOptions : Option (List UInt8) → Except Error Options
  | none => .ok {}
  | argument => do (Options.ofText (← readText argument)).mapError .config

/-- A text that holds no NUL. -/
def checkNul (text : String) : Except Error String :=
  let front := text.toList.takeWhile (· ≠ '\x00')
  if front.length = text.toList.length then .ok text
  else .error (.input (.nulByte (Text.byteLength front)))

/-- The rendered text of a call. -/
def render (call : Call) : Except Error String := do
  let template ← readText call.template
  let data ← readData (← readText call.data)
  let options ← readOptions call.options
  let page ← Page.parseWith options template
  checkNul (← page.renderJson data)

/-- What is told about an error. Lines and columns count from one. -/
structure Report where
  kind : String
  message : String
  line : Option Nat
  column : Option Nat
  deriving DecidableEq

namespace Report

/-- Only errors in a template's structure and in JSON data have a place. -/
def ofError (error : Error) : Report :=
  let (line, column) :=
    match error with
    | .parse e => (some (e.position.line + 1), some (e.position.column + 1))
    | .json fault => (some fault.mark.line, some fault.mark.column)
    | _ => (none, none)
  ⟨error.kindName, error.message, line, column⟩

def json (r : Report) : Json :=
  let number : Option Nat → Json
    | some n => .number (.integer n)
    | none => .null
  .object [("type", .string r.kind), ("message", .string r.message),
    ("line", number r.line), ("column", number r.column)]

end Report

/-- The two answers of a call: the text, and the report of an error as JSON. -/
structure Answer where
  text : Option String
  report : Option String
  deriving DecidableEq

/-- Answers a call. A caller without a place for reports gets none, nor can a report be
handed back that holds a NUL. -/
def answer (call : Call) (wantsReport : Bool) : Answer :=
  match render call with
  | .ok text => ⟨some text, none⟩
  | .error error =>
    ⟨none,
      if wantsReport then (checkNul (Report.ofError error).json.write).toOption else none⟩

end Stencil.Foreign
