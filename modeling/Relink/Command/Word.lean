import Relink.Command.Flag
import Relink.Text.Digit

namespace Relink.Command

structure Attached where
  byEquals : Bool
  text : Text
  deriving DecidableEq

structure Given where
  flag : Flag
  isLong : Bool
  attached : Option Attached
  deriving DecidableEq

inductive Role
  | operand
  | separator
  | flag (given : Given)
  | unknown
  deriving DecidableEq

structure Word where
  text : Text
  role : Role
  deriving DecidableEq

namespace Word

def startsLong (text : Text) : Bool := ("--" : Text).isPrefixOf text

def isNegativeNumber (text : Text) : Bool :=
  let text := if text.getLast? = some (.char '\n') then text.dropLast else text
  match text with
  | '-' :: digits =>
    match digits.span isDecimalDigit with
    | (whole, []) => !whole.isEmpty
    | (_, '.' :: decimals) => !decimals.isEmpty && decimals.all isDecimalDigit
    | _ => false
  | _ => false

def atEquals (text : Text) : Text × Option Attached :=
  match text.span (· != .char '=') with
  | (name, '=' :: value) => (name, some ⟨true, value⟩)
  | (name, _) => (name, none)

/-- The spellings that a word may stand for: a long flag may be cut short, and a short one may have
its value, or further flags, behind it. -/
def readings (scope : Scope) (text : Text) : List (Text × Given) :=
  if startsLong text then
    let (start, attached) := atEquals text
    scope.spellings.filterMap fun (name, flag) =>
      if start.isPrefixOf name then some (name, ⟨flag, startsLong name, attached⟩) else none
  else
    scope.spellings.filterMap fun (name, flag) =>
      if name = text.take 2 then some (name, ⟨flag, false, some ⟨false, text.drop 2⟩⟩) else none

def roleOf (scope : Scope) (text : Text) : Except (List Text) Role :=
  if text.head? ≠ some (.char '-') then .ok .operand
  else
    match scope.spellings.lookup text with
    | some flag => .ok (.flag ⟨flag, startsLong text, none⟩)
    | none =>
      if text.length = 1 then .ok .operand
      else
        let (name, attached) := atEquals text
        match attached.bind fun _ => scope.spellings.lookup name with
        | some flag => .ok (.flag ⟨flag, startsLong name, attached⟩)
        | none =>
          match readings scope text with
          | [(_, given)] => .ok (.flag given)
          | [] =>
            if isNegativeNumber text || text.contains ' ' then .ok .operand else .ok .unknown
          | several => .error (several.map (·.1))

def ofTexts (scope : Scope) : List Text → Except (Text × List Text) (List Word)
  | [] => .ok []
  | text :: rest =>
    if text = "--" then .ok (⟨text, .separator⟩ :: rest.map (⟨·, .operand⟩))
    else
      match roleOf scope text with
      | .error several => .error (text, several)
      | .ok role => (ofTexts scope rest).map (⟨text, role⟩ :: ·)

def isFlag (word : Word) : Bool :=
  match word.role with
  | .flag _ | .unknown => true
  | .operand | .separator => false

end Word

end Relink.Command
