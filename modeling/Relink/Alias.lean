import Relink.Json.Value
import Relink.Path.Flavour

namespace Relink

structure Alias where
  stem : Text
  directory : Text
  deriving DecidableEq

namespace Alias

def stripReversed : Text → Text
  | '*' :: '/' :: rest => rest
  | '/' :: rest => rest
  | text => text

/-- Drops a slash at the end, or a slash and a star; a line feed may stand behind them. -/
def stripWildcard (pattern : Text) : Text :=
  match pattern.reverse with
  | '\n' :: rest => (stripReversed rest).reverse ++ [.char '\n']
  | rest => (stripReversed rest).reverse

/-- What follows the stem in a specifier; none when the stem does not cover whole segments. -/
def rest? (entry : Alias) (specifier : Text) : Option Text :=
  if specifier = entry.stem then some []
  else if (entry.stem ++ [.char '/'] : Text).isPrefixOf specifier then
    some (specifier.drop entry.stem.length)
  else none

inductive Fault
  | notList (key : Text)
  | notSingle (key : Text) (count : Nat)
  | notText (key : Text)
  deriving DecidableEq

def Fault.message : Fault → Text
  | .notList key => "Expected path to be a list of one entry at " ++ key
  | .notSingle key count =>
    "Expected path to have only one entry, found " ++ Text.ofNat count ++ " at " ++ key
  | .notText key => "Expected path to be a text at " ++ key

def ofMapping (flavour : Flavour) (base key : Text) : Json → Except Fault Alias
  | .array [.string target] =>
    .ok ⟨stripWildcard key, flavour.normalize (flavour.join base (stripWildcard target))⟩
  | .array [_] => .error (.notText key)
  | .array targets => .error (.notSingle key targets.length)
  | _ => .error (.notList key)

end Alias

structure AliasTable where
  entries : List Alias
  deriving DecidableEq

namespace AliasTable

def ofEntries (entries : List Alias) : AliasTable :=
  ⟨entries.mergeSort fun a b => b.stem.length ≤ a.stem.length⟩

def build (flavour : Flavour) (base : Text) (mapping : Fields Json) :
    Except Alias.Fault AliasTable :=
  (mapping.mapM fun (key, targets) => Alias.ofMapping flavour base key targets).map ofEntries

/-- The directory of a stem; of several, the one given last. -/
def lookup (table : AliasTable) (stem : Text) : Option Text :=
  (table.entries.reverse.find? (·.stem = stem)).map (·.directory)

def match? (table : AliasTable) (specifier : Text) : Option (Alias × Text) :=
  table.entries.findSome? fun entry => (entry.rest? specifier).map (entry, ·)

end AliasTable

end Relink
