import Relink.Path.Component
import Relink.Text.Lowercase

namespace Relink.Path.Windows

def isSeparator (c : CodePoint) : Bool := c == '\\' || c == '/'

def backslashes (path : Text) : Text := path.map fun (c : CodePoint) => if c == '/' then '\\' else c

def fold (text : Text) : Text := (backslashes text).lower

def shareMark : Text := "\\\\?\\UNC\\"

/-- Splits behind a share, given how many characters stand in front of its host. A path that ends
within the share is all share. -/
def splitShare (start : Nat) (path : Text) : Text × Text :=
  match (path.drop start).dropWhile (!isSeparator ·) with
  | [] => (path, [])
  | _ :: rest =>
    match rest.dropWhile (!isSeparator ·) with
    | [] => (path, [])
    | tail => (path.take (path.length - tail.length), tail)

def splitDrive (path : Text) : Text × Text :=
  match path with
  | a :: b :: rest =>
    if isSeparator a && isSeparator b then
      let marked := (backslashes (path.take 8)).map CodePoint.toUpper == shareMark
      splitShare (if marked then 8 else 2) path
    else if b == ':' then ([a, b], rest)
    else ([], path)
  | _ => ([], path)

def startsAtRoot (path : Text) : Bool := path.head?.any isSeparator

def isAbsolute (path : Text) : Bool :=
  startsAtRoot path ||
    match path with
    | _ :: ':' :: c :: _ => isSeparator c
    | _ => false

def join (path more : Text) : Text :=
  let (drive, rest) := splitDrive path
  let (drive', rest') := splitDrive more
  let under (drive : Text) : Text × Text :=
    let gap := rest ≠ [] && !rest.getLast?.any isSeparator
    (drive, rest ++ (if gap then .char '\\' :: rest' else rest'))
  let (drive, rest) :=
    if startsAtRoot rest' then (if drive' ≠ [] ∨ drive = [] then drive' else drive, rest')
    else if drive' = [] ∨ drive' = drive then under drive
    else if drive'.lower = drive.lower then under drive'
    else (drive', rest')
  let share := drive ≠ [] && drive.getLast? ≠ some (.char ':')
  if rest ≠ [] && !startsAtRoot rest && share then drive ++ .char '\\' :: rest else drive ++ rest

def components (path : Text) : List Text := path.splitOn '\\'

def normalize (path : Text) : Text :=
  let (drive, rest) := splitDrive (backslashes path)
  let root := if startsAtRoot rest then drive ++ [.char '\\'] else drive
  let rooted := root.getLast? = some (.char '\\')
  let text := root ++ Text.joinWith ['\\'] (collapse rooted (components rest))
  if text = [] then ['.'] else text

def absolute (workingDirectory path : Text) : Text :=
  normalize (if isAbsolute path then path else join workingDirectory path)

def relative? (workingDirectory target start : Text) : Option Text :=
  let split (path : Text) := splitDrive (absolute workingDirectory (normalize path))
  let (drive, rest) := split start
  let (drive', rest') := split target
  let names (rest : Text) := (components rest).filter (· ≠ [])
  if target = [] ∨ fold drive ≠ fold drive' then none
  else
    match steps (fun a b => fold a = fold b) (names rest) (names rest') with
    | [] => some ['.']
    | first :: parts => some (parts.foldl join first)

def split (path : Text) : Text × Text :=
  let (drive, rest) := splitDrive path
  let (head, name) := rest.splitAfterLast isSeparator
  (drive ++ (if head.all isSeparator then head else head.trimRight isSeparator), name)

def dirname (path : Text) : Text := (split path).1

def splitExtension (path : Text) : Text × Text := Path.splitExtension isSeparator path

end Relink.Path.Windows
