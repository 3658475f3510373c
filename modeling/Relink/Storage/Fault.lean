import Relink.Text.Quoted
import Relink.Text.Utf8

namespace Relink

inductive FaultKind
  | notFound
  | notDirectory
  | isDirectory
  | alreadyExists
  | permission
  | tooManyLinks
  | nameTooLong
  | unusableName
  | unencodable (unencodable : Utf8.Unencodable)
  deriving DecidableEq

structure Fault where
  kind : FaultKind
  message : Text
  deriving DecidableEq

def FaultKind.number? : FaultKind → Option Nat
  | .notFound => some 2
  | .notDirectory => some 20
  | .isDirectory => some 21
  | .alreadyExists => some 17
  | .permission => some 13
  | .tooManyLinks => some 40
  | .nameTooLong => some 36
  | .unusableName | .unencodable _ => none

def FaultKind.phrase : FaultKind → Text
  | .notFound => "No such file or directory"
  | .notDirectory => "Not a directory"
  | .isDirectory => "Is a directory"
  | .alreadyExists => "File exists"
  | .permission => "Permission denied"
  | .tooManyLinks => "Too many levels of symbolic links"
  | .nameTooLong => "File name too long"
  | .unusableName => "embedded null byte"
  | .unencodable u => u.message

def Fault.at (kind : FaultKind) (path : Text) : Fault where
  kind := kind
  message :=
    match kind.number? with
    | some number => "[Errno " ++ Text.ofNat number ++ "] " ++ kind.phrase ++ ": " ++ path.quoted
    | none => kind.phrase

inductive ReadFault
  | fault (fault : Fault)
  | malformed (malformed : Utf8.Malformed)
  deriving DecidableEq

end Relink
