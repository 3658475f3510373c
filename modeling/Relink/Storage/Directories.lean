import Relink.Path.Parts
import Relink.Storage.Disk

namespace Relink.Disk

def settleDirectory (disk : Disk) (path : Text) : Except Fault Disk :=
  match disk.makeDirectory path with
  | .ok disk => .ok disk
  | .error .notFound => .error (.at .notFound path)
  | .error kind => if disk.isDirectory path then .ok disk else .error (.at kind path)

def ensureDirectory (disk : Disk) (path : Path.Parts) : Except Fault Disk :=
  match disk.makeDirectory path.toText with
  | .error .notFound =>
    if _h : path.names = [] then .error (.at .notFound path.toText)
    else (disk.ensureDirectory path.parent).bind fun disk => disk.settleDirectory path.toText
  | _ => disk.settleDirectory path.toText
termination_by path.names.length
decreasing_by
  simp only [Path.Parts.parent, List.length_dropLast]
  have := List.length_pos_iff.2 _h
  omega

end Relink.Disk
