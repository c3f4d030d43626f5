import NativeBinding.File.Path
import NativeBinding.Text.Quoted

/-!
Files by path. A file that cannot be read has a cause with the number and words of the operating
system. A directory is known by the files in and below it, so no directory is empty; what lies
outside it is taken to be directories without files.
-/

namespace NativeBinding

inductive FileFault
  | missing
  | notDirectory
  | directory
  | nameTooLong
  | other (number : Nat) (reason : String)
  deriving DecidableEq

namespace FileFault

def number : FileFault → Nat
  | missing => 2
  | notDirectory => 20
  | directory => 21
  | nameTooLong => 36
  | other n _ => n

def reason : FileFault → String
  | missing => "No such file or directory"
  | notDirectory => "Not a directory"
  | directory => "Is a directory"
  | nameTooLong => "File name too long"
  | other _ r => r

def message (f : FileFault) (path : Path) : String :=
  "[Errno " ++ toString f.number ++ "] " ++ f.reason ++ ": " ++ Text.quoted path.text

end FileFault

structure Directory where
  files : List (List String × List UInt8)

namespace Directory

def maxNameBytes : Nat := 255

def maxPathBytes : Nat := 4095

def file? (d : Directory) (names : List String) : Option (List UInt8) :=
  (d.files.find? fun f => f.1 == names).map (·.2)

def isDirectory (d : Directory) (names : List String) : Bool :=
  d.files.any fun f => names.isPrefixOf f.1

/-- The file that some names lead to. `here` is the directory they start from, or nothing outside
this one. -/
def follow (d : Directory) : Option (List String) → List String → Except FileFault (List UInt8)
  | _, [] => .error .directory
  | here, name :: rest =>
      if name == ".." then
        d.follow (here.bind fun names => if names.isEmpty then none else some names.dropLast) rest
      else if maxNameBytes < name.utf8ByteSize then .error .nameTooLong
      else
        match here with
        | none => .error .missing
        | some names =>
            match d.file? (names ++ [name]) with
            | some bytes => if rest.isEmpty then .ok bytes else .error .notDirectory
            | none =>
                if d.isDirectory (names ++ [name]) then d.follow (some (names ++ [name])) rest
                else .error .missing

def read (d : Directory) (p : Path) : Except FileFault (List UInt8) :=
  if maxPathBytes < p.text.utf8ByteSize then .error .nameTooLong
  else d.follow (if p.slashes == 0 then some [] else none) p.names

end Directory

end NativeBinding
