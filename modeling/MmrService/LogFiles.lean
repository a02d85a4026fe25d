import MmrService.Lib.Word
import Mathlib.Data.Finset.Basic

/-!
The log file and its rotation, `CLogger::fileSizeCheck`.

A directory maps paths to contents. The stream is opened for appending, so its write
position is the end of the file at `m_strFilePath`.
-/

namespace MmrService.LogFiles

abbrev Files := String → Option (List UInt8)

/-- `access(path, 0) == F_OK`. -/
def access (fs : Files) (path : String) : Bool := (fs path).isSome

def remove (fs : Files) (path : String) : Files := Function.update fs path none

/-- An existing file takes the new name, in place of what had it. -/
def rename (fs : Files) (old new : String) : Files :=
  match fs old with
  | none => fs
  | some bs => if old = new then fs else Function.update (Function.update fs new (some bs)) old none

/-- `fstream::open(path, app)`: a missing file is created. -/
def openApp (fs : Files) (path : String) : Files :=
  if access fs path then fs else Function.update fs path (some [])

/-- `write` and `flush` of a stream opened for appending. -/
def write (fs : Files) (path : String) (bs : List UInt8) : Files :=
  Function.update fs path (some ((fs path).getD [] ++ bs))

def tellp (fs : Files) (path : String) : ℕ := ((fs path).getD []).length

/-- `m_strFilePath + "." + std::to_string(index)`. -/
def numbered (path : String) (index : ℤ) : String := path ++ "." ++ toString index

/-- The loop that renames the numbered files from `index` down; `strNewName` is the name
the next one takes. -/
def shift (path : String) : ℕ → Files → String → Files × String
  | 0, fs, strNewName => (fs, strNewName)
  | index + 1, fs, strNewName =>
    let strOldName := numbered path (index + 1)
    let fs := if access fs strOldName then rename fs strOldName strNewName else fs
    shift path index fs (numbered path (index + 1))

/-- Above `m_fileSize` bytes the files move up one number and a new one is begun.
`m_fileNum` is a `uint32_t` put into an `int32_t`, and decrementing the least of these is
undefined. -/
def fileSizeCheck (fs : Files) (path : String) (m_fileNum m_fileSize : ℕ) : Option Files :=
  if tellp fs path ≤ m_fileSize then some fs
  else
    let nLogNumIndex := Word.toInt 32 m_fileNum
    let strNewName := numbered path nLogNumIndex
    let fs := if access fs strNewName then remove fs strNewName else fs
    if nLogNumIndex = -2 ^ 31 then none
    else
      let (fs, strNewName) := shift path (nLogNumIndex - 1).toNat fs strNewName
      some (openApp (rename fs path strNewName) path)

end MmrService.LogFiles
