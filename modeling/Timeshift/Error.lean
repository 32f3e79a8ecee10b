import Timeshift.Path

/-!
# Errors

One taxonomy for all layers, so that playback can tell a position that is not known from data that
is damaged and from storage that failed.
-/

namespace Timeshift

/-- What the operating system can say in a way that matters here. -/
inductive IoKind
  | notFound
  | permissionDenied
  | alreadyExists
  | unexpectedEof
  | invalidData
  | other
  deriving DecidableEq

structure IoError where
  kind : IoKind
  text : String
  deriving DecidableEq

namespace IoError

def noSuchFile : IoError := ⟨.notFound, "No such file or directory (os error 2)"⟩
def busy : IoError := ⟨.other, "Device or resource busy (os error 16)"⟩
def fileExists : IoError := ⟨.alreadyExists, "File exists (os error 17)"⟩
def notDirectory : IoError := ⟨.other, "Not a directory (os error 20)"⟩
def isDirectory : IoError := ⟨.other, "Is a directory (os error 21)"⟩
def invalidArgument : IoError := ⟨.other, "Invalid argument (os error 22)"⟩
def noSpace : IoError := ⟨.other, "No space left on device (os error 28)"⟩
def nameTooLong : IoError := ⟨.other, "File name too long (os error 36)"⟩
def directoryNotEmpty : IoError := ⟨.other, "Directory not empty (os error 39)"⟩
def nulByte : IoError := ⟨.other, "file name contained an unexpected NUL byte"⟩
def notUtf8 : IoError := ⟨.invalidData, "stream did not contain valid UTF-8"⟩
def endOfFile : IoError := ⟨.unexpectedEof, "failed to fill whole buffer"⟩

end IoError

inductive Error
  /-- Nothing matched: an empty index or list, a missing file, or a time before the first known. -/
  | notFound (what : String)
  /-- Stored data breaks a rule of its format. -/
  | corrupt (what : String)
  /-- A write to something that takes none. -/
  | notWritable (what : String)
  | timestampRegression (timestamp last : UInt64)
  | pathTooLong (length limit : Nat)
  | closed
  | permissionDenied (what : String)
  | invalidInput (what : String)
  | io (cause : IoError)
  deriving DecidableEq

namespace Error

def message : Error → String
  | .notFound what => s!"Not found: {what}"
  | .corrupt what => s!"Corrupt index data: {what}"
  | .notWritable what => s!"Not writable: {what}"
  | .timestampRegression timestamp last =>
    s!"Timestamp {timestamp} precedes last written timestamp {last}"
  | .pathTooLong length limit => s!"Segment path is {length} bytes, maximum is {limit}"
  | .closed => "Index handle is closed"
  | .permissionDenied what => s!"Permission denied: {what}"
  | .invalidInput what => s!"Invalid input: {what}"
  | .io cause => s!"IO error: {cause.text}"

/-- The error of opening `path`. A missing file and a refused one are told apart from storage that
failed. -/
def ofOpening (path : Path) (cause : IoError) : Error :=
  match cause.kind with
  | .notFound => .notFound path.text
  | .permissionDenied => .permissionDenied path.text
  | _ => .io cause

/-- No data at that position: playback may go to the nearest one instead. -/
def isNotFound : Error → Bool
  | .notFound _ => true
  | _ => false

/-- A write that was turned away before it touched the file. -/
def isRejection : Error → Bool
  | .notWritable _ | .timestampRegression _ _ | .closed => true
  | _ => false

end Error

end Timeshift
