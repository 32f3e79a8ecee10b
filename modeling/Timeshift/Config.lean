import Timeshift.Disk.Open
import Timeshift.Text.Quoted
import Timeshift.Toml.Document
import Timeshift.World

/-!
# Configuration

How a recorder names its files and when it ends a segment, and how playback treats a time outside
the recording. A setting that is not given has its default, and a configuration that is read from a
file is checked before it is used.
-/

namespace Timeshift

structure RecorderSettings where
  /-- What is added to the name of a segment file to name its index. -/
  indexExtension : String := "idx"
  manifestName : String := "recording.json"
  /-- What the names of segment files start with. -/
  segmentStem : String := "seg"
  segmentExtension : String := "ts"
  /-- A segment that has reached so many bytes is full; 0 sets no limit. -/
  maxBytes : UInt64 := 2 * 1024 * 1024 * 1024
  /-- A segment that spans so many units of time is full; 0 sets no limit. -/
  maxDuration : UInt64 := 0
  deriving DecidableEq

structure PlayerSettings where
  /-- A time outside the recording leads to the nearest known position. -/
  clamp : Bool := true
  deriving DecidableEq

structure Config where
  recording : RecorderSettings := {}
  playback : PlayerSettings := {}
  deriving DecidableEq

/-! ## Rules -/

inductive ConfigError
  | notBareExtension (setting value : String)
  | sameExtension
  | notFileName (value : String)
  | slashInStem
  | unreadable (path : Path) (cause : IoError)
  /-- Not TOML, or not of the shape of a configuration. -/
  | malformed (path : Path)
  deriving DecidableEq

namespace ConfigError

def message : ConfigError → String
  | .notBareExtension setting value =>
    s!"recording.{setting} must be a bare extension, got {Text.quoted value}"
  | .sameExtension => "recording.index_extension must differ from segment_extension"
  | .notFileName value => s!"recording.manifest_name must be a file name, got {Text.quoted value}"
  | .slashInStem => "recording.segment_prefix must not contain '/'"
  | .unreadable path _ => s!"Failed to read config file: {Text.quoted path.text}"
  | .malformed path => s!"Failed to parse config file: {Text.quoted path.text}"

def cause? : ConfigError → Option String
  | .unreadable _ cause => some cause.text
  | .malformed _ => some "<toml>"
  | _ => none

end ConfigError

namespace RecorderSettings

def isBare (extension : String) : Bool :=
  extension ≠ "" && !extension.toList.any fun c => c = '.' || c = '/'

def hasSlash (s : String) : Bool := s.toList.any (· = '/')

/-- The first rule that the settings break. -/
def fault? (c : RecorderSettings) : Option ConfigError :=
  if !isBare c.indexExtension then some (.notBareExtension "index_extension" c.indexExtension)
  else if !isBare c.segmentExtension then
    some (.notBareExtension "segment_extension" c.segmentExtension)
  else if c.indexExtension = c.segmentExtension then some .sameExtension
  else if c.manifestName = "" || hasSlash c.manifestName then some (.notFileName c.manifestName)
  else if hasSlash c.segmentStem then some .slashInStem
  else none

def neverRotates (c : RecorderSettings) : Bool := c.maxBytes = 0 && c.maxDuration = 0

end RecorderSettings

namespace Config

def check (c : Config) (w : World) : Except ConfigError Unit × World :=
  match c.recording.fault? with
  | some fault => (.error fault, w)
  | none => (.ok (), if c.recording.neverRotates then w.warn .neverRotates else w)

/-! ## Reading -/

/-- The fields of a record by place and name. An array gives them in order; a date is a record
with none of them. -/
def fieldOf? : Toml → Option (Nat → String → Option Toml)
  | .table _ ms | .inlineTable ms => some fun _ k => Toml.member? ms k
  | .array xs => some fun i _ => xs[i]?
  | .tables ts => some fun i _ => ts[i]?.map (.table .header)
  | .datetime => some fun _ _ => none
  | _ => none

def orDefault (default : α) (read : Toml → Option α) : Option Toml → Option α
  | none => some default
  | some v => read v

def readString : Toml → Option String
  | .string s => some s
  | _ => none

def readWord : Toml → Option UInt64
  | .integer n => if 0 ≤ n then some (UInt64.ofNat n.toNat) else none
  | _ => none

def readBool : Toml → Option Bool
  | .boolean b => some b
  | _ => none

def readRecording (v : Toml) : Option RecorderSettings := do
  let field ← fieldOf? v
  let c : RecorderSettings := {}
  return {
    indexExtension := ← orDefault c.indexExtension readString (field 0 "index_extension")
    manifestName := ← orDefault c.manifestName readString (field 1 "manifest_name")
    segmentStem := ← orDefault c.segmentStem readString (field 2 "segment_prefix")
    segmentExtension := ← orDefault c.segmentExtension readString (field 3 "segment_extension")
    maxBytes := ← orDefault c.maxBytes readWord (field 4 "max_segment_bytes")
    maxDuration := ← orDefault c.maxDuration readWord (field 5 "max_segment_duration") }

def readPlayback (v : Toml) : Option PlayerSettings := do
  let field ← fieldOf? v
  return { clamp := ← orDefault true readBool (field 0 "clamp_to_nearest") }

def ofText? (text : String) : Option Config := do
  let ms ← Toml.ofText text
  return {
    recording := ← orDefault {} readRecording (Toml.member? ms "recording")
    playback := ← orDefault {} readPlayback (Toml.member? ms "playback") }

def load (path : Path) (w : World) : Except ConfigError Config × World :=
  match w.disk.readText path with
  | .error e => (.error (.unreadable path e), w)
  | .ok text =>
    match ofText? text with
    | none => (.error (.malformed path), w)
    | some c =>
      let (checked, w) := c.check w
      (checked.map fun _ => c, w)

/-- Where a configuration is looked for; `home` is the user's directory, if known. -/
def defaultPaths (home : Option String) : List Path :=
  [⟨"./dvrindex.toml"⟩, ⟨home.getD "~" ++ "/.config/dvrindex/config.toml"⟩,
    ⟨"/etc/dvrindex/config.toml"⟩]

/-- The configuration at the given path, or at the first default path that is there, or else the
default one. -/
def find (given : Option Path) (home : Option String) (w : World) :
    Except ConfigError Config × World :=
  match given <|> (defaultPaths home).find? (w.disk.exists? ·) with
  | some path => load path w
  | none => (.ok {}, w)

end Config

end Timeshift
