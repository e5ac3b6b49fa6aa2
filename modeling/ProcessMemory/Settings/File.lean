import ProcessMemory.Json
import ProcessMemory.OsError
import ProcessMemory.Settings.Record
import ProcessMemory.Toml
import ProcessMemory.Toml.Print

/-!
# Settings in files

A file with settings is a TOML document. It may lack any of them, or be missing altogether; a file
that is there and cannot be used is passed over only by those who ask for that, and not silently.
-/
namespace ProcessMemory

inductive SettingsError where
  | unreadable (error : OsError)
  | nulInPath
  | notText
  | malformed
  | unprintable
  | missing (path : String)
  | invalid (misfit : Misfit)
  deriving DecidableEq

def SettingsError.message : SettingsError → String
  | .unreadable error => "IO error: " ++ error.message
  | .nulInPath => "IO error: file name contained an unexpected NUL byte"
  | .notText => "IO error: stream did not contain valid UTF-8"
  | .malformed => "TOML parsing error: not a document with settings"
  | .unprintable => "TOML serialization error: out-of-range value for u64 type"
  | .missing path => "Configuration file not found: " ++ path
  | .invalid misfit => "Invalid configuration: " ++ misfit.message

/-- What stands under a path. -/
inductive FileState where
  | missing
  | directory
  | holding (bytes : List UInt8)

namespace Settings

def usualPath : String := "memwalk.toml"

def ofToml? (text : List Char) : Option Settings := (Toml.read? text).bind (ofDatum? false)

/-- Writes settings as a document; a number above those of TOML cannot be written. -/
def toToml? (s : Settings) : Option (List Char) := Toml.print? s.sections

/-- Reads settings out of a JSON document, in which lists stand for records only if they fit. -/
def ofJson? (text : String) : Option Settings := (Json.read? text).bind (ofDatum? true)

def load (path : String) : FileState → Except SettingsError Settings
  | .missing => .error (.missing path)
  | .directory => .error (.unreadable .isDirectory)
  | .holding bytes =>
    match Utf8.decodeAll? bytes with
    | none => .error .notText
    | some text =>
      match ofToml? text with
      | none => .error .malformed
      | some s => .ok s

/-- Loads settings, or takes the usual ones. Only a missing file is nothing to report. -/
def loadOrUsual (path : String) (file : FileState) : Settings × List Event :=
  match load path file with
  | .ok s => (s, [])
  | .error (.missing _) => ({}, [])
  | .error e => ({}, [.defaultsUsed path e.message])

/-- Whether a file can be made under a list of names, in a directory that holds nothing. The
directories above it are taken to hold nothing else either. `slash` tells of one after the last
name, which asks for a directory. -/
def canMake (slash : Bool) : (names : List (List Char)) → Except OsError Unit
  | [] => .error .isDirectory
  | name :: rest =>
    if name = ['.'] ∨ name = ['.', '.'] then canMake slash rest
    else if 255 < (String.ofList name).utf8ByteSize then .error .nameTooLong
    else if !rest.isEmpty then .error .noEntry
    else if slash then .error .isDirectory
    else .ok ()

/-- Whether a file can be made under a path, where the working directory holds nothing. -/
def writable (path : String) : Except OsError Unit :=
  if path.isEmpty then .error .noEntry
  else if 4096 ≤ path.utf8ByteSize then .error .nameTooLong
  else
    canMake (path.toList.getLast? = some '/')
      ((Text.splitAll '/' path.toList).filter fun name => !name.isEmpty)

/-- Saves settings under a path; gives what the file then holds. -/
def save (path : String) (s : Settings) : Except SettingsError (List Char) :=
  match s.toToml? with
  | none => .error .unprintable
  | some text =>
    if path.contains '\x00' then .error .nulInPath
    else
      match writable path with
      | .error e => .error (.unreadable e)
      | .ok () => .ok text

end Settings
end ProcessMemory
