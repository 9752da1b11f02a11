/-!
# Standard directories and devices

What every system has besides the files of its users: the standard directories, and a few devices.
-/

namespace GivenClause.Files

/-- A place by the names that lead to it from the root. -/
abbrev Location := List String

/-- A device, which holds no text of its own. -/
inductive Device where
  /-- Reads as an empty file and drops what is written. -/
  | null
  /-- Reads without an end and drops what is written. -/
  | zero
  /-- Reads without an end and has no space for what is written. -/
  | full
  deriving Repr, DecidableEq

namespace Standard

/-- The directories at the root. -/
def topDirectories : List String := [
  "bin", "boot", "dev", "etc", "home", "lib", "lib64", "media", "mnt", "opt", "proc", "root", "run",
  "sbin", "srv", "sys", "tmp", "usr", "var"]

/-- The directories one level below the root. -/
def innerDirectories : List Location := [
  ["dev", "shm"], ["usr", "bin"], ["usr", "include"], ["usr", "lib"], ["usr", "local"],
  ["usr", "sbin"], ["usr", "share"], ["usr", "src"], ["var", "cache"], ["var", "lib"],
  ["var", "local"], ["var", "log"], ["var", "mail"], ["var", "opt"], ["var", "run"],
  ["var", "spool"], ["var", "tmp"]]

/-- Whether there is a standard directory at a place. -/
def isDirectory : Location → Bool
  | [] => true
  | [name] => topDirectories.contains name
  | place => innerDirectories.contains place

/-- The device at a place. -/
def device? : Location → Option Device
  | ["dev", "null"] => some .null
  | ["dev", "zero"] => some .zero
  | ["dev", "full"] => some .full
  | _ => none

end Standard

end GivenClause.Files
