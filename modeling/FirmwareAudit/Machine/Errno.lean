/-! # System errors

The errors a system call or the start of a program can meet, with their POSIX numbers and texts.
-/
namespace FirmwareAudit

inductive Errno
  | notPermitted
  | notFound
  | execFormat
  | outOfMemory
  | accessDenied
  | busy
  | alreadyExists
  | notDirectory
  | isDirectory
  | brokenPipe
  | nameTooLong
  deriving DecidableEq, Repr

namespace Errno

def all : List Errno :=
  [notPermitted, notFound, execFormat, outOfMemory, accessDenied, busy, alreadyExists,
    notDirectory, isDirectory, brokenPipe, nameTooLong]

def symbol : Errno → String
  | notPermitted => "EPERM"
  | notFound => "ENOENT"
  | execFormat => "ENOEXEC"
  | outOfMemory => "ENOMEM"
  | accessDenied => "EACCES"
  | busy => "EBUSY"
  | alreadyExists => "EEXIST"
  | notDirectory => "ENOTDIR"
  | isDirectory => "EISDIR"
  | brokenPipe => "EPIPE"
  | nameTooLong => "ENAMETOOLONG"

def number : Errno → Nat
  | notPermitted => 1
  | notFound => 2
  | execFormat => 8
  | outOfMemory => 12
  | accessDenied => 13
  | busy => 16
  | alreadyExists => 17
  | notDirectory => 20
  | isDirectory => 21
  | brokenPipe => 32
  | nameTooLong => 36

def description : Errno → String
  | notPermitted => "Operation not permitted"
  | notFound => "No such file or directory"
  | execFormat => "Exec format error"
  | outOfMemory => "Cannot allocate memory"
  | accessDenied => "Permission denied"
  | busy => "Device or resource busy"
  | alreadyExists => "File exists"
  | notDirectory => "Not a directory"
  | isDirectory => "Is a directory"
  | brokenPipe => "Broken pipe"
  | nameTooLong => "File name too long"

def ofSymbol? (s : String) : Option Errno :=
  all.find? (·.symbol == s)

theorem ofSymbol?_symbol (e : Errno) : ofSymbol? e.symbol = some e := by
  cases e <;> decide

end Errno

/-- Why a system call on a path failed. A path with a NUL byte never reaches the system. -/
inductive CallFault
  | nulByte
  | errno (e : Errno)
  deriving DecidableEq, Repr

end FirmwareAudit
