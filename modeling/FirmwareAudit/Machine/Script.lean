import FirmwareAudit.Machine.Program
import FirmwareAudit.Text.LowerCase
import FirmwareAudit.Text.Quoted

/-! # Scripted programs

A script describes a program by the actions it takes one after the other. A file that an action
cannot get at ends the run with status 1 and a line on the error stream; a path with a NUL byte
breaks the run off.
-/
namespace FirmwareAudit
open Text

namespace Script

/-- A text made from a call's arguments and from files. -/
inductive Expr
  | text (s : String)
  /-- An argument by its position, counted from the end if negative. -/
  | argument (i : Int)
  | append (a b : Expr)
  | contents (path : Expr)
  /-- Forty hexadecimal digits of a file's bytes, zeros behind the last. -/
  | digest (path : Expr)
  /-- A text without one `.asm` at its end. -/
  | stem (e : Expr)
  | lower (e : Expr)

inductive Action
  | out (text : Expr)
  | err (text : Expr)
  | write (path text : Expr)
  | append (path text : Expr)
  | delete (path : Expr)
  | makeDirectory (path : Expr)
  | interrupt
  | exit (status : Int)

/-- Why an action could not be taken: a file could not be got at, or its path has a NUL byte. -/
inductive Failure
  | file (path : String) (e : Errno)
  | nulByte

def failure (path : String) : CallFault → Failure
  | .nulByte => .nulByte
  | .errno e => .file path e

def argument (arguments : List String) (i : Int) : String :=
  let position := if i < 0 then i + arguments.length else i
  if position < 0 then "" else arguments.getD position.toNat ""

def digestLength : Nat := 40

/-- The start of the hexadecimal form of a text's UTF-8 bytes, filled up with zeros. -/
def digestOf (text : String) : String :=
  let bytes := text.toUTF8.toList.take digestLength
  let digits := bytes.flatMap (hexDigits 2 ·.toNat) ++ List.replicate digestLength '0'
  .ofList (digits.take digestLength)

def stemOf (s : String) : String :=
  let ending := ".asm".toList
  if endsIn ending s then .ofList (s.toList.take (s.length - ending.length)) else s

namespace Expr

def eval (call : Invocation) (tree : FileTree) : Expr → Except Failure String
  | text s => .ok s
  | argument i => .ok (Script.argument call.arguments i)
  | append a b => do
    let s ← a.eval call tree
    let s' ← b.eval call tree
    return s ++ s'
  | contents path => do
    let p ← path.eval call tree
    (tree.contents call.cwd p).mapError (failure p)
  | digest path => do
    let p ← path.eval call tree
    let s ← (tree.contents call.cwd p).mapError (failure p)
    return digestOf s
  | stem e => do return stemOf (← e.eval call tree)
  | lower e => do return lowerCase (← e.eval call tree)

end Expr

/-- What a script has done so far. -/
structure State where
  tree : FileTree
  out : String
  err : String

/-- One action: the state it leaves, and how the run ends if it ends there. -/
def act (call : Invocation) (s : State) : Action → Except Failure (State × Option Ending)
  | .out text => do
    let t ← text.eval call s.tree
    return ({ s with out := s.out ++ t }, none)
  | .err text => do
    let t ← text.eval call s.tree
    return ({ s with err := s.err ++ t }, none)
  | .write path text => do
    let p ← path.eval call s.tree
    let t ← text.eval call s.tree
    let tree ← (s.tree.write call.cwd p t .truncate).mapError (failure p)
    return ({ s with tree }, none)
  | .append path text => do
    let p ← path.eval call s.tree
    let t ← text.eval call s.tree
    let tree ← (s.tree.write call.cwd p t .append).mapError (failure p)
    return ({ s with tree }, none)
  | .delete path => do
    let p ← path.eval call s.tree
    let tree ← (s.tree.unlink call.cwd p).mapError (failure p)
    return ({ s with tree }, none)
  | .makeDirectory path => do
    let p ← path.eval call s.tree
    let tree ← (s.tree.makeDirectory call.cwd p).mapError (failure p)
    return ({ s with tree }, none)
  | .interrupt => .ok (s, some .interrupted)
  | .exit status => .ok (s, some (.exited status))

/-- The line a script leaves on its error stream when it could not get at a file. -/
def complaint (call : Invocation) (path : String) (e : Errno) : String :=
  baseName call.program ++ ": " ++ path ++ ": " ++ e.description ++ "\n"

def runActions (call : Invocation) (s : State) : List Action → State × Ending
  | [] => (s, .exited 0)
  | action :: rest =>
    match act call s action with
    | .error .nulByte => (s, .nulByte)
    | .error (.file path e) => ({ s with err := s.err ++ complaint call path e }, .exited 1)
    | .ok (s, some ending) => (s, ending)
    | .ok (s, none) => runActions call s rest

end Script

/-- A script refuses to start or takes its actions. -/
structure Script where
  refusal : Option Errno
  actions : List Script.Action

namespace Script

def empty : Script := ⟨none, []⟩

def start (script : Script) (call : Invocation) (tree : FileTree) : Start :=
  match script.refusal with
  | some e => .refused e
  | none =>
    let (s, ending) := runActions call ⟨tree, "", ""⟩ script.actions
    .ran s.tree s.out s.err ending

/-- The program that follows one script after the other, and the last one from then on. -/
def program (scripts : List Script) : Program := fun turn call tree =>
  (scripts.getD turn (scripts.getLast?.getD empty)).start call tree

end Script

end FirmwareAudit
