import FirmwareAudit.Machine.Basic

/-! # A machine with something of one's own beside it

Work that keeps a value of its own, such as a list of files to remove, does so next to the machine.
What it does on the machine alone leaves that value as it is.
-/
namespace FirmwareAudit

structure Workplace (β : Type) where
  machine : Machine
  own : β

abbrev WorkM (β : Type) := EStateM Stop (Workplace β)

/-- Work on the machine alone. -/
def onMachine (act : MachineM α) : WorkM β α := fun w =>
  match act w.machine with
  | .ok a m => .ok a { w with machine := m }
  | .error s m => .error s { w with machine := m }

/-- Work that starts with the given value and drops what becomes of it. -/
def startWith (own : β) (act : WorkM β α) : MachineM α := fun m =>
  match act ⟨m, own⟩ with
  | .ok a w => .ok a w.machine
  | .error s w => .error s w.machine

end FirmwareAudit
