import FirmwareAudit.Machine.Files
import FirmwareAudit.Plan

/-! # Checking the paths of a plan -/
namespace FirmwareAudit

namespace Plan

/-- Stops unless the image is a file that may be read and the include directory a directory. -/
def validate (p : Plan) : MachineM Unit := do
  if ← isFile p.image then
    unless ← mayRead p.image do throw (.fault (.unreadableImage p.image))
  else throw (.fault (.unreadableImage p.image))
  unless ← isDirectory p.includeDir do throw (.fault (.missingIncludeDir p.includeDir))

end Plan

end FirmwareAudit
