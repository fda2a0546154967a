import FirmwareAudit.Path

/-! # Checksums -/
namespace FirmwareAudit

/-- A file and the digest that was computed of it. -/
structure Checksum where
  path : Path
  digest : String
  deriving DecidableEq

namespace Checksum

/-- The line that reports a checksum. -/
def line (c : Checksum) : String := c.path.toString ++ ": " ++ c.digest

end Checksum

end FirmwareAudit
