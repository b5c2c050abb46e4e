import MessageFraming.Frame.Format

/-!
# The line format

Payloads are separated by one `\n`: the first stands as it is, every later one behind a separator,
and none is terminated. The state says whether a payload was begun.

Payloads are expected to hold no `\n`; one that does reads back as several lines.
-/

namespace MessageFraming

def Lines.format : WireFormat where
  State := Bool
  start := false
  head begun _ := if begun then [newline] else []
  next _ := true
  headStep := .writeSeparator

end MessageFraming
