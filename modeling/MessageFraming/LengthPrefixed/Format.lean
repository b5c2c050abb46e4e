import MessageFraming.Frame.Format
import MessageFraming.Varint

/-!
# The length-prefixed format

A frame is the varint of the payload's length and then the payload. Frames do not depend on each
other, and payloads may hold any bytes.
-/

namespace MessageFraming

def LengthPrefixed.format : WireFormat where
  State := Unit
  start := ()
  head _ payload := Varint.encode payload.length.toUInt64
  next _ := ()
  headStep := .writeLengthPrefix

end MessageFraming
