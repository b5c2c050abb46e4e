/-!
# Sizes

Binary size units, and the sizes that the library falls back to when a caller names none.
-/

namespace MessageFraming

/-! ## Units (powers of 1024) -/

def byte : Nat := 1
def kibibyte : Nat := byte * 1024
def mebibyte : Nat := kibibyte * 1024
def gibibyte : Nat := mebibyte * 1024
def tebibyte : Nat := gibibyte * 1024
def pebibyte : Nat := tebibyte * 1024

/-- The largest value of a 64-bit word. -/
def maxWord : Nat := UInt64.size - 1

/-! ## Defaults and bounds -/

/-- Longest accepted line, terminator excluded. -/
def defaultMaxLineLength : Nat := mebibyte

/-- Room of a buffered sink. -/
def defaultBufferSize : Nat := 4 * kibibyte

/-- Raw bytes read for one chunk. -/
def defaultChunkSize : Nat := 64 * kibibyte

/-- Largest accepted chunk size. -/
def maxChunkSize : Nat := gibibyte

/-- Room for payload bytes that a length-prefixed reader starts with. -/
def initialPayloadRoom : Nat := 256

/-- Most bytes that a buffered source asks for in one read. -/
def sourceWindow : Nat := 8 * kibibyte

end MessageFraming
