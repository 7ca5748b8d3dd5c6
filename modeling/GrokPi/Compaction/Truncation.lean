import GrokPi.Shared.ByteText

set_option autoImplicit false

namespace GrokPi.Compaction

def startWithin : Nat → Text → Text
  | _, [] => []
  | limit, c :: rest =>
      if c.utf8Size ≤ limit then c :: startWithin (limit - c.utf8Size) rest else []

def markerReserve : Nat := 64

def truncationMarker (dropped : Nat) : Text :=
  "\n[... truncated ".toList ++ Nat.toDigits 10 dropped ++
    " bytes to fit the compaction window ...]".toList

def truncateTextToBytes (text : Text) (maxBytes : Nat) : Option Text :=
  if text.byteLen ≤ maxBytes then none
  else
    let kept := startWithin (maxBytes - markerReserve) text
    some (kept ++ truncationMarker (text.byteLen - kept.byteLen))

def truncateTextToTokenBudget (text : Text) (maxTokens : UInt32) : Text :=
  (truncateTextToBytes text (maxTokens.toNat * 4)).getD text

end GrokPi.Compaction
