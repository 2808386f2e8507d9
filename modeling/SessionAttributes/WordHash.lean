import SessionAttributes.Bytes

namespace SessionAttributes.WordHash

/-- Rotates, mixes the word in and spreads it over the high bits. -/
def add (h word : UInt64) : UInt64 :=
  (((h <<< 5) ||| (h >>> 59)) ^^^ word) * 0x517cc1b727220a95

/-- Adds the little-endian word of the first `width` bytes and drops them. -/
def take (width : Nat) (state : UInt64 × Bytes) : UInt64 × Bytes :=
  if state.2.length < width then state
  else (add state.1 (UInt64.ofNat (Bytes.littleEndian (state.2.take width))), state.2.drop width)

/-- Adds a byte string: words of eight bytes, then one each of four, two and one while they last. -/
def addBytes (h : UInt64) (bytes : Bytes) : UInt64 :=
  let whole := Nat.repeat (take 8) (bytes.length / 8) (h, bytes)
  (take 1 (take 2 (take 4 whole))).1

def addText (h : UInt64) (s : String) : UInt64 :=
  add (addBytes h (Bytes.ofString s)) 0xff

end SessionAttributes.WordHash
