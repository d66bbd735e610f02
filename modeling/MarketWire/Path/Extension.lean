import MarketWire.Bytes.Text

/-!
# Extensions of file names

The extension of a path begins at the last dot of its last component. A component that begins with
its only dot has none, nor have the two components that stand for directories, a single dot and two
dots.
-/

namespace MarketWire

namespace Path

/-- The byte between the components of a path. -/
def separator : UInt8 := 0x2F

/-- The byte that begins an extension. -/
def dot : UInt8 := 0x2E

/-- What stands behind the last occurrence of a byte, or everything if it does not occur. -/
def behindLast (b : UInt8) (text : Text) : Text :=
  (text.reverse.takeWhile (· != b)).reverse

/-- The last component of a path. -/
def fileName (path : Text) : Text :=
  behindLast separator path

/-- The extension of a file name, its dot included. -/
def extensionOfName (name : Text) : Text :=
  let suffix := behindLast dot name
  if name = [dot, dot] ∨ name.length ≤ suffix.length + 1 then
    []
  else
    dot :: suffix

/-- The extension of a path, its dot included. -/
def extension (path : Text) : Text :=
  extensionOfName (fileName path)

/-- The path with another extension in place of its own, or behind it if it has none. -/
def replaceExtension (path replacement : Text) : Text :=
  path.take (path.length - (extension path).length) ++ replacement

end Path

end MarketWire
