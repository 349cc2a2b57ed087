import BuildGraph.Files.Operations

namespace BuildGraph.Files

/-!
# Devices

A disk or a terminal takes bytes until it is full.  They are written through a buffer, which
holds some of them back, so bytes for which there is no room may be missed only when the buffer
is flushed.
-/

/-- What bytes are written to, with a buffer in front of it. -/
structure Device where
  /-- How many more bytes it takes, or nothing when there is no limit. -/
  room : Option Nat := none
  /-- How many bytes without room the buffer holds back before they are missed. -/
  buffered : Nat := 0
  /-- Why a byte without room is refused. -/
  fault : AccessError := .other "No space left on device (os error 28)"
  /-- Why flushing fails, if it does. -/
  flushFault : Option AccessError := none

namespace Device

/-- The bytes that arrive, of those that are written. -/
def arriving (device : Device) (bytes : List UInt8) : List UInt8 :=
  match device.room with
  | none => bytes
  | some room => bytes.take room

/-- What is reported at once when bytes are written. -/
def write (device : Device) (bytes : List UInt8) : Except AccessError Unit :=
  match device.room with
  | none => .ok ()
  | some room =>
      if bytes.length ≤ room + device.buffered then .ok () else .error device.fault

/-- A device after bytes were written; it cannot be flushed any more if some did not arrive. -/
def after (device : Device) (bytes : List UInt8) : Device :=
  match device.room with
  | none => device
  | some room =>
      if bytes.length ≤ room then
        { device with room := some (room - bytes.length) }
      else
        { device with
          room := some 0
          flushFault := some device.fault }

/-- What is reported when the buffer is flushed. -/
def flush (device : Device) : Except AccessError Unit :=
  match device.flushFault with
  | none => .ok ()
  | some fault => .error fault

end Device

end BuildGraph.Files
