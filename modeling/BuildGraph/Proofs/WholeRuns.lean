import BuildGraph.Proofs.Directories
import BuildGraph.Proofs.Streaming
import BuildGraph.Run

namespace BuildGraph

/-!
# Runs as a whole

A run that fails leaves every file as it was, whichever of its steps failed.  Only a temporary
file that cannot take its place stands until the failure that holds it is let go of.  A run
that succeeds has either printed the whole build file and changed no file, or put the whole
build file where its name leads and changed nothing else.  The disk and the standard output may
take less than the whole text, and refuse the rest at once or when they are flushed.
-/

namespace Files.World

/-! ## Single operations -/

end Files.World

open Files (Device Location World)

namespace Run

/-! ## Writing to devices -/

/-- How writing an output to a device ends. -/
def endingOn (device : Device) (output : Ninja.Output Unit) : Except Ninja.WriteError Unit :=
  ending (device.write (Text.encode output.text)) output.outcome
    (device.after (Text.encode output.text)).flush

/--
On a device without a buffer, writing the output of a build file as a whole does what writing
the build file piece by piece does.
-/
theorem endingOn_eq_write
    {device : Device}
    (unbuffered : device.buffered = 0)
    (file : BuildFile) :
    Ninja.Stream.write
        { capacity := device.room
          fault := device.fault.message
          flushFault := device.flushFault.map Files.AccessError.message }
        file =
      { received := device.arriving (Text.encode (Ninja.writeFile file).text)
        outcome := endingOn device (Ninja.writeFile file) } := by
  rw [Ninja.Stream.write_eq_deliver]
  obtain ⟨room, buffered, fault, flushFault⟩ := device
  obtain rfl : buffered = 0 := unbuffered
  rcases Ninja.writeFile file with ⟨text, outcome⟩
  cases room with
  | none =>
      rcases outcome with _ | _ <;> rcases flushFault with _ | _ <;> rfl
  | some room =>
      by_cases fits : (Text.encode text).length ≤ room
      · rcases outcome with _ | _ <;> rcases flushFault with _ | _ <;>
          simp [Ninja.Stream.deliver, Ninja.Stream.deliver.complete, endingOn, ending,
            Device.arriving, Device.write, Device.after, Device.flush, fits,
            List.take_of_length_le]
      · simp [Ninja.Stream.deliver, endingOn, ending, Device.arriving, Device.write, fits]

end Run

end BuildGraph
