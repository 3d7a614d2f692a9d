/-
# The machine that a run works on

All that the program asks of the machine it runs on. A file is never written in place:
its new text goes into a draft beside it, which takes its place only when it is complete.
Each step can be refused.

Key definitions: `Host`.
-/
import Uncomment.Disk.Listing
import Uncomment.Event

namespace Uncomment

/-- The operations that a machine offers. -/
class Host (m : Type → Type) where
  /-- A file that is being written, beside the one that it will replace. -/
  Draft : Type
  /-- What a path leads to, with all that lies below it. Links on the way are followed. A
  folder whose name is refused by the predicate need not be looked into. -/
  survey : (String → Bool) → String → m (Except IoError Listing)
  /-- The contents of the file that a path leads to. -/
  read : String → m (Except IoError ByteArray)
  /-- An empty draft of the file that a path leads to. -/
  draft : String → m (Except IoError Draft)
  /-- Writes a text into a draft. -/
  fill : Draft → String → m (Except IoError Unit)
  /-- Makes sure that a draft is stored. -/
  flush : Draft → m (Except IoError Unit)
  /-- Gives a draft the access rights of the file that it will replace. -/
  protect : Draft → m (Except IoError Unit)
  /-- Puts a draft in the place of its file. -/
  commit : Draft → m (Except IoError Unit)
  /-- Removes a draft. -/
  discard : Draft → m Unit
  /-- Takes note of an event. -/
  note : Event → m Unit

end Uncomment
