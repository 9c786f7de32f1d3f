import MergeOnRead.Encoding.Json
import MergeOnRead.Event

/-!
# Reports as JSON

What a caller is told besides results: errors and events.
-/

namespace MergeOnRead

/-- Writes an error: its kind, its text and whether another try may help. -/
def Error.encode (e : Error) : Json :=
  .object
    [("error", .text e.kind.text), ("message", .text e.message),
      ("retryable", .boolean e.isRetryable)]

/-- Writes an event: all its fields as text. -/
def Event.encode (event : Event) : Json :=
  .object (event.fields.map fun entry => (entry.1, .text entry.2))

end MergeOnRead
