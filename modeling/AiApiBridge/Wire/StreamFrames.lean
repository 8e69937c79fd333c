import AiApiBridge.Wire.AnthropicEmitter
import AiApiBridge.Wire.ChunkReading
import AiApiBridge.Wire.ResponsesEmitter

/-!
# The frames of a stream

What a client of either dialect gets for a stream of upstream chunks that ends: the
frames its emitter writes for the events of the chunks, `completed` included.
-/

set_option autoImplicit false

namespace AiApiBridge

open ChatStreamParser (streamEvents)

/-- The frames a Responses client gets for a stream of chunks that ends normally. -/
def streamFrames (uuid : Nat → String) (responseId : String) (chunks : List Value) :
    List SseFrame :=
  (Transducer.run (ResponsesEmitter.onEvent uuid) .new (streamEvents responseId chunks)).2

/-- The frames an Anthropic client gets for a stream of chunks that ends normally. -/
def messageFrames (fromStr : String → Option Value) (responseId : String) (chunks : List Value) :
    List SseFrame :=
  (Transducer.run (AnthropicEmitter.onEvent fromStr) .new (streamEvents responseId chunks)).2

end AiApiBridge
