import Vidarax.Base.Blocks
import Vidarax.Base.Float64
import Vidarax.Base.Framing
import Vidarax.Base.TextDecoder

/-!
# Server-sent events in the SDK

Package `vidarax-sdk`, `packages/vidarax-sdk/src/client.ts:98–142`, `errors.ts:13–151`. The body of
a response is read value by value; what is decoded is added to a buffer, which is cut at blank
lines. A string is the list of its UTF-16 code units, which `length` counts.
-/

namespace Vidarax.Sdk

open Vidarax.Base

/-- An `error` object of the API; `errors.ts:18`. -/
structure ApiErrorBody where
  code : String
  message : String

/-- What a call of the SDK throws; `errors.ts`. -/
inductive SdkError where
  /-- `HttpError`. -/
  | http (status : Nat) (message : String) (apiError : Option ApiErrorBody)
  /-- `NetworkError`. -/
  | network (message : String)
  /-- `ParseError`. -/
  | parse (message : String) (raw : Utf16)
  /-- An error that is no `VidaraxError`. -/
  | other (message : String)

/-- Code units of a literal. -/
def units (s : String) : Utf16 := utf16 s.toList

/-- `\n`. -/
def lineFeed : UInt16 := 10

/-- `\r`. -/
def carriageReturn : UInt16 := 13

/-- `:`. -/
def colon : UInt16 := 58

/-- A space. -/
def space : UInt16 := 32

/-- `replace(/\r\n/g, "\n")`. -/
def replaceCrlf : Utf16 → Utf16
  | [] => []
  | [u] => [u]
  | u :: v :: rest =>
    if u = carriageReturn ∧ v = lineFeed then lineFeed :: replaceCrlf rest
    else u :: replaceCrlf (v :: rest)

/-- An event of a stream; `client.ts:98`. -/
structure ParsedSseEvent where
  id : Utf16
  event : Utf16
  data : Utf16
  deriving DecidableEq

/-- `client.ts:104`. -/
def MAX_SSE_EVENT_BYTES : Nat := 4 * 1024 * 1024

/-! ### Blocks -/

/-- The fields of a block as far as its lines have been read. -/
structure BlockFields where
  id : Utf16
  event : Utf16
  data : List Utf16

/-- The next line of a block; `client.ts:125`. -/
def BlockFields.acceptLine (fields : BlockFields) (line : Utf16) : BlockFields :=
  if line.head? = some colon then fields
  else
    let (field, after) := cut colon line
    let raw := after.getD []
    let value := if raw.head? = some space then raw.tail else raw
    if field = units "id" then { fields with id := value }
    else if field = units "event" then { fields with event := value }
    else if field = units "data" then { fields with data := fields.data ++ [value] }
    else fields

/-- The event of a block, if it has data; `client.ts:122`. -/
def parseBlock (block : Utf16) : Option ParsedSseEvent :=
  let fields := (block.splitOn lineFeed).foldl BlockFields.acceptLine ⟨[], units "message", []⟩
  if fields.data = [] then none
  else some ⟨fields.id, fields.event, [lineFeed].intercalate fields.data⟩

/-! ### Reads -/

/-- The decoder of a body and what is in its buffer; `client.ts:109`. -/
structure SseReader where
  decoder : TextDecoder
  buffer : Utf16

namespace SseReader

/-- At the start of a body. -/
def new : SseReader := ⟨.new, []⟩

/-- The error of a buffer that has become too long; `client.ts:117`. -/
def tooLong (buffer : Utf16) : SdkError :=
  .parse "SSE event exceeded the 4 MiB SDK limit" (buffer.take 256)

/-- Text is added to the buffer, and the events in it are taken; `client.ts:115`. -/
def add (r : SseReader) (decoded : TextDecoder × Utf16) :
    Except SdkError (List ParsedSseEvent × SseReader) :=
  let buffer := r.buffer ++ replaceCrlf decoded.2
  if MAX_SSE_EVENT_BYTES < buffer.length then .error (tooLong buffer)
  else
    let (found, rest) := blocks lineFeed buffer
    .ok (found.filterMap parseBlock, ⟨decoded.1, rest⟩)

/-- A value is read; `client.ts:114`. -/
def read (r : SseReader) (value : Bytes) : Except SdkError (List ParsedSseEvent × SseReader) :=
  r.add (r.decoder.decode value)

/-- The end is read; `client.ts:114`. -/
def readEnd (r : SseReader) : Except SdkError (List ParsedSseEvent × SseReader) :=
  r.add (.new, r.decoder.finish)

end SseReader

end Vidarax.Sdk
