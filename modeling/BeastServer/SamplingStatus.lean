import BeastServer.HeadResponses
import BeastServer.Samplings
import BeastServer.UriRouters

/-!
The endpoint that reports the status of a sampling.
The target ends with the id, but the text that is converted is all of the target
but its first slash, which is no number. The outcome of the conversion is not
looked at, so the id is what a refused conversion leaves in the variable. A
conversion that fills it from the last digit on leaves the id that was asked for.
-/
namespace BeastServer.SamplingStatus

open ByteStrings Exceptions Programs HttpMessages HttpSessions JsonValues JsonSerializers JsonApi
open AnsweredRequests Patterns UriRouters PreviewVisits SamplingBlocks Samplings Paths

section Handler

/-- target.substr(target.find('/') + 1) -/
def afterSlash (target : Bytes) : Bytes :=
  match target.dropWhile (fun c => c != slash) with
  | [] => target
  | _ :: rest => rest

/-- The handler only reads the samplings. -/
def samplingStatusHandler (lexical : LexicalConvert) (mock : SamplingMock) : HandlerFunction :=
  fun req =>
    let idStr := afterSlash req.target
    let sampleId := UInt64.ofNat (lexical.convert idStr 0)
    if sampleId = 0 then throw (.runtimeError (ascii "invalid id format"))
    else
      tryCatch (ofExcept (mock.statusOf sampleId true))
        (fun ex =>
          match ex with
          | .outOfRange _ => throw (.notFound req.target)
          | ex => throw ex)

end Handler

section Routing

variable {n : UInt64}

end Routing

section Responses

variable {lexical : LexicalConvert} {host : Host} {n : UInt64} {req : Request}
  {mock : SamplingMock} {block : SamplingBlock}

/-- The id that the handler takes out of the target. -/
def extracted (lexical : LexicalConvert) (req : Request) : UInt64 :=
  UInt64.ofNat (lexical.convert (afterSlash req.target) 0)

variable {s : ApiState}

theorem samplingStatusHandler_zero (hzero : extracted lexical req = 0) :
    (samplingStatusHandler lexical mock req).run s =
      .error (.runtimeError (ascii "invalid id format")) s := by
  unfold extracted at hzero
  simp only [samplingStatusHandler, if_pos hzero]
  rfl

theorem samplingStatusHandler_live (hnonzero : extracted lexical req ≠ 0)
    (hlive : mock.samplings.lookup (extracted lexical req) = some block) :
    (samplingStatusHandler lexical mock req).run s = .ok (getStatus block true) s := by
  unfold extracted at hnonzero hlive
  simp only [samplingStatusHandler, if_neg hnonzero, SamplingMock.statusOf, hlive]
  rfl

theorem samplingStatusHandler_missing (hnonzero : extracted lexical req ≠ 0)
    (hmissing : mock.samplings.lookup (extracted lexical req) = none) :
    (samplingStatusHandler lexical mock req).run s = .error (.notFound req.target) s := by
  unfold extracted at hnonzero hmissing
  simp only [samplingStatusHandler, if_neg hnonzero, SamplingMock.statusOf, hmissing]
  rfl

/-- Another method is refused before the handler is called. -/
theorem handleRequest_unsupported {res : Response}
    (hmethod : ¬ (req.method = .get ∨ req.method = .post))
    (hres : createJsonBadRequest host req (ascii "Unsupported method.") = .ok res) :
    (JsonApi.handleRequest host (samplingStatusHandler lexical mock) req).run s =
      .ok ⟨⟩ { s with session := s.session.enqueue res } := by
  unfold JsonApi.handleRequest
  rw [if_pos (by tauto), hres]
  rfl

end Responses

end BeastServer.SamplingStatus
