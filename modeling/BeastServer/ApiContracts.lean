import BeastServer.ContainedPaths
import BeastServer.InventedPictures
import BeastServer.Servers

/-!
What every response of the API has in common.
A response repeats the version of the request and whether the connection stays.
Its body is the data of a picture, or a JSON object in which ret is zero exactly
for the status 200. Whether a request is answered at all is decided by its body
and by the threads that the handler has to wait for.
-/
namespace BeastServer.ApiContracts

open ByteStrings Exceptions Programs HttpMessages HttpSessions JsonValues JsonParsers
open JsonSerializers JsonTokens JsonRoundTrips AnsweredRequests OkResponses AcceptedTexts
open PicturePreviews UriRouters Routes PreviewVisits ExactNumbers
open JsonApi hiding handleRequest send
open Samplings SamplingRequests Servers

section Responses

variable {host : Host} {req : Request} {res : Response} {json : Json} {status : ℕ} {e : Exception}
  {text : Bytes}

structure Echoes (req : Request) (res : Response) : Prop where
  version : res.version = req.version
  keepAlive : res.keepAlive = req.keepAlive
  server : res.server = getServerSignature

/-- A JSON object whose ret says whether the status is 200. -/
structure JsonAnswer (host : Host) (res : Response) : Prop where
  contentType : res.contentType = ascii "application/json"
  length : res.contentLength = some res.body.length
  status : res.status ∈ [200, 400, 404, 500]
  body : ∃ members ret q, parse host res.body = .ok (.object members) q ∧
    Members.find (ascii "ret") members = some ret ∧
      number ret = some (if res.status = 200 then 0 else 1)

/-- What the functions of the endpoints return: null, a text, or an object that
has no ret of its own. -/
inductive Writable : Json → Prop
  | null : Writable .null
  | string (text : Bytes) : Writable (.string text)
  | object (members : Members) (hsound : Sound (.object members))
      (hret : Members.find (ascii "ret") members = none) : Writable (.object members)

theorem echoes_jsonResponse (h : jsonResponse host status req json = .ok res) : Echoes req res := by
  unfold jsonResponse at h
  cases hbody : dump host json with
  | error e =>
    rw [hbody] at h
    cases h
  | ok body =>
    rw [hbody] at h
    cases h
    exact ⟨rfl, rfl, rfl⟩

/-- The fields of a response whose body is dumped and can be read again. -/
theorem jsonAnswer_of_read {members : Members} {ret : Json}
    (h : jsonResponse host status req json = .ok res) (hstatus : status ∈ [200, 400, 404, 500])
    (hread : ∀ body, dump host json = .ok body → ∃ q, parse host body = .ok (.object members) q)
    (hret : Members.find (ascii "ret") members = some ret)
    (hnumber : number ret = some (if status = 200 then 0 else 1)) : JsonAnswer host res := by
  unfold jsonResponse at h
  cases hbody : dump host json with
  | error e =>
    rw [hbody] at h
    cases h
  | ok body =>
    rw [hbody] at h
    cases h
    obtain ⟨q, hparse⟩ := hread body hbody
    exact ⟨rfl, rfl, hstatus, members, ret, q, hparse, hret, hnumber⟩

theorem jsonAnswer_error (hhost : RoundTrips host)
    (h : jsonResponse host status req (errorJson text) = .ok res)
    (hstatus : status ∈ [400, 404, 500]) : JsonAnswer host res := by
  have hok : (jsonResponse host status req (errorJson text)).isOk = true := by
    rw [h]
    rfl
  have htext := errorResponse_isOk.mp hok
  have hproper : Proper (errorJson text) := by
    rw [errorJson_eq]
    have hkeys : ascii "error" < ascii "ret" := by decide
    have herror : Utf8.WellFormed (ascii "error") := by decide
    have hret : Utf8.WellFormed (ascii "ret") := by decide
    apply proper_object
    · refine ⟨?_, ?_⟩
      · simpa [SortedKeys] using hkeys
      · simp only [List.forall_mem_cons]
        exact ⟨herror, hret, by simp⟩
    · simp only [List.forall_mem_cons]
      exact ⟨proper_string htext, proper_number 1, by simp⟩
  have hread : ∀ body, dump host (errorJson text) = .ok body → ∃ q, parse host body =
      .ok (.object [(ascii "error", .string text), (ascii "ret", .numberUnsigned 1)]) q := by
    intro body hbody
    obtain ⟨body', q, hdump, hparse⟩ := parse_dump hhost hproper
    rw [hdump] at hbody
    obtain rfl := Except.ok.inj hbody
    exact ⟨q, hparse⟩
  have hnot : status ≠ 200 := by
    rintro rfl
    exact absurd hstatus (by decide)
  refine jsonAnswer_of_read h (List.mem_cons_of_mem _ hstatus) hread rfl ?_
  rw [if_neg hnot]
  rfl

/-- The text of the response that a catch clause builds. -/
def caughtText (req : Request) : Exception → Bytes
  | .notFound _ => req.target ++ ascii " not found"
  | ex => ex.what

theorem caughtResponse_eq : ∃ status ∈ [400, 404, 500],
    caughtResponse host req e = jsonResponse host status req (errorJson (caughtText req e)) := by
  cases e with
  | notFound mess => exact ⟨404, by decide, rfl⟩
  | _ => exact ⟨500, by decide, rfl⟩

theorem caughtResponse_isOk :
    (caughtResponse host req e).isOk = true ↔ Utf8.WellFormed (caughtText req e) := by
  obtain ⟨status, -, heq⟩ := @caughtResponse_eq host req e
  rw [heq]
  exact errorResponse_isOk

/-- A response of the API to the request. -/
def Contract (host : Host) (req : Request) (res : Response) : Prop :=
  Echoes req res ∧ JsonAnswer host res

theorem contract_error (hhost : RoundTrips host) (hstatus : status ∈ [400, 404, 500])
    (h : jsonResponse host status req (errorJson text) = .ok res) : Contract host req res :=
  ⟨echoes_jsonResponse h, jsonAnswer_error hhost h hstatus⟩

theorem contract_caught (hhost : RoundTrips host) (h : caughtResponse host req e = .ok res) :
    Contract host req res := by
  obtain ⟨status, hstatus, heq⟩ := @caughtResponse_eq host req e
  exact contract_error hhost hstatus (heq.symm.trans h)

theorem contract_ok (hhost : RoundTrips host)
    (hkind : json = .null ∨ ∃ members, json = .object members)
    (hproper : Proper json) (hret : Members.find (ascii "ret") (membersOf json) = none) :
    ∃ res, createJsonOkRequest host req json = .ok res ∧ Contract host req res := by
  obtain ⟨res, q, hres, hstatus, hparse⟩ := @exists_okResponse host req json hhost hproper hkind
  obtain ⟨hsorted, -⟩ := proper_membersOf hproper _ .self
  refine ⟨res, hres, ?_⟩
  rw [createJsonOkRequest_eq hkind] at hres
  refine ⟨echoes_jsonResponse hres, ?_⟩
  have hread : ∀ body, dump host (.object (answeredMembers (membersOf json))) = .ok body →
      ∃ q, parse host body =
        .ok (.object (rereadMembers (answeredMembers (membersOf json)))) q := by
    intro body hbody
    obtain ⟨body', q', hdump, hparse'⟩ :=
      parse_dump hhost (proper_answered (proper_membersOf hproper))
    rw [hdump] at hbody
    obtain rfl := Except.ok.inj hbody
    exact ⟨q', hparse'⟩
  refine jsonAnswer_of_read hres (by decide) hread (find_answered_ret hsorted) ?_
  rw [hret]
  rfl

/-- What a function returns is always answered, a text with an error. -/
theorem responseTo_returned (hhost : RoundTrips host) (h : Writable json) :
    ∃ res, responseTo host req (.ok json) = .ok res ∧ Contract host req res := by
  have hcreated : ∀ {value : Json}, (value = .null ∨ ∃ members, value = .object members) →
      Proper value → Members.find (ascii "ret") (membersOf value) = none →
      ∃ res, responseTo host req (.ok value) = .ok res ∧ Contract host req res := by
    intro value hkind hproper hret
    obtain ⟨res, hres, hcontract⟩ := @contract_ok host req value hhost hkind hproper hret
    exact ⟨res, by rw [responseTo, hres], hcontract⟩
  cases h with
  | null =>
    apply hcreated (Or.inl rfl)
    · intro part hpart
      cases hpart
      trivial
    · rfl
  | object members hsound hret => exact hcreated (Or.inr ⟨members, rfl⟩) hsound.proper hret
  | string text =>
    obtain ⟨arg, hascii, hrefused⟩ := @createJsonOkRequest_refused host req (.string text) (by simp)
    have hok : (caughtResponse host req (.json .typeError 311 arg)).isOk = true :=
      caughtResponse_isOk.mpr (Utf8.wellFormed_of_isAscii (plain_json hascii))
    cases hres : caughtResponse host req (.json .typeError 311 arg) with
    | ok res =>
      refine ⟨res, ?_, contract_caught hhost hres⟩
      rw [responseTo, hrefused]
      exact hres
    | error e =>
      rw [hres] at hok
      cases hok

end Responses

section Results

/-- What a handler may end with: one response within the contract, or an escaping
exception, or nothing at all. -/
inductive Served (contract : Response → Prop) (s : ServerState) (hangs unreadable : Prop) :
    EStateM.Result Escape ServerState PUnit → Prop
  | endless (t : ServerState) (h : hangs) : Served contract s hangs unreadable (.error .endless t)
  | escaped (e : Exception) (t : ServerState) (h : ¬ hangs ∧ unreadable) :
    Served contract s hangs unreadable (.error (.exception e) t)
  | answered (res : Response) (t : ServerState) (h : ¬ hangs ∧ ¬ unreadable)
      (hsession : t.session = s.session.enqueue res) (hcontract : contract res) :
    Served contract s hangs unreadable (.ok ⟨⟩ t)

/-- What the function of an endpoint may end with. -/
inductive Evaluated (req : Request) (s : ServerState) (hangs unreadable : Prop) :
    EStateM.Result Escape ServerState Json → Prop
  | endless (t : ServerState) (h : hangs) : Evaluated req s hangs unreadable (.error .endless t)
  | thrown (e : Exception) (t : ServerState) (hsession : t.session = s.session) (h : ¬ hangs)
      (htext : Utf8.WellFormed (caughtText req e) ↔ ¬ unreadable) :
    Evaluated req s hangs unreadable (.error (.exception e) t)
  | returned (json : Json) (t : ServerState) (hsession : t.session = s.session)
      (h : ¬ hangs ∧ ¬ unreadable) (hjson : Writable json) :
    Evaluated req s hangs unreadable (.ok json t)

variable {host : Host} {req : Request} {s : ServerState} {hangs unreadable : Prop}
  {func : Request → ServerProgram Json}

/-- JsonApiRequestHandler turns what the function ends with into the response. -/
theorem served_of_evaluated (hhost : RoundTrips host)
    (h : Evaluated req s hangs unreadable ((func req).run s)) :
    Served (Contract host req) s ((req.method = .get ∨ req.method = .post) ∧ hangs)
      ((req.method = .get ∨ req.method = .post) ∧ unreadable)
      ((Servers.handleRequest host func req).run s) := by
  by_cases hmethod : req.method = .get ∨ req.method = .post
  swap
  · have hok : (createJsonBadRequest host req (ascii "Unsupported method.")).isOk = true :=
      errorResponse_isOk.mpr (Utf8.wellFormed_of_isAscii (by decide))
    rw [Servers.handleRequest_unsupported (fun h => hmethod (Or.inl h))
      (fun h => hmethod (Or.inr h))]
    cases hres : createJsonBadRequest host req (ascii "Unsupported method.") with
    | ok res =>
      exact .answered res _ ⟨fun h => hmethod h.1, fun h => hmethod h.1⟩ rfl
        (contract_error hhost (by decide) hres)
    | error e =>
      rw [hres] at hok
      cases hok
  generalize hrun : (func req).run s = result at h
  cases h with
  | endless t hhangs =>
    rw [handleRequest_endless hmethod hrun]
    exact .endless t ⟨hmethod, hhangs⟩
  | thrown e t hsession hends htext =>
    rw [handleRequest_error hmethod hrun]
    have hiff := @caughtResponse_isOk host req e
    rw [htext] at hiff
    cases hres : caughtResponse host req e with
    | ok res =>
      rw [hres] at hiff
      have hresponse : responseTo host req (.error e) = .ok res := hres
      rw [hresponse]
      refine .answered res _ ⟨fun h => hends h.2, fun h => hiff.mp rfl h.2⟩ ?_
        (contract_caught hhost hres)
      rw [← hsession]
      rfl
    | error e' =>
      rw [hres] at hiff
      have hresponse : responseTo host req (.error e) = .error e' := hres
      rw [hresponse]
      refine .escaped e' t ⟨fun h => hends h.2, hmethod, ?_⟩
      by_contra hreadable
      cases hiff.mpr hreadable
  | returned json t hsession hends hjson =>
    obtain ⟨res, hres, hcontract⟩ := @responseTo_returned host req json hhost hjson
    rw [handleRequest_ok hmethod hrun, hres]
    refine .answered res _ ⟨fun h => hends.1 h.2, fun h => hends.2 h.2⟩ ?_ hcontract
    rw [← hsession]
    rfl

end Results

section Functions

variable {p : Platform} {m : Moment p} {req : Request} {s : ServerState}

/-- The ids of the stored previews can be written. -/
def AsciiIds (previews : PicturePreviewHandler) : Prop :=
  ∀ id pvs, previews.pictures id = some pvs → IsAscii pvs.uuid

theorem evaluated_version :
    Evaluated req s False False ((onApi (versionApiHandler req)).run s) :=
  .returned _ _ rfl ⟨not_false, not_false⟩ (.string _)

theorem writable_status (block : SamplingBlocks.SamplingBlock) (detail : Bool) :
    Writable (getStatus block detail) := by
  have hkeys : ∀ key ∈ ([ascii "id", ascii "status", ascii "progress", ascii "snaps"] : List Bytes),
      IsAscii key := by decide
  simp only [List.forall_mem_cons] at hkeys
  obtain ⟨hid, hstatus, hprogress, hsnaps, -⟩ := hkeys
  have htext : IsAscii (if block.running = true then ascii "running" else ascii "finished") := by
    split
    · decide
    · decide
  have hlist : Sound (.array (block.snaps.map Json.numberUnsigned)) := by
    apply sound_array
    intro element helement
    obtain ⟨snap, -, rfl⟩ := List.mem_map.mp helement
    exact PreviewLists.sound_unsigned snap
  unfold getStatus
  cases detail with
  | true =>
    refine .object _ (PreviewLists.sound_ofPairs ?_) rfl
    simp only [List.cons_append, List.nil_append, List.forall_mem_cons]
    exact ⟨⟨hid, PreviewLists.sound_unsigned _⟩, ⟨hstatus, PreviewLists.sound_string htext⟩,
      ⟨hprogress, PreviewLists.sound_integer _⟩, ⟨hsnaps, hlist⟩, by simp⟩
  | false =>
    refine .object _ (PreviewLists.sound_ofPairs ?_) rfl
    simp only [List.forall_mem_cons]
    exact ⟨⟨hid, PreviewLists.sound_unsigned _⟩, ⟨hstatus, PreviewLists.sound_string htext⟩,
      by simp⟩

/-- What is answered when the limits of a sampling cannot be read. -/
theorem limitsOf_text {e : Exception} (h : limitsOf p.castInt p.host req.body = .error e) :
    Utf8.WellFormed (caughtText req e) ↔ ¬ (req.body ≠ [] ∧ RefusedUnreadable p.host req.body) := by
  obtain ⟨hbody, htext⟩ := limitsOf_readable h
  have hcaught : caughtText req e = e.what := by
    obtain ⟨kind, n, arg, rfl⟩ := limitsOf_json h
    cases kind <;> rfl
  rw [hcaught, htext]
  tauto

/-- What is answered when the id of a sampling cannot be read. -/
theorem idOf_text {e : Exception} (h : idOf p.host req.body = .error e) :
    Utf8.WellFormed (caughtText req (stopCaught e)) ↔ ¬ RefusedUnreadable p.host req.body := by
  have htext : caughtText req (stopCaught e) = e.what := by
    rcases stopCaught_cases h with ⟨hsame, n, arg, rfl⟩ | hruntime
    · rw [hsame]
      rfl
    · rw [hruntime]
      rfl
  rw [htext]
  exact idOf_readable h

theorem evaluated_start :
    Evaluated req s (StartHangs p.castInt p.host m.earlier req s.mock)
      (req.body ≠ [] ∧ RefusedUnreadable p.host req.body)
      ((onMock (samplingStartHandler p.castInt p.host m.earlier req)).run s) := by
  have hreadable : ∀ {limits}, limitsOf p.castInt p.host req.body = .ok limits →
      ¬ (req.body ≠ [] ∧ RefusedUnreadable p.host req.body) :=
    fun hread h => limitsOf_ok hread h.1 h.2
  rcases @samplingStartHandler_run p.castInt p.host m.earlier req s.mock with
    ⟨hhangs, t, hrun⟩ | ⟨hends, ⟨limits, block, t, hread, hrun⟩ | ⟨e, hrun, hcause⟩⟩
  · rw [onMock, within_error hrun]
    exact .endless _ hhangs
  · rw [onMock, within_ok hrun]
    exact .returned _ _ rfl ⟨hends, hreadable hread⟩ (writable_status block false)
  · rw [onMock, within_error hrun]
    refine .thrown e _ rfl hends ?_
    rcases hcause with hlimits | ⟨⟨limits, hread⟩, rfl⟩
    · exact limitsOf_text hlimits
    · have hrunning : IsAscii (ascii "already running") := by decide
      exact iff_of_true (Utf8.wellFormed_of_isAscii hrunning) (hreadable hread)

theorem evaluated_stop :
    Evaluated req s (StopHangs p.host m.earlier req s.mock) (RefusedUnreadable p.host req.body)
      ((onMock (samplingStopHandler p.host m.earlier req)).run s) := by
  rcases @samplingStopHandler_run p.host m.earlier req s.mock with
    ⟨hhangs, t, hrun⟩ | ⟨hends, ⟨id, hread, hrun⟩ | ⟨e, hread, hrun⟩⟩
  · rw [onMock, within_error hrun]
    exact .endless _ hhangs
  · rw [onMock, within_ok hrun]
    exact .returned _ _ rfl ⟨hends, idOf_ok hread⟩ .null
  · rw [onMock, within_error hrun]
    exact .thrown _ _ rfl hends (idOf_text hread)

theorem evaluated_status (h : IsAscii req.target) :
    Evaluated req s
      (SamplingStatus.extracted p.lexical req ≠ 0 ∧ s.mock.destroyed.isSome = true) False
      ((Servers.samplingStatusHandler p.lexical req).run s) := by
  unfold Servers.samplingStatusHandler
  by_cases hzero : SamplingStatus.extracted p.lexical req = 0
  · have hinvalid : IsAscii (ascii "invalid id format") := by decide
    rw [if_pos hzero, reportStatus, bind_ok (EStateM.run_get s),
      onApi_error (SamplingStatus.samplingStatusHandler_zero hzero)]
    exact .thrown _ _ rfl (fun hhangs => hhangs.1 hzero)
      (iff_of_true (Utf8.wellFormed_of_isAscii hinvalid) not_false)
  rw [if_neg hzero]
  by_cases hfree : s.mock.destroyed = none
  swap
  · have htaken := Option.isSome_iff_ne_none.mpr hfree
    rw [onMock, bind_error (within_error (lock_taken htaken))]
    exact .endless _ ⟨hzero, htaken⟩
  have hopen : ¬ (SamplingStatus.extracted p.lexical req ≠ 0 ∧ s.mock.destroyed.isSome = true) := by
    simp [hfree]
  have hlocked : (onMock lock).run s = .ok ⟨⟩ s := within_ok (lock_free hfree)
  rw [bind_ok hlocked, reportStatus, bind_ok (EStateM.run_get s)]
  cases hlookup : s.mock.samplings.lookup (SamplingStatus.extracted p.lexical req) with
  | some block =>
    rw [onApi_ok (SamplingStatus.samplingStatusHandler_live hzero hlookup)]
    exact .returned _ _ rfl ⟨hopen, not_false⟩ (writable_status block true)
  | none =>
    have hmissing : IsAscii (req.target ++ ascii " not found") := by
      rw [isAscii_append]
      exact ⟨h, by decide⟩
    rw [onApi_error (SamplingStatus.samplingStatusHandler_missing hzero hlookup)]
    exact .thrown _ _ rfl hopen (iff_of_true (Utf8.wellFormed_of_isAscii hmissing) not_false)

theorem evaluated_pictures :
    Evaluated req s False (RefusedUnreadable p.host req.body)
      ((onApi (JsonApi.picPostHandler (p.circumstances m) req)).run s) := by
  cases hparse : parseJson p.host req.body with
  | error e =>
    have hrun := @picPostHandler_refused (p.circumstances m) req s.api e hparse
    rw [onApi_error hrun]
    exact .thrown _ _ rfl not_false (parseJson_readable hparse)
  | ok json =>
    have hreadable := not_refused_of_parsed hparse
    obtain ⟨t, hsession, hrun | ⟨text, hascii, hrun⟩⟩ :=
      @picPostHandler_run (p.circumstances m) req s.api json hparse
    · rw [onApi_ok hrun]
      exact .returned _ _ hsession ⟨not_false, hreadable⟩ .null
    · rw [onApi_error hrun]
      exact .thrown _ _ hsession not_false
        (iff_of_true (Utf8.wellFormed_of_isAscii hascii) hreadable)

/-- The listing copies stored previews, or it misses one. -/
theorem listPreview_cases (prev : Bytes) (limit : ℕ) (previews : PicturePreviewHandler) :
    (∃ pics, (PicturePreviewHandler.listPreview prev limit).run previews = .ok pics previews ∧
      ∀ pvs ∈ pics, ∃ id, previews.pictures id = some pvs) ∨
    (PicturePreviewHandler.listPreview prev limit).run previews = .error .mapAt previews := by
  have hcollect : ∀ (ids : List Bytes) (n : ℕ) (pics : List Pictures),
      (∀ pvs ∈ pics, ∃ id, previews.pictures id = some pvs) →
      (∃ all, (PicturePreviewHandler.collect prev limit ids n pics).run previews =
        .ok all previews ∧ ∀ pvs ∈ all, ∃ id, previews.pictures id = some pvs) ∨
      (PicturePreviewHandler.collect prev limit ids n pics).run previews =
        .error .mapAt previews := by
    intro ids
    induction ids with
    | nil => exact fun n pics hpics => Or.inl ⟨pics, rfl, hpics⟩
    | cons id ids ih =>
      intro n pics hpics
      rw [PicturePreviewHandler.collect]
      split
      · exact Or.inl ⟨pics, rfl, hpics⟩
      · cases hid : previews.pictures id with
        | none =>
          right
          rw [bind_error (PreviewStores.picturesAt_throws hid)]
        | some pvs =>
          rw [bind_ok (PreviewStores.picturesAt_run hid)]
          apply ih
          intro other hother
          rcases List.mem_append.mp hother with hmem | hmem
          · exact hpics other hmem
          · rw [List.mem_singleton.mp hmem]
            exact ⟨id, hid⟩
  unfold PicturePreviewHandler.listPreview
  rw [bind_ok (EStateM.run_get previews)]
  exact hcollect previews.ids 0 [] (by simp)

theorem writable_listJson {pics : List Pictures} (h : ∀ pvs ∈ pics, IsAscii pvs.uuid) :
    Writable (PreviewLists.listJson pics) :=
  .object _ (PreviewLists.sound_listJson h) rfl

theorem evaluated_preview (h : AsciiIds s.previews) :
    Evaluated req s False False ((onApi (PreviewLists.picListHandler req)).run s) := by
  rcases listPreview_cases ((PreviewPolls.afterLast PreviewPolls.lookup req.target).getD [])
    PreviewPolls.returnLimit s.previews with ⟨pics, hlist, hstored⟩ | hmissing
  · have hascii : ∀ pvs ∈ pics, IsAscii pvs.uuid := by
      intro pvs hpvs
      obtain ⟨id, hid⟩ := hstored pvs hpvs
      exact h id pvs hid
    rw [onApi_ok (@PreviewLists.picListHandler_run req s.api pics hlist)]
    exact .returned _ _ rfl ⟨not_false, not_false⟩ (writable_listJson hascii)
  · rw [onApi_error (@PreviewLists.picListHandler_throws req s.api _ hmissing)]
    exact .thrown _ _ rfl not_false (iff_of_true (wellFormed_of_plain plain_mapAt) not_false)

end Functions

section Endpoints

variable {p : Platform} {m : Moment p} {req : Request} {s : ServerState} {res : Response}

/-- The response with a picture. -/
structure PictureAnswer (res : Response) : Prop where
  contentType : res.contentType = ascii "image/jpeg"
  length : res.contentLength = some res.body.length
  status : res.status = 200

/-- The response with a file: its type goes by the path, and its length is that
of the content, which the answer to HEAD leaves out. -/
structure FileAnswer (req : Request) (path content : Bytes) (res : Response) : Prop where
  contentType : res.contentType = StaticRequests.getMimeType path
  length : res.contentLength = some content.length
  status : res.status = 200
  body : res.body = if req.method = .head then [] else content

/-- What the static handler says instead of a file. -/
structure HtmlAnswer (res : Response) : Prop where
  contentType : res.contentType = ascii "text/html"
  length : res.contentLength = some res.body.length
  status : res.status ∈ [400, 404, 500]

/-- What the responses of an endpoint are like. -/
def ContractAt (host : Host) (req : Request) : Endpoint → Response → Prop
  | .picture, res => Echoes req res ∧ (JsonAnswer host res ∨ PictureAnswer res)
  | .static, res => Echoes req res ∧
      (HtmlAnswer res ∨ ∃ path content, FileAnswer req path content res)
  | .version, res => Contract host req res
  | .samplingStart, res => Contract host req res
  | .samplingStatus, res => Contract host req res
  | .samplingStop, res => Contract host req res
  | .pictures, res => Contract host req res
  | .preview, res => Contract host req res

/-- The request waits for a thread or a mutex that it does not get. -/
def HangsAt (p : Platform) (m : Moment p) (req : Request) (mock : SamplingMock) : Endpoint → Prop
  | .samplingStart => (req.method = .get ∨ req.method = .post) ∧
      StartHangs p.castInt p.host m.earlier req mock
  | .samplingStatus => (req.method = .get ∨ req.method = .post) ∧
      SamplingStatus.extracted p.lexical req ≠ 0 ∧ mock.destroyed.isSome = true
  | .samplingStop => (req.method = .get ∨ req.method = .post) ∧
      StopHangs p.host m.earlier req mock
  | .version => False
  | .picture => False
  | .pictures => False
  | .preview => False
  | .static => False

/-- The endpoint parses the body, and the bytes that are quoted of it are unreadable. -/
def UnreadableAt (host : Host) (req : Request) : Endpoint → Prop
  | .samplingStart => (req.method = .get ∨ req.method = .post) ∧
      req.body ≠ [] ∧ RefusedUnreadable host req.body
  | .samplingStop => (req.method = .get ∨ req.method = .post) ∧ RefusedUnreadable host req.body
  | .pictures => (req.method = .get ∨ req.method = .post) ∧ RefusedUnreadable host req.body
  | .version => False
  | .samplingStatus => False
  | .picture => False
  | .preview => False
  | .static => False

/-- An ASCII body can be quoted. -/
theorem readableAt_of_isAscii {host : Host} {endpoint : Endpoint} (h : IsAscii req.body) :
    ¬ UnreadableAt host req endpoint := by
  have hreadable := @readable_of_isAscii host req.body h
  cases endpoint with
  | samplingStart => exact fun hunreadable => hreadable hunreadable.2.2
  | samplingStop => exact fun hunreadable => hreadable hunreadable.2
  | pictures => exact fun hunreadable => hreadable hunreadable.2
  | _ => exact not_false

theorem Served.mono {contract contract' : Response → Prop}
    {hangs hangs' unreadable unreadable' : Prop}
    {result : EStateM.Result Escape ServerState PUnit}
    (h : Served contract s hangs unreadable result)
    (hcontract : ∀ res, contract res → contract' res)
    (hhangs : hangs ↔ hangs') (hunreadable : unreadable ↔ unreadable') :
    Served contract' s hangs' unreadable' result := by
  rw [hhangs, hunreadable] at h
  cases h with
  | endless t h => exact .endless t h
  | escaped e t h => exact .escaped e t h
  | answered res t h hsession hres => exact .answered res t h hsession (hcontract res hres)

theorem isAscii_status {target : Bytes} (h : Addressed .samplingStatus target) :
    IsAscii target := by
  obtain ⟨id, -, hdigits, rfl⟩ := h
  have hascii : IsAscii digits := by decide
  rw [isAscii_append]
  exact ⟨by decide, fun c hc => hascii c (hdigits c hc)⟩

theorem contract_picture (hhost : RoundTrips p.host) {status : ℕ} {text : Bytes}
    (hstatus : status ∈ [400, 404, 500])
    (h : jsonResponse p.host status req (errorJson text) = .ok res) :
    ContractAt p.host req .picture res :=
  ⟨echoes_jsonResponse h, Or.inl (jsonAnswer_error hhost h hstatus)⟩

/-- A visit is answered with a picture, or not found. -/
theorem served_picture (h : Routed req.target) :
    Served (ContractAt p.host req .picture) s False False
      ((onApi (PreviewVisits.handleRequest p.lexical p.host req)).run s) := by
  unfold PreviewVisits.handleRequest
  by_cases hmethod : req.method = .get
  swap
  · have hunsupported : IsAscii (ascii "Unsupported method.") := by decide
    obtain ⟨res, hres, -⟩ := @errorResponse_ok p.host req 400 _
      (Utf8.wellFormed_of_isAscii hunsupported)
    have hbad : createJsonBadRequest p.host req (ascii "Unsupported method.") = .ok res := hres
    rw [if_pos hmethod, hbad]
    exact .answered res _ ⟨not_false, not_false⟩ rfl
      (contract_picture p.roundTrips (by decide) hres)
  rw [if_neg (not_not.mpr hmethod)]
  obtain ⟨uuid, name, index, hrouted⟩ := InventedPictures.routedTo_of_routed h
  have hvisited : ∀ {res : Response},
      (answerVisit p.host req uuid name index).run s.previews = .ok res s.previews →
      (onApi (tryCatch (do JsonApi.send (← onPreviews (visitPreview p.lexical p.host req)))
        (fun ex => do JsonApi.send (← ofExcept (createJsonServerError p.host req ex.what))))).run
          s = .ok ⟨⟩ (s.send res) := by
    intro res hanswer
    have hvisit : (visitPreview p.lexical p.host req).run s.api.previews = .ok res s.previews :=
      (InventedPictures.visitPreview_routed hrouted).trans hanswer
    have hsend : (do JsonApi.send (← onPreviews (visitPreview p.lexical p.host req)) :
        ApiProgram PUnit).run s.api = .ok ⟨⟩ (s.send res).api := by
      unfold onPreviews
      rw [bind_ok (within_ok hvisit)]
      rfl
    rw [onApi_ok (tryCatch_ok hsend)]
    rfl
  cases hentry : s.previews.pictures uuid with
  | none =>
    obtain ⟨res, hres, -⟩ := @InventedPictures.createJsonNotFound_ok p.host req hrouted.isAscii
    rw [hvisited (answerVisit_missing (getPicture_throws hrouted.kind hentry) hres)]
    exact .answered res _ ⟨not_false, not_false⟩ rfl
      (contract_picture p.roundTrips (by decide) hres)
  | some pvs =>
    rw [hvisited (answerVisit_found (getPicture_run hrouted.kind hentry))]
    exact .answered _ _ ⟨not_false, not_false⟩ rfl ⟨⟨rfl, rfl, rfl⟩, Or.inr ⟨rfl, rfl, rfl⟩⟩

/-- The loop ends within the rounds that make its path too long for a directory. -/
theorem indexLoop_ends (rounds : ℕ) {path : Bytes} (hnul : 0 ∉ path)
    (hlong : p.pathMax < path.length + rounds) (f : StaticRequests.StaticState) :
    ∃ file t, (StaticRequests.indexLoop m.fs (rounds + 1) path).run f = .ok file t ∧
      t.session = f.session := by
  induction rounds generalizing path f with
  | zero =>
    have hfile : m.fs.isDirectory (StaticRequests.cString path) = false := by
      rw [ContainedPaths.cString_eq hnul]
      exact m.bounded path hlong
    exact ⟨path, _, StaticRequests.indexLoop_file hfile f, rfl⟩
  | succ rounds ih =>
    cases hdirectory : m.fs.isDirectory (StaticRequests.cString path) with
    | false => exact ⟨path, _, StaticRequests.indexLoop_file hdirectory f, rfl⟩
    | true =>
      rw [StaticRequests.indexLoop_directory hdirectory f]
      have hindex : (ascii "/index.html").length = 11 := by decide
      have hnone : 0 ∉ ascii "/index.html" := by decide
      refine ih ?_ ?_ _
      · rw [List.mem_append, not_or]
        exact ⟨hnul, hnone⟩
      · rw [List.length_append, hindex]
        omega

theorem html_contract {status : ℕ} {text : Bytes} (hstatus : status ∈ [400, 404, 500]) :
    ContractAt p.host req .static (StaticRequests.htmlResponse status req text) :=
  ⟨⟨rfl, rfl, rfl⟩, Or.inl ⟨rfl, rfl, hstatus⟩⟩

/-- A response of the static handler with status 200 has the content of a file. -/
def FromFiles (fs : StaticRequests.FileSystem) (req : Request) (res : Response) : Prop :=
  res.status = 200 → ∃ path content,
    fs.openFile (StaticRequests.cString path) = .ok content ∧ FileAnswer req path content res

theorem answer_contract (fs : StaticRequests.FileSystem) (path : Bytes) :
    ContractAt p.host req .static (StaticRequests.answer fs req path) ∧
      FromFiles fs req (StaticRequests.answer fs req path) := by
  unfold StaticRequests.answer
  split
  · exact ⟨html_contract (by decide), fun hok => by cases hok⟩
  · exact ⟨html_contract (by decide), fun hok => by cases hok⟩
  · rename_i content hopen
    have hfile : FileAnswer req path content (StaticRequests.fileResponse req path content.length
        (if req.method = .head then [] else content)) := ⟨rfl, rfl, rfl, rfl⟩
    exact ⟨⟨⟨rfl, rfl, rfl⟩, Or.inr ⟨path, content, hfile⟩⟩, fun _ => ⟨path, content, hopen, hfile⟩⟩

theorem served_static (hnul : 0 ∉ req.target) :
    Served (fun res => ContractAt p.host req .static res ∧ FromFiles m.fs req res) s False False
      ((onFiles (StaticRequests.handleRequest m.fs p.documentRoot (p.pathMax + 2) req)).run s) := by
  cases hrefusal : StaticRequests.refusal req with
  | some res =>
    have hrun := @StaticRequests.handleRequest_refused m.fs p.documentRoot req (p.pathMax + 2) res
      hrefusal s.files
    rw [onFiles, EStateM.run_adaptExcept, within_ok hrun]
    refine .answered res _ ⟨not_false, not_false⟩ rfl ?_
    unfold StaticRequests.refusal at hrefusal
    split at hrefusal
    · obtain rfl := Option.some.inj hrefusal
      exact ⟨html_contract (by decide), fun hok => by cases hok⟩
    · split at hrefusal
      · obtain rfl := Option.some.inj hrefusal
        exact ⟨html_contract (by decide), fun hok => by cases hok⟩
      · cases hrefusal
  | none =>
    obtain ⟨file, t, hloop, hsession⟩ := @indexLoop_ends p m (p.pathMax + 1) _
      (ContainedPaths.startPath_nul p.root_nul hnul) (by omega) s.files
    have hrun : (StaticRequests.handleRequest m.fs p.documentRoot (p.pathMax + 2) req).run s.files =
        .ok ⟨⟩ ⟨t.accesses ++ [.openFile (StaticRequests.cString file)],
          t.session.enqueue (StaticRequests.answer m.fs req file)⟩ := by
      rw [StaticRequests.handleRequest_served hrefusal, bind_ok hloop, StaticRequests.serve_run]
    rw [onFiles, EStateM.run_adaptExcept, within_ok hrun]
    refine .answered (StaticRequests.answer m.fs req file) _ ⟨not_false, not_false⟩ ?_
      (answer_contract m.fs file)
    show t.session.enqueue _ = _
    rw [hsession]
    rfl

theorem served_api (endpoint : Endpoint) (func : Request → ServerProgram Json)
    {hangs unreadable : Prop} (h : Evaluated req s hangs unreadable ((func req).run s))
    (hcontract : ContractAt p.host req endpoint = Contract p.host req)
    (hhangs : HangsAt p m req s.mock endpoint ↔
      (req.method = .get ∨ req.method = .post) ∧ hangs)
    (hunreadable : UnreadableAt p.host req endpoint ↔
      (req.method = .get ∨ req.method = .post) ∧ unreadable) :
    Served (ContractAt p.host req endpoint) s (HangsAt p m req s.mock endpoint)
      (UnreadableAt p.host req endpoint) ((Servers.handleRequest p.host func req).run s) := by
  rw [hcontract]
  exact (served_of_evaluated p.roundTrips h).mono (fun _ hres => hres) hhangs.symm hunreadable.symm

/-- Each handler but the static one, which has its own contract. -/
theorem served_other (endpoint : Endpoint) (hother : endpoint ≠ .static) {hangs unreadable : Prop}
    {result : EStateM.Result Escape ServerState PUnit}
    (h : Served (ContractAt p.host req endpoint) s hangs unreadable result) :
    Served (fun res => ContractAt p.host req endpoint res ∧
      (endpoint = .static → FromFiles m.fs req res)) s hangs unreadable result :=
  h.mono (fun _ hres => ⟨hres, fun heq => absurd heq hother⟩) Iff.rfl Iff.rfl

/-- Every request, whatever it is and whatever the server holds: the router has
a handler for it, and the handler enqueues exactly one response, within the
contract of its endpoint, unless it hangs or quotes unreadable bytes. -/
theorem request_served (p : Platform) (m : Moment p) (req : Request) (s : ServerState)
    (hnul : 0 ∉ req.target) (hids : AsciiIds s.previews) :
    ∃ endpoint, resolve handlers req.target = some endpoint ∧
      Served (fun res => ContractAt p.host req endpoint res ∧
        (endpoint = .static → FromFiles m.fs req res)) s (HangsAt p m req s.mock endpoint)
        (UnreadableAt p.host req endpoint) ((serve p m req).run s) := by
  obtain ⟨endpoint, hresolve⟩ : ∃ endpoint, resolve handlers req.target = some endpoint := by
    rw [handlers_eq, resolve_append_singleton]
    exact ⟨_, rfl⟩
  refine ⟨endpoint, hresolve, ?_⟩
  rw [serve, hresolve]
  have haddressed := resolve_iff.mp hresolve
  cases endpoint with
  | version =>
    refine served_other .version (by decide)
      (served_api .version (fun req => onApi (versionApiHandler req)) evaluated_version rfl ?_ ?_)
    · simp [HangsAt]
    · simp [UnreadableAt]
  | samplingStart =>
    exact served_other .samplingStart (by decide) (served_api .samplingStart
      (fun req => onMock (samplingStartHandler p.castInt p.host m.earlier req))
      evaluated_start rfl Iff.rfl Iff.rfl)
  | samplingStatus =>
    have hascii := isAscii_status (haddressed.resolve_right (by simp))
    refine served_other .samplingStatus (by decide) (served_api .samplingStatus
      (Servers.samplingStatusHandler p.lexical) (evaluated_status hascii) rfl Iff.rfl ?_)
    simp [UnreadableAt]
  | samplingStop =>
    exact served_other .samplingStop (by decide) (served_api .samplingStop
      (fun req => onMock (samplingStopHandler p.host m.earlier req))
      evaluated_stop rfl Iff.rfl Iff.rfl)
  | picture =>
    have hpattern := (addressed_iff (picturePattern, .picture) (by simp [apiHandlers])).mpr
      (haddressed.resolve_right (by simp))
    exact served_other .picture (by decide) (served_picture (routed_of_picturePattern hpattern))
  | pictures =>
    refine served_other .pictures (by decide) (served_api .pictures
      (fun req => onApi (JsonApi.picPostHandler (p.circumstances m) req))
      evaluated_pictures rfl ?_ Iff.rfl)
    simp [HangsAt]
  | preview =>
    refine served_other .preview (by decide) (served_api .preview
      (fun req => onApi (PreviewLists.picListHandler req)) (evaluated_preview hids) rfl ?_ ?_)
    · simp [HangsAt]
    · simp [UnreadableAt]
  | static =>
    exact (served_static hnul).mono (fun _ hres => ⟨hres.1, fun _ => hres.2⟩) Iff.rfl Iff.rfl

/-- Doubles are written as their bits, and there is no random generator. -/
def bitsPlatform : Platform where
  host := bitsHost
  roundTrips := bitsHost_roundTrips
  generator := PicturePreviews.noUuids
  lexical := LexicalConvert.boost
  castInt _ := 0
  documentRoot := ascii "/tmp"
  root_nul := by decide
  pathMax := 16

/-- The first request, on a machine without files. -/
def firstMoment : Moment bitsPlatform where
  post := 0
  created := 0
  now := 0
  order := []
  random := none
  time := 0
  fs := ⟨fun _ => false, fun _ => .error .noSuchFile⟩
  bounded _ _ := rfl
  earlier := []

def startedServer : ServerState where
  cache := PictureCaches.PictureCache.empty
  previews := PicturePreviewHandler.make 30
  mock := SamplingMock.make
  accesses := []
  session := HttpSession.run 0

/-- A directory with a file. -/
def docsFiles : StaticRequests.FileSystem where
  isDirectory path := decide (path = ascii "/tmp/docs")
  openFile path := if path = ascii "/tmp/docs/index.html" then .ok [1, 2] else .error .noSuchFile

/-- The first request, on a machine with a directory in its document root. -/
def docsMoment : Moment bitsPlatform where
  post := 0
  created := 0
  now := 0
  order := []
  random := none
  time := 0
  fs := docsFiles
  bounded path hlong := by
    apply decide_eq_false
    rintro rfl
    exact absurd hlong (by decide)
  earlier := []

/-- The server holds a preview. -/
def storedServer : ServerState :=
  { startedServer with
    previews := PicturePreviewHandler.store (decimal 1) 0 [⟨[7]⟩] startedServer.previews }

theorem asciiIds_storedServer : AsciiIds storedServer.previews := by
  intro id pvs hid
  have hstored : (PicturePreviewHandler.store (decimal 1) 0 [⟨[7]⟩]
      startedServer.previews).pictures id = some pvs := hid
  rcases PreviewStores.store_pictures _ _ hstored with hold | rfl
  · cases hold
  · exact isAscii_decimal 1

/-- The directory is asked for, and then the list of the previews. -/
theorem request_served_docs :
    (∃ endpoint, resolve handlers ContainedPaths.getDocs.target = some endpoint ∧
      Served (fun res => ContractAt bitsPlatform.host ContainedPaths.getDocs endpoint res ∧
        (endpoint = .static → FromFiles docsMoment.fs ContainedPaths.getDocs res)) storedServer
        (HangsAt bitsPlatform docsMoment ContainedPaths.getDocs storedServer.mock endpoint)
        (UnreadableAt bitsPlatform.host ContainedPaths.getDocs endpoint)
        ((serve bitsPlatform docsMoment ContainedPaths.getDocs).run storedServer)) ∧
    ∃ endpoint, resolve handlers PreviewLists.listRequest.target = some endpoint ∧
      Served (fun res => ContractAt bitsPlatform.host PreviewLists.listRequest endpoint res ∧
        (endpoint = .static → FromFiles docsMoment.fs PreviewLists.listRequest res)) storedServer
        (HangsAt bitsPlatform docsMoment PreviewLists.listRequest storedServer.mock endpoint)
        (UnreadableAt bitsPlatform.host PreviewLists.listRequest endpoint)
        ((serve bitsPlatform docsMoment PreviewLists.listRequest).run storedServer) :=
  ⟨request_served bitsPlatform docsMoment ContainedPaths.getDocs storedServer (by decide)
      asciiIds_storedServer,
    request_served bitsPlatform docsMoment PreviewLists.listRequest storedServer (by decide)
      asciiIds_storedServer⟩

end Endpoints

end BeastServer.ApiContracts
