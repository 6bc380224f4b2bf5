import BeastServer.JsonApi

/-!
Requests to the endpoint of posted pictures and their responses.
The handler turns every exception into a runtime error with the same text, and
the text is dumped into the response of the catch clause. All texts are ASCII
except those that quote the bytes the lexer has kept of a token it refused; if
these are not well-formed UTF-8, dumping throws, and nothing catches that.
-/
namespace BeastServer.AnsweredRequests

open ByteStrings Exceptions Programs HttpMessages HttpSessions JsonValues JsonLexers JsonParsers
open JsonSerializers PostedPictures PictureJson PictureCaches PicturePreviews JsonApi Utf8

section Texts

/-- Exceptions with an ASCII text. -/
def Plain (e : Exception) : Prop := IsAscii e.what

theorem plain_json {kind : JsonError} {id : ℕ} {arg : Bytes} (h : IsAscii arg) :
    Plain (.json kind id arg) := by
  have hkind : IsAscii kind.name := by cases kind <;> decide
  simp +decide only [Plain, Exception.what, isAscii_append, hkind, isAscii_decimal, h, and_true]

theorem plain_arrayAt (n size : ℕ) : Plain (.arrayAt n size) := by
  simp +decide only [Plain, Exception.arrayAt, Exception.what, isAscii_append, isAscii_decimal,
    and_true]

theorem plain_vectorAt (n size : ℕ) : Plain (.vectorAt n size) := by
  simp +decide only [Plain, Exception.vectorAt, Exception.what, isAscii_append, isAscii_decimal,
    and_true]

theorem plain_mapAt : Plain .mapAt := by
  unfold Plain
  decide

theorem plain_badAlloc : Plain .badAlloc := by
  unfold Plain
  decide

theorem plain_invalidBase64Character : Plain .invalidBase64Character := by
  unfold Plain
  decide

theorem typeName_isAscii (json : Json) : IsAscii json.typeName := by
  cases json <;> simp only [Json.typeName] <;> decide

theorem plain_atKey {json : Json} {key : Bytes} (hkey : IsAscii key) {e : Exception}
    (h : json.atKey key = .error e) : Plain e := by
  have hother : ∀ json : Json, Plain (.json .typeError 304
      (ascii "cannot use at() with " ++ json.typeName)) := by
    intro json
    apply plain_json
    simp +decide only [isAscii_append, typeName_isAscii, and_true]
  unfold Json.atKey at h
  split at h
  · split at h
    · cases h
    · obtain rfl := Except.error.inj h
      apply plain_json
      simp +decide only [isAscii_append, hkey, and_true]
  · obtain rfl := Except.error.inj h
    exact hother _

theorem plain_typeMustBe {expected : Bytes} (hexpected : IsAscii expected) (json : Json) :
    Plain (Json.typeMustBe expected json) := by
  apply plain_json
  simp +decide only [isAscii_append, hexpected, typeName_isAscii, and_true]

theorem plain_getUnsigned {host : Host} {json : Json} {e : Exception}
    (h : json.getUnsigned host = .error e) : Plain e := by
  cases json <;> cases h <;> exact plain_typeMustBe (by decide) _

theorem plain_getUnsignedLong {host : Host} {json : Json} {e : Exception}
    (h : json.getUnsignedLong host = .error e) : Plain e := by
  cases json <;> cases h <;> exact plain_typeMustBe (by decide) _

theorem plain_getString {json : Json} {e : Exception} (h : json.getString = .error e) :
    Plain e := by
  cases json <;> cases h <;> exact plain_typeMustBe (by decide) _

/-- A member is looked up and then converted; both errors are plain. -/
theorem plain_member {α : Type} {json : Json} {key : Bytes} {convert : Json → Except Exception α}
    (hkey : IsAscii key) (hconvert : ∀ json e, convert json = .error e → Plain e) {e : Exception}
    (h : (do convert (← json.atKey key)) = Except.error e) : Plain e := by
  cases hmember : json.atKey key with
  | error e' =>
    rw [hmember] at h
    obtain rfl := Except.error.inj h
    exact plain_atKey hkey hmember
  | ok value =>
    rw [hmember] at h
    exact hconvert value e h

end Texts

section Behaviours

variable {host : Host} {json : Json}

theorem behaves_getTo {α : Type} {member : Except Exception α}
    {set : α → PostPicture → PostPicture} (h : ∀ e, member = .error e → Plain e) :
    Behaves (fun _ => ()) Plain (getTo member set) :=
  behaves_bind (behaves_ofExcept h) (fun _ => behaves_modify (fun _ => rfl))

theorem behaves_unsignedAt {key : String} (hkey : IsAscii (ascii key))
    {set : UInt32 → PostPicture → PostPicture} :
    Behaves (fun _ => ()) Plain (getTo (unsignedAt host json key) set) :=
  behaves_getTo (fun _ h => plain_member hkey (fun _ _ => plain_getUnsigned) h)

theorem behaves_parseData {text : Bytes} : Behaves (fun _ => ()) Plain (parseData text) :=
  @PictureJson.behaves_parseData _ (fun _ => ()) Plain (fun _ _ _ => rfl)
    plain_invalidBase64Character (fun _ hplain => hplain) text

theorem behaves_allocate : Behaves (fun _ => ()) Plain (allocate host) := by
  have hset : ∀ change, Behaves (fun _ => ()) Plain (setPicture change) :=
    fun _ => behaves_modify (fun _ => rfl)
  unfold allocate
  apply behaves_bind (hset _)
  intro _
  apply behaves_bind behaves_get
  intro s
  cases host.operatorNew s.picture.size.toNat with
  | none => exact behaves_throw plain_badAlloc
  | some block => exact hset _

/-- from_json throws plain exceptions only. -/
theorem behaves_fromJson : Behaves (fun _ => ()) Plain (fromJson host json) := by
  have hstring : ∀ {key : String}, IsAscii (ascii key) → ∀ e, stringAt json key = .error e →
      Plain e :=
    fun hkey _ h => plain_member hkey (fun _ _ => plain_getString) h
  unfold fromJson
  apply behaves_bind (behaves_unsignedAt (by decide))
  intro _
  apply behaves_bind (behaves_unsignedAt (by decide))
  intro _
  apply behaves_bind (behaves_unsignedAt (by decide))
  intro _
  apply behaves_bind (behaves_unsignedAt (by decide))
  intro _
  apply behaves_bind
  · apply behaves_getTo
    intro e h
    exact plain_member (by decide) (fun _ _ => plain_getUnsignedLong) h
  intro _
  apply behaves_bind (behaves_unsignedAt (by decide))
  intro _
  apply behaves_bind (behaves_getTo (hstring (by decide)))
  intro _
  apply behaves_bind (behaves_ofExcept (hstring (by decide)))
  intro _
  exact behaves_bind behaves_allocate (fun _ => behaves_parseData)

theorem plain_getPicture {e : Exception} (h : getPicture host json = .error e) : Plain e := by
  unfold getPicture at h
  cases hrun : (fromJson host json).run ⟨createPicture, []⟩ with
  | ok u decoded =>
    rw [hrun] at h
    cases h
  | error e' decoded =>
    rw [hrun] at h
    obtain rfl := Except.error.inj h
    exact (behaves_fromJson.error _ _ _ hrun).2

theorem behaves_faceAt (id : ObjectId) : Behaves (fun _ => ()) Plain (faceAt id) := by
  apply behaves_bind behaves_get
  intro cache
  cases cache.faceCaches id with
  | none => exact behaves_throw plain_mapAt
  | some face => exact behaves_pure _

theorem behaves_bodyAt (id : ObjectId) : Behaves (fun _ => ()) Plain (bodyAt id) := by
  apply behaves_bind behaves_get
  intro cache
  cases cache.bodyCaches id with
  | none => exact behaves_throw plain_mapAt
  | some lines => exact behaves_pure _

theorem behaves_pictureAt (pictures : List PostPictureWrapper) (n : ℕ) :
    Behaves (fun _ => ()) Plain (pictureAt pictures n) := by
  unfold pictureAt
  cases pictures[n]? with
  | none => exact behaves_throw (plain_vectorAt _ _)
  | some picture => exact behaves_pure _

theorem behaves_addNewPic (picture : PostPictureWrapper) :
    Behaves (fun _ => ()) Plain (addNewPic picture) := by
  have hset : ∀ cache, Behaves (fun _ => ()) Plain (set cache : CacheProgram PUnit) :=
    fun _ => behaves_set (fun _ => rfl)
  unfold addNewPic
  apply behaves_bind behaves_get
  intro cache
  dsimp only
  split
  · exact hset _
  · apply behaves_bind (hset _)
    intro _
    split
    · exact hset _
    · exact behaves_throw (plain_arrayAt _ _)

theorem behaves_postLine (objectId : ObjectId) (pvs : Pvs) (line : List PostPictureWrapper) :
    Behaves (fun _ => ()) Plain (postLine objectId pvs line) := by
  unfold postLine
  split
  · have hbody : ∀ (i : Fin cacheLines) (f : PostPictureWrapper → CacheProgram Pvs),
        (∀ picture, Behaves (fun _ => ()) Plain (f picture)) →
        Behaves (fun _ => ()) Plain (do f (← pictureAt ((← bodyAt objectId) i) 0)) :=
      fun i f hf => behaves_bind (behaves_bodyAt objectId) (fun lines =>
        behaves_bind (behaves_pictureAt (lines i) 0) hf)
    have htrack : ∀ (n : ℕ) (f : PostPictureWrapper → CacheProgram Pvs),
        (∀ picture, Behaves (fun _ => ()) Plain (f picture)) →
        Behaves (fun _ => ()) Plain (pictureAt line n >>= f) :=
      fun n f hf => behaves_bind (behaves_pictureAt line n) hf
    apply behaves_bind (behaves_faceAt objectId)
    intro face
    apply hbody 0
    intro body0
    apply hbody 1
    intro body1
    apply hbody 2
    intro body2
    apply hbody 3
    intro body3
    apply htrack 0
    intro track0
    apply htrack 1
    intro track1
    apply htrack 2
    intro track2
    apply htrack 3
    intro track3
    apply htrack 4
    intro track4
    apply htrack 5
    intro track5
    exact behaves_pure _
  · exact behaves_pure _

theorem behaves_process (order : List ObjectId) :
    Behaves (fun _ => ()) Plain (process order) := by
  apply behaves_bind behaves_get
  intro cache
  apply behaves_foldlM
  intro pvs id
  apply behaves_bind (behaves_bodyAt id)
  intro lines
  apply behaves_bind
  · unfold postLines
    split
    · exact behaves_pure _
    · exact behaves_foldlM (behaves_postLine id)
  · intro pvs
    split
    · exact behaves_pure _
    · exact behaves_bind (behaves_modify (fun _ => rfl)) (fun _ => behaves_pure _)

/-- addPicture throws plain exceptions only, whatever the cache holds. -/
theorem behaves_addPicture (call : Call) : Behaves (fun _ => ()) Plain (addPicture call) := by
  have hcleanup : Behaves (fun _ => ()) Plain
      (modify (cleanup call.now) : CacheProgram PUnit) :=
    behaves_modify (fun _ => rfl)
  unfold addPicture
  apply behaves_bind hcleanup
  intro _
  exact behaves_bind (behaves_addNewPic _) (fun _ => behaves_process _)

theorem behaves_createPreview (c : Circumstances) (pvs : Pvs) :
    Behaves ApiState.session Plain (createPreview c pvs) := by
  apply behaves_modify
  intro s
  split
  · rfl
  · rfl

end Behaviours

section Posts

variable {c : Circumstances} {req : Request} {s : ApiState} {json : Json}

/-- What is left to do for a body that has been parsed. -/
def storePicture (c : Circumstances) (json : Json) : ApiProgram PUnit := do
  let picture ← ofExcept (getPicture c.host json)
  let pvs ← onCache (addPicture ⟨⟨picture, c.created, c.post⟩, c.now, c.order⟩)
  createPreview c pvs

theorem behaves_storePicture : Behaves ApiState.session Plain (storePicture c json) := by
  have hcache : ∀ call, Behaves ApiState.session Plain (onCache (addPicture call)) :=
    fun call => behaves_within (behaves_addPicture call) (fun _ _ => rfl)
  unfold storePicture
  apply behaves_bind (behaves_ofExcept (fun _ => plain_getPicture))
  intro picture
  exact behaves_bind (hcache _) (fun pvs => behaves_createPreview c pvs)

theorem parseJson_ok {host : Host} {text : Bytes} {q : Parser} (h : parse host text = .ok json q) :
    parseJson host text = .ok json := by
  rw [parseJson, h]

theorem parseJson_error {host : Host} {text : Bytes} {e : Exception} {q : Parser}
    (h : parse host text = .error e q) : parseJson host text = .error e := by
  rw [parseJson, h]

theorem picPostHandler_parsed (h : parseJson c.host req.body = .ok json) :
    picPostHandler c req =
      tryCatch (do storePicture c json; pure .null)
        (fun err => throw (.runtimeError err.what)) := by
  unfold picPostHandler storePicture
  rw [h]
  simp only [bind_assoc]
  rfl

theorem picPostHandler_refused {e : Exception} (h : parseJson c.host req.body = .error e) :
    (picPostHandler c req).run s = .error (.runtimeError e.what) s := by
  unfold picPostHandler
  rw [h]
  exact tryCatch_error (bind_error (run_ofExcept_error e s))

/-- A body that is JSON is answered with null, or with a plain text. -/
theorem picPostHandler_run (h : parseJson c.host req.body = .ok json) :
    ∃ t, t.session = s.session ∧
      ((picPostHandler c req).run s = .ok .null t ∨
        ∃ text, IsAscii text ∧ (picPostHandler c req).run s = .error (.runtimeError text) t) := by
  rw [picPostHandler_parsed h]
  cases hrun : (storePicture c json).run s with
  | ok u t =>
    have hsession := behaves_storePicture.ok s u t hrun
    exact ⟨t, hsession, Or.inl (tryCatch_ok (bind_ok hrun))⟩
  | error e t =>
    obtain ⟨hsession, hplain⟩ := behaves_storePicture.error s e t hrun
    exact ⟨t, hsession, Or.inr ⟨e.what, hplain, tryCatch_error (bind_error hrun)⟩⟩

end Posts

section Responses

variable {host : Host} {req : Request} {status : ℕ} {text : Bytes}

theorem jsonResponse_isOk {json : Json} :
    (jsonResponse host status req json).isOk = (dump host json).isOk := by
  unfold jsonResponse
  cases dump host json <;> rfl

theorem errorJson_eq : errorJson text =
    .object [(ascii "error", .string text), (ascii "ret", .numberInteger 1)] := by
  rfl

/-- A response with an error text can be built exactly when the text is
well-formed UTF-8. -/
theorem errorResponse_isOk :
    (jsonResponse host status req (errorJson text)).isOk = true ↔ WellFormed text := by
  have herror : dumpEscaped (ascii "error") = .ok (ascii "error") := by decide
  have hret : dumpEscaped (ascii "ret") = .ok (ascii "ret") := by decide
  rw [jsonResponse_isOk, errorJson_eq, ← dumpEscaped_isOk]
  simp only [dump, dumpMembers, herror, hret]
  cases dumpEscaped text <;> simp [Except.isOk, Except.toBool] <;> rfl

theorem jsonResponse_status {json : Json} {res : Response}
    (h : jsonResponse host status req json = .ok res) : res.status = status := by
  unfold jsonResponse at h
  cases hbody : dump host json with
  | error e =>
    rw [hbody] at h
    cases h
  | ok body =>
    rw [hbody] at h
    cases h
    rfl

/-- An object is dumped with its braces. -/
theorem objectResponse_body {members : Members} {res : Response}
    (h : jsonResponse host status req (.object members) = .ok res) : res.body ≠ [] := by
  unfold jsonResponse at h
  rw [dump] at h
  cases hmembers : dumpMembers host members with
  | error e =>
    rw [hmembers] at h
    cases h
  | ok texts =>
    rw [hmembers] at h
    cases h
    simp [Response.preparePayload, ascii]

theorem errorResponse_ok (h : WellFormed text) :
    ∃ res, jsonResponse host status req (errorJson text) = .ok res ∧ res.status = status ∧
      res.body ≠ [] := by
  have hok := (@errorResponse_isOk host req status text).mpr h
  cases hres : jsonResponse host status req (errorJson text) with
  | ok res => exact ⟨res, rfl, jsonResponse_status hres, objectResponse_body hres⟩
  | error e =>
    rw [hres] at hok
    cases hok

theorem createJsonOkRequest_null : ∃ res, createJsonOkRequest host req .null = .ok res := by
  exact ⟨_, rfl⟩

end Responses

section Answers

variable {c : Circumstances} {host : Host} {func : HandlerFunction} {req : Request}
  {s t : ApiState} {json : Json} {response : Except Exception Response}

/-- The program returns, and exactly one response has been enqueued. -/
def AnsweredOnce (x : ApiProgram PUnit) (s : ApiState) : Prop :=
  ∃ res t, x.run s = .ok ⟨⟩ t ∧ t.session = s.session.enqueue res

/-- What is said in the handlers: build a response and enqueue it. -/
theorem answer_run (hsession : t.session = s.session) :
    (∃ res u, (do send (← ofExcept response) : ApiProgram PUnit).run t = .ok ⟨⟩ u ∧
      u.session = s.session.enqueue res) ↔ response.isOk = true := by
  cases response with
  | ok res =>
    apply iff_of_true
    · exact ⟨res, { t with session := t.session.enqueue res }, rfl, by rw [hsession]⟩
    · rfl
  | error e =>
    constructor
    · intro ⟨res, u, hrun, _⟩
      cases hrun
    · intro hok
      cases hok

theorem handleRequest_unsupported (hget : req.method ≠ .get) (hpost : req.method ≠ .post) :
    AnsweredOnce (handleRequest host func req) s := by
  have hok : (createJsonBadRequest host req (ascii "Unsupported method.")).isOk = true := by
    apply errorResponse_isOk.mpr
    apply wellFormed_of_isAscii
    decide
  unfold AnsweredOnce handleRequest
  rw [if_pos ⟨hget, hpost⟩]
  exact (answer_run rfl).mpr hok

/-- A result that can be turned into a response is answered with it. -/
theorem handleRequest_returned {res : Response} (hmethod : req.method = .get ∨ req.method = .post)
    (hrun : (func req).run s = .ok json t) (hres : createJsonOkRequest host req json = .ok res) :
    (handleRequest host func req).run s =
      .ok ⟨⟩ { t with session := t.session.enqueue res } := by
  unfold handleRequest
  rw [if_neg (by tauto)]
  apply tryCatch_ok
  rw [bind_ok hrun, hres]
  rfl

/-- The response of the catch clauses. -/
def caughtResponse (host : Host) (req : Request) : Exception → Except Exception Response
  | .notFound _ => createJsonNotFound host req req.target
  | ex => createJsonServerError host req ex.what

theorem handleRequest_caught {res : Response} {e : Exception}
    (hmethod : req.method = .get ∨ req.method = .post)
    (hthrown : (do send (← ofExcept (createJsonOkRequest host req (← func req))) :
      ApiProgram PUnit).run s = .error e t)
    (hres : caughtResponse host req e = .ok res) :
    (handleRequest host func req).run s =
      .ok ⟨⟩ { t with session := t.session.enqueue res } := by
  unfold handleRequest
  rw [if_neg (by tauto), tryCatch_error hthrown]
  cases e with
  | notFound mess =>
    have hnotFound : createJsonNotFound host req req.target = .ok res := hres
    simp only [hnotFound]
    rfl
  | _ =>
    unfold caughtResponse at hres
    simp only [hres]
    rfl

theorem handleRequest_null (hmethod : req.method = .get ∨ req.method = .post)
    (hrun : (func req).run s = .ok .null t) (hsession : t.session = s.session) :
    AnsweredOnce (handleRequest host func req) s := by
  obtain ⟨res, hres⟩ := @createJsonOkRequest_null host req
  exact ⟨res, _, handleRequest_returned hmethod hrun hres, by rw [hsession]⟩

/-- The response to an exception is built outside of the try block. -/
theorem handleRequest_thrown {text : Bytes} (hmethod : req.method = .get ∨ req.method = .post)
    (hrun : (func req).run s = .error (.runtimeError text) t) (hsession : t.session = s.session) :
    AnsweredOnce (handleRequest host func req) s ↔ WellFormed text := by
  unfold AnsweredOnce handleRequest
  rw [if_neg (by tauto), tryCatch_error (bind_error hrun), ← @errorResponse_isOk host req 500 text]
  exact answer_run hsession

/-- The parse of the body stops at a token that the lexer refuses, and the
bytes it has kept of the token are not well-formed UTF-8. -/
def RefusedUnreadable (host : Host) (body : Bytes) : Prop :=
  ∃ e q, parse host body = .error e q ∧ q.lastToken = .parseError ∧
    ¬ WellFormed q.lexer.tokenString

theorem not_refusedUnreadable {body : Bytes} {q : Parser} (h : parse host body = .ok json q) :
    ¬ RefusedUnreadable host body := by
  intro ⟨e, q', herror, _⟩
  cases h.symm.trans herror

theorem refusedUnreadable_iff {body : Bytes} {e : Exception} {q : Parser}
    (h : parse host body = .error e q) :
    RefusedUnreadable host body ↔
      q.lastToken = .parseError ∧ ¬ WellFormed q.lexer.tokenString := by
  constructor
  · intro ⟨e', q', herror, hrefused⟩
    obtain ⟨rfl, rfl⟩ := EStateM.Result.error.inj (h.symm.trans herror)
    exact hrefused
  · intro hrefused
    exact ⟨e, q, h, hrefused⟩

/-- The kept bytes are a part of the body, so an ASCII body leaves readable ones. -/
theorem readable_of_isAscii {body : Bytes} (h : IsAscii body) : ¬ RefusedUnreadable host body := by
  intro ⟨e, q, herror, _, hkept⟩
  apply hkept
  apply wellFormed_of_isAscii
  intro c hc
  exact h c ((tokenString_isPart herror).subset hc)

/-- Exactly one response is enqueued and no exception escapes, unless the
request has a body whose unreadable bytes are quoted. -/
theorem answeredOnce_iff (c : Circumstances) (req : Request) (s : ApiState) :
    AnsweredOnce (handleRequest c.host (picPostHandler c) req) s ↔
      ¬ ((req.method = .get ∨ req.method = .post) ∧ RefusedUnreadable c.host req.body) := by
  by_cases hmethod : req.method = .get ∨ req.method = .post
  · cases hparse : parse c.host req.body with
    | ok json q =>
      have hanswered : AnsweredOnce (handleRequest c.host (picPostHandler c) req) s := by
        obtain ⟨t, hsession, hrun | ⟨text, hascii, hrun⟩⟩ :=
          @picPostHandler_run c req s json (parseJson_ok hparse)
        · exact handleRequest_null hmethod hrun hsession
        · exact (handleRequest_thrown hmethod hrun hsession).mpr (wellFormed_of_isAscii hascii)
      exact ⟨fun _ h => not_refusedUnreadable hparse h.2, fun _ => hanswered⟩
    | error e q =>
      have hthrown := @picPostHandler_refused c req s e (parseJson_error hparse)
      rw [handleRequest_thrown hmethod hthrown rfl, wellFormed_what hparse,
        refusedUnreadable_iff hparse]
      tauto
  · have hget : req.method ≠ .get := fun h => hmethod (Or.inl h)
    have hpost : req.method ≠ .post := fun h => hmethod (Or.inr h)
    exact ⟨fun _ h => hmethod h.1, fun _ => handleRequest_unsupported hget hpost⟩

/-- Nothing is stored and nothing has been posted before. -/
def freshServer : ApiState := ⟨PictureCache.empty, PicturePreviewHandler.make 30, HttpSession.run 0⟩

def firstCall : Circumstances := ⟨Host.zeroed, noUuids, 0, 0, 0, [], none, 0⟩

/-- A post whose body is the single byte 0xFF. -/
def unreadablePost : Request :=
  ⟨.post, ascii "/api/v1/realtime/preview/pictures", 11, true, false, [0xFF]⟩

theorem unreadablePost_unanswered :
    ¬ AnsweredOnce (handleRequest firstCall.host (picPostHandler firstCall) unreadablePost)
      freshServer := by
  have hparse := @parse_refused Host.zeroed unreadablePost.body _ rfl rfl
  have hthrown := @picPostHandler_refused firstCall unreadablePost freshServer _
    (parseJson_error hparse)
  intro hanswered
  have htext := (handleRequest_thrown (Or.inr rfl) hthrown rfl).mp hanswered
  have hkept := (wellFormed_what hparse).mp htext rfl
  revert hkept
  decide

end Answers

end BeastServer.AnsweredRequests
