import BeastServer.ClientMessages
import BeastServer.PreviewIds
import BeastServer.ServerRuns

/-!
Runs of the server, put together from what its clients do.
Each rule says which state a step leads to, so a run is described by the clients
that connect, the requests that they send and the sections that follow. A request
whose sections nobody interrupts is served in one go. Pictures that are posted so,
one after the other, leave the cache and the previews as the service leaves them
that takes one post at a time, whatever is posted.
-/
namespace BeastServer.Schedules

open ByteStrings Exceptions Programs HttpMessages HttpSessions JsonValues Machines UriRouters
open CacheSections PostedPictures PicturePreviews AnsweredRequests ClientMessages
open SequentialCalls (beforeProcess beforeProcess_eq afterCall handed handed_accepted handed_refused
  afterCall_accepted afterCall_refused admissible_of_ordersMatch)
open AdvertisedUrls (Post Service service publish picPreviewCacheNum)
open HttpListeners (Outcome onAccept_run)
open JsonApi (parseJson getPicture)
open PictureCaches hiding addPicture
open GroupCompletion InventedPictures
open PreviewVisits hiding handleRequest onPreviews
open SamplingRequests (wellFormed_of_plain)
open Sections ApiContracts ServerSafety ServerRuns
open Servers hiding handleRequest samplingStatusHandler handlerOf serve
open ServerTasks

variable {p : Platform} {inputs : List (Event p)} {s : Server p} {c : ℕ} {conn : Connection p}
  {event : Event p} {req : Request} {shared : Shared}

section Steps

/-- The server is up after the inputs, in this state. -/
structure Leads (inputs : List (Event p)) (s : Server p) : Prop where
  admissible : (server p).Admissible inputs
  run_eq : (server p).run inputs = s
  up : s.escaped = none

theorem leads_nil : Leads [] (server p).init := ⟨Machine.admissible_nil _, rfl, rfl⟩

theorem Leads.next (h : Leads inputs s) (hpossible : Possible s event)
    (hup : (step s event).escaped = none) : Leads (inputs ++ [event]) (step s event) where
  admissible := by
    obtain ⟨hadmissible, rfl, hrunning⟩ := h
    exact (Machine.admissible_append_singleton _ _ _).mpr ⟨hadmissible, hrunning, hpossible⟩
  run_eq := by
    rw [Machine.run_append_singleton, h.run_eq]
    rfl
  up := hup

def client : Outcome := .accepted ⟨some ⟨ascii "127.0.0.1", 40000⟩⟩

/-- The server once a client has connected. -/
def connected (c : ℕ) (s : Server p) : Server p :=
  ({ s with
    listener := ⟨s.listener.accepts - 1 + 1,
      s.listener.sessions ++ client.sessions⟩ } : Server p).setConnection c (Connection.make 0)

theorem Leads.accept (h : Leads inputs s) (c : ℕ) (haccepts : 0 < s.listener.accepts)
    (hvacant : s.connections c = none) : Leads (inputs ++ [.accept c client 0]) (connected c s) :=
  @Leads.next p inputs s (.accept c client 0) h ⟨haccepts, hvacant⟩ h.up

theorem Leads.complete (h : Leads inputs s) (event : HttpSessions.Event)
    (hconn : s.connections c = some conn) (henabled : HttpSessions.enabled conn.session event)
    (hrequest : isRequest event = false)
    (hidle : conn.working = none ∨ isTimerExpires event = true) :
    Leads (inputs ++ [.complete c event]) (s.setConnection c (conn.complete event)) := by
  have hstep := @step_complete p s c conn event hconn
  have hnext := @Leads.next p inputs s (.complete c event) h
    ⟨conn, hconn, henabled, hrequest, hidle⟩ (by rw [hstep]; exact h.up)
  rw [hstep] at hnext
  exact hnext

/-- A request is read, and this is to be done for it. -/
def asked (c : ℕ) (req : Request) (task : HandlerTask p Response) (conn : Connection p)
    (s : Server p) : Server p :=
  (s.arrive req).setConnection c { conn with working := some ⟨req, task⟩ }

theorem Leads.receive {task : HandlerTask p Response} (h : Leads inputs s) (m : Moment p)
    (hserve : serve p m req = task) (hconn : s.connections c = some conn)
    (hidle : conn.working = none) (hreads : 0 < conn.session.reads)
    (hplain : req.isUpgrade = false) (hnul : 0 ∉ req.target) :
    Leads (inputs ++ [.receive c req m]) (asked c req task conn s) := by
  have hstep := @step_receive p s c conn req m hconn
  rw [hserve] at hstep
  have hnext := @Leads.next p inputs s (.receive c req m) h
    ⟨conn, hconn, hidle, hreads, hplain, hnul⟩ (by rw [hstep]; exact h.up)
  rw [hstep] at hnext
  exact hnext

/-- A section has left the handlers in this state, and this is still to be done. -/
def entered (c : ℕ) (req : Request) (next : Shared × HandlerTask p Response) (conn : Connection p)
    (s : Server p) : Server p :=
  (s.setShared next.1).setConnection c { conn with working := some ⟨req, next.2⟩ }

theorem Leads.advance {task : HandlerTask p Response} {next : Shared × HandlerTask p Response}
    (h : Leads inputs s) (m : Moment p) (hadvance : task.advance m s.shared = next)
    (hconn : s.connections c = some conn) (hworking : conn.working = some ⟨req, task⟩)
    (hready : task.Ready m s.shared) :
    Leads (inputs ++ [.advance c m]) (entered c req next conn s) := by
  have hstep : step s (.advance c m) = entered c req next conn s := by
    rw [step_advance hconn hworking, ← hadvance]
    rfl
  have hnext := @Leads.next p inputs s (.advance c m) h ⟨conn, _, hconn, hworking, hready⟩
    (by rw [hstep]; exact h.up)
  rw [hstep] at hnext
  exact hnext

theorem Leads.respond {res : Response} (h : Leads inputs s) (now : ℤ)
    (hconn : s.connections c = some conn)
    (hworking : conn.working = some ⟨req, .finished (.ok res)⟩) :
    Leads (inputs ++ [.respond c now]) (s.setConnection c (conn.respond req res now)) := by
  have hstep := @step_respond p s c conn req (.ok res) now hconn hworking
  have hnext := @Leads.next p inputs s (.respond c now) h ⟨conn, req, .ok res, hconn, hworking⟩
    (by rw [hstep]; exact h.up)
  rw [hstep] at hnext
  exact hnext

/-- The sections of a request follow each other, and nobody comes in between. -/
theorem Leads.alone {allowed : Moment p → Prop} {task : HandlerTask p Response}
    {r : Except Exception Response} (h : Leads inputs s) (hconn : s.connections c = some conn)
    (hworking : conn.working = some ⟨req, task⟩) (halone : Alone allowed task s.shared r shared) :
    ∃ moments : List (Moment p), (∀ m ∈ moments, allowed m) ∧
      Leads (inputs ++ moments.map (Event.advance c))
        ((s.setShared shared).setConnection c
          { conn with working := some ⟨req, .finished r⟩ }) := by
  generalize hbegun : s.shared = begun at halone
  induction halone generalizing inputs s conn with
  | finished r final =>
    refine ⟨[], by simp, ?_⟩
    have hsame : (s.setShared final).setConnection c
        { conn with working := some ⟨req, .finished r⟩ } = s := by
      have hself : ({ conn with working := some ⟨req, .finished r⟩ } : Connection p) = conn := by
        rw [← hworking]
      rw [hself, ← hbegun]
      show ({ s with connections := Function.update s.connections c (some conn) } : Server p) = s
      rw [← hconn, Function.update_eq_self]
    rw [List.map_nil, List.append_nil, hsame]
    exact h
  | @enter free update rest before after r m hallowed hfree hrest ih =>
    have hready : Task.Ready m s.shared (.enter free update rest) := by
      rw [hbegun]
      exact hfree
    have hnext := h.advance m rfl hconn hworking hready
    obtain ⟨moments, hmoments, hlast⟩ := ih hnext setConnection_same
      (by rw [← hbegun]; rfl) (by rw [← hbegun]; rfl)
    refine ⟨m :: moments, ?_, ?_⟩
    · simp only [List.forall_mem_cons]
      exact ⟨hallowed, hmoments⟩
    · rw [List.append_assoc] at hlast
      have hstate : ((entered c req (Task.advance m s.shared (.enter free update rest)) conn
          s).setShared after).setConnection c { conn with working := some ⟨req, .finished r⟩ } =
            (s.setShared after).setConnection c
              { conn with working := some ⟨req, .finished r⟩ } := by
        simp [entered, Server.setConnection, Server.setShared]
      rw [← hstate]
      exact hlast

end Steps

section Clients

variable {allowed : Moment p → Prop} {m : Moment p} {n : ℕ} {r : Except Exception Response}
  {res : Response}

/-- The server accepts, and nobody is connected at n or later. -/
structure Vacant (n : ℕ) (s : Server p) : Prop where
  accepts : 0 < s.listener.accepts
  connections : ∀ c, n ≤ c → s.connections c = none

theorem Vacant.same {t : Server p} (h : Vacant n s) (hlistener : t.listener = s.listener)
    (hconnections : t.connections = s.connections) : Vacant n t where
  accepts := by
    rw [hlistener]
    exact h.accepts
  connections := by
    rw [hconnections]
    exact h.connections

theorem vacant_setConnection (h : Vacant n s) (hc : c < n) : Vacant n (s.setConnection c conn) where
  accepts := h.accepts
  connections other hother := by
    rw [setConnection_other (by omega)]
    exact h.connections other hother

/-- A client connects and sends a request, which gets to its end. -/
theorem exists_due (h : Leads inputs s) (hvacant : Vacant n s) (hplain : req.isUpgrade = false)
    (hnul : 0 ∉ req.target)
    (halone : Alone allowed (serve p m req) (s.arrive req).shared r shared) :
    ∃ more conn t, requests more = [req] ∧ Leads (inputs ++ more) t ∧ Vacant (n + 1) t ∧
      t.shared = shared ∧ t.connections n = some conn ∧ conn.working = some ⟨req, .finished r⟩ := by
  have haccepted := h.accept n hvacant.accepts (hvacant.connections n le_rfl)
  have hconn : (connected n s).connections n = some (Connection.make 0) := setConnection_same
  have hreceived := haccepted.receive m rfl hconn rfl Nat.one_pos hplain hnul
  obtain ⟨moments, -, hdue⟩ := hreceived.alone setConnection_same rfl halone
  have hlater : Vacant (n + 1) (connected n s) := by
    refine vacant_setConnection ⟨Nat.succ_pos _, ?_⟩ n.lt_succ_self
    exact fun c hc => hvacant.connections c (by omega)
  have harrived : Vacant (n + 1) ((connected n s).arrive req) := hlater.same rfl rfl
  have hasked : Vacant (n + 1)
      ((asked n req (serve p m req) (Connection.make 0) (connected n s)).setShared shared) :=
    (vacant_setConnection harrived n.lt_succ_self).same rfl rfl
  have hnone : requests (moments.map (Event.advance (p := p) n)) = [] := by
    simp [requests]
  have hreqs : requests ([.accept n client 0] ++ [.receive n req m] ++
      moments.map (Event.advance (p := p) n)) = [req] := by
    rw [requests_append, hnone]
    rfl
  have hall : inputs ++ [.accept n client 0] ++ [.receive n req m] ++
      moments.map (Event.advance (p := p) n) = inputs ++ ([.accept n client 0] ++
        [.receive n req m] ++ moments.map (Event.advance (p := p) n)) := by
    simp only [List.append_assoc]
  rw [hall] at hdue
  exact ⟨_, _, _, hreqs, hdue, vacant_setConnection hasked n.lt_succ_self, rfl,
    setConnection_same, rfl⟩

/-- The request is answered. -/
theorem exists_replied (h : Leads inputs s) (hvacant : Vacant n s) (hplain : req.isUpgrade = false)
    (hnul : 0 ∉ req.target)
    (halone : Alone allowed (serve p m req) (s.arrive req).shared (.ok res) shared) :
    ∃ more t, requests more = [req] ∧ Leads (inputs ++ more) t ∧ Vacant (n + 1) t ∧
      t.shared = shared := by
  obtain ⟨more, conn, t, hreqs, hdue, hlater, hshared, hconn, hworking⟩ :=
    exists_due h hvacant hplain hnul halone
  refine ⟨more ++ [.respond n 0], t.setConnection n (conn.respond req res 0), ?_, ?_,
    vacant_setConnection hlater n.lt_succ_self, hshared⟩
  · rw [requests_append, hreqs]
    rfl
  · rw [← List.append_assoc]
    exact hdue.respond 0 hconn hworking

end Clients

section Posts

variable {post : Post} {cache : PictureCache} {previews : PicturePreviewHandler}
  {allowed : Moment p → Prop} {m : Moment p}

/-- The moment of a post; the service does not look at files. -/
def postMoment (p : Platform) (post : Post) : Moment p :=
  { ServerProgress.orderedMoment p post.call.order with
    post := post.call.picture.post
    created := post.call.picture.timestamp
    now := post.call.now
    random := post.random
    time := post.time }

/-- A section on the cache. -/
theorem alone_onCache {α : Type} {free : Moment p → Shared → Prop}
    {x : Moment p → CacheProgram α} {r : Except Exception α} (hallowed : allowed m)
    (hfree : free m shared) (h : attempt (x m) shared.cache = (r, cache)) :
    Alone allowed (execute free (fun m => within Shared.cache Shared.setCache (x m))) shared r
      (shared.setCache cache) := by
  have hrun : Alone allowed (execute free (fun m => within Shared.cache Shared.setCache (x m)))
      shared _ _ := .execute m hallowed hfree
  rw [attempt_within, h] at hrun
  exact hrun

/-- The sections of addPicture, one after the other, are the call on the cache. -/
theorem alone_addPicture
    (horder : IterationOrder (beforeProcess post.call shared.cache) post.call.order) :
    ∃ r, Alone (fun m => m = postMoment p post) (addPicture p post.call.picture) shared r
        (shared.setCache (afterCall post.call shared.cache)) ∧
      (r = .ok (handed post.call shared.cache) ∨
        handed post.call shared.cache = [] ∧ ∃ e, r = .error e ∧ Plain e) := by
  have hbefore := @beforeProcess_eq shared.cache post.call
  have hcleaned : Alone (fun m => m = postMoment p post)
      (onCache (fun m : Moment p => modify (cleanup m.now))) shared (.ok ⟨⟩)
      (shared.setCache (cleanup post.call.now shared.cache)) := alone_onCache rfl trivial rfl
  by_cases haccepted : Accepted post.call.picture
  · have hadded : Alone (fun m => m = postMoment p post)
        (onCache (fun _ : Moment p => addNewPic post.call.picture))
        (shared.setCache (cleanup post.call.now shared.cache)) (.ok ⟨⟩)
        (shared.setCache (beforeProcess post.call shared.cache)) := by
      rw [hbefore]
      exact alone_onCache rfl trivial (attempt_ok (addNewPic_run haccepted))
    refine ⟨_, hcleaned.andThen_ok (hadded.andThen_ok ?_), Or.inl rfl⟩
    rw [handed_accepted haccepted horder, afterCall_accepted haccepted horder]
    exact alone_onCache (m := postMoment p post) rfl horder
      (attempt_ok (process_run post.call.order horder))
  · have hrefused : Alone (fun m => m = postMoment p post)
        (onCache (fun _ : Moment p => addNewPic post.call.picture))
        (shared.setCache (cleanup post.call.now shared.cache))
        (.error (.arrayAt post.call.picture.picture.cameraId.toNat cacheLines))
        (shared.setCache (beforeProcess post.call shared.cache)) := by
      rw [hbefore]
      exact alone_onCache rfl trivial (attempt_error (addNewPic_throws haccepted))
    rw [afterCall_refused haccepted]
    exact ⟨_, hcleaned.andThen_ok hrefused.andThen_error,
      Or.inr ⟨handed_refused haccepted, _, rfl, plain_arrayAt _ _⟩⟩

theorem alone_chooseId {random : Option Uuid} (hallowed : allowed m) :
    Alone allowed (chooseId p random) shared
      (PicturePreviewHandler.makeId p.generator random shared.previews.seq) shared := by
  unfold chooseId PicturePreviewHandler.makeId
  cases random with
  | some uuid => exact .finished _ _
  | none =>
    refine (Alone.atomic m hallowed (trivial : Always m shared)).bind ?_
    simp only [PreviewIds.parse_seq]
    exact .atomic m hallowed (trivial : Always m shared)

theorem alone_createPreview {pvs : Pvs} :
    Alone (fun m => m = postMoment p post) (createPreview p pvs) shared (.ok ⟨⟩)
      (shared.setPreviews (publish p.generator post pvs shared.previews)) := by
  unfold createPreview publish
  split
  · exact .finished _ _
  · have hcounted : Alone (fun m => m = postMoment p post)
        (Task.atomic Always (fun (m : Moment p) s =>
          ((m.time, m.random), s.setPreviews (PicturePreviewHandler.nextSeq s.previews))))
        shared (post.time, post.random)
        (shared.setPreviews (PicturePreviewHandler.nextSeq shared.previews)) :=
      .atomic (postMoment p post) rfl trivial
    have hchosen : Alone (fun m => m = postMoment p post) (chooseId p post.random)
        (shared.setPreviews (PicturePreviewHandler.nextSeq shared.previews)) _ _ :=
      alone_chooseId (m := postMoment p post) rfl
    refine hcounted.bind (hchosen.bind ?_)
    exact .atomic (postMoment p post) rfl trivial

/-- What a post leaves in the cache and in the previews. -/
def stored (p : Platform) (post : Post) (shared : Shared) : Shared :=
  (shared.setCache (afterCall post.call shared.cache)).setPreviews
    (publish p.generator post (handed post.call shared.cache) shared.previews)

/-- Of a server that holds what the service holds after some posts, a further post
makes what the service makes. -/
theorem stored_service {posts : List Post}
    (hcache : shared.cache = ((service p.generator).run posts).cache)
    (hpreviews : shared.previews = ((service p.generator).run posts).store) :
    (stored p post shared).cache = ((service p.generator).run (posts ++ [post])).cache ∧
      (stored p post shared).previews = ((service p.generator).run (posts ++ [post])).store := by
  rw [Machine.run_append_singleton]
  refine ⟨?_, ?_⟩
  · show afterCall post.call shared.cache = afterCall post.call _
    rw [hcache]
  · show publish p.generator post (handed post.call shared.cache) shared.previews =
      publish p.generator post _ _
    rw [hcache, hpreviews]

theorem alone_picPostHandler (hposts : Posts p.host req post.call.picture.picture)
    (horder : IterationOrder (beforeProcess post.call shared.cache) post.call.order) :
    ∃ r, Alone (fun m => m = postMoment p post) (picPostHandler p (postMoment p post) req) shared r
        (stored p post shared) ∧
      (r = .ok .null ∨ ∃ text, r = .error (.runtimeError text) ∧ Utf8.WellFormed text) := by
  obtain ⟨-, -, json, hparse, hpicture⟩ := hposts
  unfold picPostHandler
  rw [hparse, Task.andThen_ok, hpicture, Task.andThen_ok]
  obtain ⟨r, hadd, rfl | ⟨hnone, e, rfl, hplain⟩⟩ := @alone_addPicture p shared post horder
  · have hstored : Alone (fun m => m = postMoment p post)
        ((createPreview p (handed post.call shared.cache)).andThen fun _ => .finished (.ok .null))
        (shared.setCache (afterCall post.call shared.cache)) (.ok Json.null)
        (stored p post shared) := alone_createPreview.andThen_ok (.finished _ _)
    exact ⟨_, (hadd.andThen_ok hstored).bind (.finished _ _), Or.inl rfl⟩
  · have hsame : stored p post shared = shared.setCache (afterCall post.call shared.cache) := by
      rw [stored, hnone]
      rfl
    rw [hsame]
    exact ⟨_, hadd.andThen_error.bind (.finished _ _), Or.inr ⟨_, rfl, wellFormed_of_plain hplain⟩⟩

/-- A request that posts a picture is answered, and the picture is where the
service puts it. -/
theorem alone_serve_post (hposts : Posts p.host req post.call.picture.picture)
    (horder : IterationOrder (beforeProcess post.call shared.cache) post.call.order) :
    ∃ res, Alone (fun m => m = postMoment p post) (serve p (postMoment p post) req) shared (.ok res)
      (stored p post shared) := by
  have hsupported : ¬ (req.method ≠ .get ∧ req.method ≠ .post) := by
    have hmethod := hposts.2.1
    tauto
  obtain ⟨r, halone, hr⟩ := alone_picPostHandler hposts horder
  have hanswered : ∃ res, responseTo p.host req r = .ok res := by
    rcases hr with rfl | ⟨text, rfl, htext⟩
    · obtain ⟨res, hres, -⟩ := @responseTo_returned p.host req .null p.roundTrips .null
      exact ⟨res, hres⟩
    · obtain ⟨res, hres, -⟩ := @errorResponse_ok p.host req 500 text htext
      exact ⟨res, hres⟩
  obtain ⟨res, hres⟩ := hanswered
  refine ⟨res, ?_⟩
  rw [serve, routed_pictures hposts.1]
  show Alone _ (handleRequest p (picPostHandler p (postMoment p post)) req) _ _ _
  rw [handleRequest, if_neg hsupported, ← hres]
  exact halone.bind (.finished _ _)

/-- The service takes one post at a time; the clients of the whole server can bring
about each of its runs. -/
theorem exists_posted (posts : List (Post × Request))
    (h : (service p.generator).Admissible (posts.map Prod.fst))
    (hposts : ∀ pair ∈ posts, Posts p.host pair.2 pair.1.call.picture.picture)
    (hplain : ∀ pair ∈ posts, pair.2.isUpgrade = false) :
    ∃ (inputs : List (Event p)) (s : Server p), requests inputs = posts.map Prod.snd ∧
      Leads inputs s ∧ Vacant posts.length s ∧
        s.shared.cache = ((service p.generator).run (posts.map Prod.fst)).cache ∧
          s.shared.previews = ((service p.generator).run (posts.map Prod.fst)).store := by
  induction posts using List.reverseRecOn with
  | nil => exact ⟨[], (server p).init, rfl, leads_nil, ⟨Nat.one_pos, fun _ _ => rfl⟩, rfl, rfl⟩
  | append_singleton posts pair ih =>
    obtain ⟨post, req⟩ := pair
    rw [List.map_append, List.map_singleton] at h
    obtain ⟨hfirst, horder, -⟩ := (Machine.admissible_append_singleton _ _ _).mp h
    obtain ⟨inputs, s, hreqs, hleads, hvacant, hcache, hpreviews⟩ := ih hfirst
      (fun pair hpair => hposts pair (List.mem_append_left _ hpair))
      (fun pair hpair => hplain pair (List.mem_append_left _ hpair))
    have hlast : (post, req) ∈ posts ++ [(post, req)] :=
      List.mem_append_right _ (List.mem_singleton.mpr rfl)
    have hpost : Posts p.host req post.call.picture.picture := hposts _ hlast
    have hnul : 0 ∉ req.target := by
      rw [hpost.1]
      decide
    rw [← hcache] at horder
    obtain ⟨res, halone⟩ := @alone_serve_post p req (s.arrive req).shared post hpost horder
    obtain ⟨more, t, hmore, hlater, hvacant', hshared⟩ :=
      exists_replied hleads hvacant (hplain _ hlast) hnul halone
    have hstored := @stored_service p (s.arrive req).shared post _ hcache hpreviews
    rw [← hshared] at hstored
    rw [List.map_append, List.map_append, List.length_append]
    exact ⟨inputs ++ more, t, by rw [requests_append, hreqs, hmore]; rfl, hlater, hvacant',
      hstored⟩

end Posts

section Visits

variable {uuid name : Bytes} {index : ℕ} {pvs : Pictures}

/-- The url of a picture of a stored preview is routed to its handler. -/
theorem alone_visit (m : Moment p) (hrouted : RoutedTo req.target uuid name index)
    (hpicture : routed req.target = .picture) (hmethod : req.method = .get)
    (hstored : shared.previews.pictures uuid = some pvs) :
    Alone (fun i => i = m) (serve p m req) shared
      (.ok (pictureResponse req (pictureOf pvs name index))) shared := by
  have hrun : (visitPreview p.lexical p.host req).run shared.previews =
      .ok (pictureResponse req (pictureOf pvs name index)) shared.previews :=
    (visitPreview_routed hrouted).trans (answerVisit_found (getPicture_run hrouted.kind hstored))
  have hvisit : Alone (fun i => i = m)
      (onPreviews (fun _ : Moment p => visitPreview p.lexical p.host req)) shared _ _ :=
    .execute m rfl trivial
  rw [attempt_within, attempt_ok hrun] at hvisit
  have hget : ¬ req.method ≠ .get := not_not.mpr hmethod
  rw [serve, hpicture]
  show Alone _ (pictureHandler p req) _ _ _
  rw [pictureHandler, if_neg hget]
  exact hvisit.bind (.finished _ _)

end Visits

section Senders

theorem holds_live {picture : PostPicture} {bytes : Bytes} (hdata : picture.data = .live bytes)
    (hlength : bytes.length = picture.size.toNat) : picture.Holds bytes where
  valid := by
    rw [hdata]
    simp
  length := hlength
  first := by
    rw [hdata]
    exact List.take_of_length_le hlength.le

/-- Each of the posts has a request that is sent for its picture. -/
theorem exists_requests {posts : List Post}
    (h : ∀ post ∈ posts, ∃ bytes, post.call.picture.picture.Holds bytes) :
    ∃ pairs : List (Post × Request), pairs.map Prod.fst = posts ∧
      ∀ pair ∈ pairs, Sends p.host pair.1.call.picture.picture pair.2 := by
  induction posts with
  | nil => exact ⟨[], rfl, by simp⟩
  | cons post posts ih =>
    obtain ⟨pairs, hpairs, hsends⟩ :=
      ih (fun other hother => h other (List.mem_cons_of_mem _ hother))
    obtain ⟨bytes, hholds⟩ := h post List.mem_cons_self
    obtain ⟨req, hreq⟩ := exists_sent p.roundTrips hholds
    refine ⟨(post, req) :: pairs, by rw [List.map_cons, hpairs], ?_⟩
    simp only [List.forall_mem_cons]
    exact ⟨hreq, hsends⟩

/-- A server with memory for the picture decodes what is sent for it. -/
theorem posts_of_live {picture : PostPicture} {bytes : Bytes} (hdata : picture.data = .live bytes)
    (hlength : bytes.length = picture.size.toNat)
    (hnew : p.host.operatorNew picture.size.toNat ≠ none) (hsends : Sends p.host picture req) :
    Posts p.host req picture := by
  obtain ⟨block, hblock⟩ := Option.ne_none_iff_exists'.mp hnew
  have hposted := posts_of_sends p.roundTrips (holds_live hdata hlength) hblock hsends
  have hsame : { picture with data := .live bytes } = picture := by
    rw [← hdata]
  rw [hsame] at hposted
  exact hposted

/-- The pictures are given to postPictures one after the other. -/
theorem exists_sent_posts {posts : List Post} (h : (service p.generator).Admissible posts)
    (hholds : ∀ post ∈ posts, ∃ bytes, post.call.picture.picture.data = .live bytes ∧
      bytes.length = post.call.picture.picture.size.toNat)
    (hnew : ∀ post ∈ posts, p.host.operatorNew post.call.picture.picture.size.toNat ≠ none) :
    ∃ (inputs : List (Event p)) (s : Server p),
      (∀ req ∈ requests inputs, ∃ post ∈ posts, Sends p.host post.call.picture.picture req) ∧
      Leads inputs s ∧ Vacant posts.length s ∧
        s.shared.previews = ((service p.generator).run posts).store := by
  have hheld : ∀ post ∈ posts, ∃ bytes, post.call.picture.picture.Holds bytes := by
    intro post hpost
    obtain ⟨bytes, hdata, hlength⟩ := hholds post hpost
    exact ⟨bytes, holds_live hdata hlength⟩
  obtain ⟨pairs, rfl, hsends⟩ := @exists_requests p posts hheld
  have hposts : ∀ pair ∈ pairs, Posts p.host pair.2 pair.1.call.picture.picture := by
    intro pair hpair
    have hpost := List.mem_map_of_mem (f := Prod.fst) hpair
    obtain ⟨bytes, hdata, hlength⟩ := hholds _ hpost
    exact posts_of_live hdata hlength (hnew _ hpost) (hsends pair hpair)
  obtain ⟨inputs, s, hreqs, hleads, hvacant, -, hpreviews⟩ :=
    exists_posted pairs h hposts (fun pair hpair => (plain_of_sends (hsends pair hpair)).1)
  refine ⟨inputs, s, ?_, hleads, by simpa using hvacant, hpreviews⟩
  intro req hreq
  rw [hreqs] at hreq
  obtain ⟨pair, hpair, rfl⟩ := List.mem_map.mp hreq
  exact ⟨pair.1, List.mem_map_of_mem hpair, hsends pair hpair⟩

end Senders

section Samples

/-- A picture of three bytes. -/
def sentPicture (type : PictureObjectType) (camera : UInt32) (n : UInt8) : PostPicture :=
  { createPicture with
    objectId := 7
    objectType := type
    cameraId := camera
    size := 3
    data := .live [n, 1, 2] }

def sentCall (type : PictureObjectType) (camera : UInt32) (n : UInt8) : PictureCaches.Call where
  picture := ⟨sentPicture type camera n, 0, n.toNat⟩
  now := 0
  order := [7]

/-- The pictures of a complete group: a face, and bodies that all four cameras have seen. -/
def groupCalls : List PictureCaches.Call :=
  sentCall .face 0 10 :: [(1, 11), (2, 12), (3, 13), (0, 14), (0, 15), (0, 16), (0, 17), (0, 18),
    (0, 19)].map (fun shot => sentCall .body shot.1 shot.2)

theorem holds_groupCalls : ∀ call ∈ groupCalls, call.picture.picture.size = 3 ∧
    ∃ bytes, call.picture.picture.data = .live bytes ∧ bytes.length = 3 := by
  intro call hcall
  rcases List.mem_cons.mp hcall with rfl | hbody
  · exact ⟨rfl, _, rfl, rfl⟩
  · obtain ⟨shot, -, rfl⟩ := List.mem_map.mp hbody
    exact ⟨rfl, _, rfl, rfl⟩

def groupPosts : List Post := AdvertisedUrls.withoutRandom groupCalls

def groupPictures : List PostPicture := groupCalls.map (fun call => call.picture.picture)

theorem admissible_groupPosts : (service bitsPlatform.generator).Admissible groupPosts :=
  AdvertisedUrls.withoutRandom_admissible _ _
    (admissible_of_ordersMatch groupCalls (by decide +kernel))

/-- The preview of the group has the face as its first snap. -/
theorem groupPosts_first :
    (((service bitsPlatform.generator).run groupPosts).store.pictures (decimal 1)).map
      (fun pvs => pvs.snap 0) = some ⟨[10, 1, 2]⟩ := by
  decide +kernel

def visitRequest : Request :=
  ⟨.get, ascii "/api/v1/realtime/preview/picture/1/snaps/0", 11, true, false, []⟩

theorem routedTo_visitRequest : RoutedTo visitRequest.target (decimal 1) (ascii "snaps") 0 where
  target := by decide +kernel
  uuid := by decide +kernel
  kind := Or.inl rfl
  index := by decide +kernel

theorem routed_visitRequest : routed visitRequest.target = .picture := by decide +kernel

/-- A client gives the pictures of a group to postPictures, and a viewer visits the
first snap of the preview; the response to the visit is due. -/
theorem exists_visited : ∃ (inputs : List (Event bitsPlatform)) (s : Server bitsPlatform)
    (conn : Connection bitsPlatform) (res : Response),
    (∀ req ∈ requests inputs, req = visitRequest ∨
      ∃ picture ∈ groupPictures, Sends bitsPlatform.host picture req) ∧
    Leads inputs s ∧ s.connections 10 = some conn ∧
      conn.working = some ⟨visitRequest, .finished (.ok res)⟩ ∧ res.status = 200 ∧
        res.body = [10, 1, 2] := by
  have hcalls : ∀ post ∈ groupPosts, post.call ∈ groupCalls := by
    intro post hpost
    obtain ⟨call, hcall, rfl⟩ := List.mem_map.mp hpost
    exact hcall
  have hholds : ∀ post ∈ groupPosts, ∃ bytes, post.call.picture.picture.data = .live bytes ∧
      bytes.length = post.call.picture.picture.size.toNat := by
    intro post hpost
    obtain ⟨hsize, bytes, hdata, hlength⟩ := holds_groupCalls _ (hcalls post hpost)
    rw [hsize]
    exact ⟨bytes, hdata, hlength⟩
  have hnew : ∀ post ∈ groupPosts,
      bitsPlatform.host.operatorNew post.call.picture.picture.size.toNat ≠ none := by
    intro post hpost
    rw [(holds_groupCalls _ (hcalls post hpost)).1]
    exact Option.some_ne_none _
  obtain ⟨inputs, s, hsent, hleads, hvacant, hpreviews⟩ :=
    exists_sent_posts admissible_groupPosts hholds hnew
  obtain ⟨pvs, hstored, hsnap⟩ := Option.map_eq_some_iff.mp groupPosts_first
  have hpreview : (s.arrive visitRequest).shared.previews.pictures (decimal 1) = some pvs := by
    rw [← hstored]
    exact congrArg (fun store => PicturePreviewHandler.pictures store (decimal 1)) hpreviews
  have hvisit := alone_visit firstMoment routedTo_visitRequest routed_visitRequest rfl hpreview
  obtain ⟨more, conn, t, hmore, hdue, -, -, hconn, hworking⟩ := exists_due hleads hvacant rfl
    (by decide +kernel : 0 ∉ visitRequest.target) hvisit
  refine ⟨inputs ++ more, t, conn, _, ?_, hdue, hconn, hworking, rfl, ?_⟩
  · intro req hreq
    rw [requests_append, hmore] at hreq
    rcases List.mem_append.mp hreq with hold | hlast
    · obtain ⟨post, hpost, hsends⟩ := hsent req hold
      exact Or.inr ⟨_, List.mem_map_of_mem (hcalls post hpost), hsends⟩
    · exact Or.inl (List.mem_singleton.mp hlast)
  · show (pictureOf pvs (ascii "snaps") 0).data = [10, 1, 2]
    rw [pictureOf, if_pos rfl, hsnap]

end Samples

end BeastServer.Schedules
