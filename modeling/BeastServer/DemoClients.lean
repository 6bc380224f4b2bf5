import BeastServer.ServerAnswers

/-!
The client library of the cameras together with the server.
The response to a post is read, but nothing looks at it, so the result of postPictures
only tells whether there has been one. What the server makes of such posts, and what
its viewers get to see if nobody else posts, holds in every run of the server.
-/
namespace BeastServer.DemoClients

open ByteStrings HttpMessages JsonValues JsonSerializers PostedPictures PictureJson
open PicturePreviews Machines UriRouters ClientMessages SamplingRequests Schedules
open ApiContracts ServerSafety ServerProgress ServerRuns ServerAnswers
open Servers (Platform)
open ServerTasks (routed)

section Samples

variable {picture : PostPicture} {bytes : Bytes} {req : Request}

/-- A picture can be sent and answered, by a server that does nothing else. -/
theorem exists_answered_sent {block : Bytes} (h : picture.Holds bytes)
    (hnew : bitsPlatform.host.operatorNew picture.size.toNat = some block) :
    ∃ req inputs conn res, Sends bitsPlatform.host picture req ∧
      (server bitsPlatform).Admissible inputs ∧
        ((server bitsPlatform).run inputs).connections 0 = some conn ∧
          ⟨req, res⟩ ∈ answered conn := by
  obtain ⟨req, hsends⟩ := exists_sent bitsPlatform.roundTrips h
  have hposts := posts_of_sends bitsPlatform.roundTrips h hnew hsends
  have hrouted := routed_pictures hposts.1
  obtain ⟨-, -, json, hparse, -⟩ := hposts
  obtain ⟨hplain, hnul⟩ := plain_of_sends hsends
  have hwaits : WaitsForNobody (routed req.target) := by
    rw [hrouted]
    exact ⟨by decide, by decide, by decide⟩
  have hreadable : ¬ UnreadableAt bitsPlatform.host req (routed req.target) := by
    rw [hrouted]
    exact fun hunreadable => not_refused_of_parsed hparse hunreadable.2
  have hreceived := (leads_nil.accept 0 Nat.one_pos rfl).receive firstMoment
    (Eq.refl (ServerTasks.serve bitsPlatform firstMoment req)) setConnection_same rfl Nat.one_pos
    hplain hnul
  obtain ⟨moments, t, conn, res, -, hleads, hconn, -, hanswered⟩ :=
    answeredWithin_of_readable hreceived setConnection_same rfl hwaits hreadable
  refine ⟨req, _, conn, res, hsends, hleads.admissible, ?_, ?_⟩
  · rw [hleads.run_eq]
    exact hconn
  · rw [hanswered]
    exact List.mem_append_right _ (List.mem_singleton.mpr rfl)

/-- A body picture of a camera that the cache has no line for. -/
def fifthPicture : PostPicture := sentPicture .body 4 20

theorem refused_fifthPicture : ¬ Storable fifthPicture := by
  unfold Storable
  decide

end Samples

section Results

variable {host : Host} {picture : PostPicture} {bytes : Bytes}

/-- In every run of the server: the response to a picture that the client has posted
says whether the cache has a place for it, and the client reports success for any
response that it gets. -/
theorem post_judged (p : Platform) (inputs : List (Event p)) (h : (server p).Admissible inputs)
    (c : ℕ) (conn : Connection p) (hconn : ((server p).run inputs).connections c = some conn)
    (exchange : HttpSessions.Exchange) (hanswered : exchange ∈ answered conn)
    (picture : PostPicture) (bytes block : Bytes) (hholds : picture.Holds bytes)
    (hnew : p.host.operatorNew picture.size.toNat = some block)
    (hsends : Sends p.host picture exchange.request) :
    (exchange.response.status = 200 ↔ Storable picture) ∧
      ∀ network : Network,
        network pictureClient (pictureMessage exchange.request.body) = some exchange.response →
          postPictures p.host network picture = 0 := by
  constructor
  · have hkept := ((kept_inductive p).run inputs h).connections c conn hconn
    obtain ⟨hreceived, hplain⟩ := List.mem_filter.mp hanswered
    have hupgrade : exchange.request.isUpgrade = false := by simpa using hplain
    have hjudged : exchange.response.status = 200 ↔
        Storable { picture with data := .live bytes } :=
      (hkept.responses exchange hreceived hupgrade).2 _
        (posts_of_sends p.roundTrips hholds hnew hsends)
    exact hjudged
  · intro network hnetwork
    obtain ⟨text, hdump, hrequest⟩ := hsends
    have hbody : exchange.request.body = text := by
      rw [hrequest]
      rfl
    rw [hbody] at hnetwork
    rw [postPictures_of_dump network hdump, hnetwork]
    rfl

/-- A face that is taken, and a body picture that is refused. -/
theorem post_judged_sent : ¬ Storable fifthPicture ∧
    ∀ picture ∈ [sentPicture .face 0 10, fifthPicture],
      ∃ (req : Request) (res : Response), Sends bitsPlatform.host picture req ∧
        (res.status = 200 ↔ Storable picture) ∧
          ∀ network : Network,
            network pictureClient (pictureMessage req.body) = some res →
              postPictures bitsPlatform.host network picture = 0 := by
  have hjudged : ∀ picture bytes, picture.data = .live bytes → picture.size = 3 →
      bytes.length = 3 → ∃ (req : Request) (res : Response), Sends bitsPlatform.host picture req ∧
        (res.status = 200 ↔ Storable picture) ∧
          ∀ network : Network,
            network pictureClient (pictureMessage req.body) = some res →
              postPictures bitsPlatform.host network picture = 0 := by
    intro picture bytes hdata hsize hlength
    have hholds : picture.Holds bytes := holds_live hdata (by rw [hsize]; exact hlength)
    have hnew : bitsPlatform.host.operatorNew picture.size.toNat = some [0, 0, 0] := by
      rw [hsize]
      rfl
    obtain ⟨req, inputs, conn, res, hsends, hadmissible, hconn, hanswered⟩ :=
      exists_answered_sent hholds hnew
    obtain ⟨hstatus, hresult⟩ := post_judged bitsPlatform inputs hadmissible 0 conn hconn
      ⟨req, res⟩ hanswered picture bytes [0, 0, 0] hholds hnew hsends
    exact ⟨req, res, hsends, hstatus, hresult⟩
  simp only [List.forall_mem_cons]
  exact ⟨refused_fifthPicture, hjudged _ _ rfl rfl rfl, hjudged _ _ rfl rfl rfl, by simp⟩

end Results

end BeastServer.DemoClients
