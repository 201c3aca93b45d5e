import Entitlement.Proofs.Custody.Feed
import Entitlement.Proofs.Site.Audit
import Entitlement.Proofs.Site.Delivery
import Entitlement.Proofs.Site.Tier

/-! # What readers of the feed get

A reader of the feed and a receiver are followers alike: each is a place in the log, and what it
gets is what stands behind that place. So a receiver that subscribes when the feed is opened, and
drains whenever the feed is read, is given what the feed tells, up to the first line, which is for
those who come late, and up to the marks, which have no line.
-/

namespace Entitlement.Site

open Calendar Custody Grant Plan Signature

variable {verdict : Verdict} {site other : Site} {feed receiver : String}

/-! ## Reads -/

/-- What an operation lets a reader of the feed read. -/
def read? (feed : String) : Operation → Outcome → Option String
  | .readFeed name, .chunk text => if name = feed then some text else none
  | _, _ => none

/-- What a run lets a reader of the feed read, one time after the other. -/
def reads (feed : String) (operations : List Operation) (outcomes : List Outcome) : List String :=
  (operations.zip outcomes).filterMap fun (operation, outcome) => read? feed operation outcome

theorem reads_cons (operation : Operation) (operations : List Operation) (outcome : Outcome)
    (outcomes : List Outcome) :
    reads feed (operation :: operations) (outcome :: outcomes) =
      (read? feed operation outcome).toList ++ reads feed operations outcomes := by
  cases hread : read? feed operation outcome <;> simp [reads, hread]

theorem read?_eq_none {operation : Operation} (hother : operation ≠ .readFeed feed)
    (outcome : Outcome) : read? feed operation outcome = none := by
  cases operation with
  | readFeed name =>
      cases outcome with
      | chunk text => exact if_neg fun hsame => hother (congrArg _ hsame)
      | _ => rfl
  | _ => rfl

theorem eq_of_follower?_feed {operation : Operation}
    (hown : operation.follower? = some (.feed feed)) :
    operation = .readFeed feed ∨ ∃ request, operation = .request request (some feed) := by
  cases operation with
  | readFeed name =>
      cases hown
      exact .inl rfl
  | request request name =>
      cases name with
      | none => cases hown
      | some name =>
          cases hown
          exact .inr ⟨request, rfl⟩
  | _ => cases hown

/-! ## A receiver in the place of a reader -/

/-- The lines of what a receiver is given, where marks have none. -/
def linesOf (given : List Delivery) : String :=
  lines (given.filterMap Delivery.event?)

/-- The same operation, where a receiver drains in the place of a reader of the feed. -/
def Operation.drainedBy (feed receiver : String) : Operation → Operation
  | .readFeed name => if name = feed then .drain receiver else .readFeed name
  | operation => operation

theorem drainedBy_readFeed : (Operation.readFeed feed).drainedBy feed receiver = .drain receiver :=
  if_pos rfl

theorem drainedBy_of_ne {operation : Operation} (hother : operation ≠ .readFeed feed) :
    operation.drainedBy feed receiver = operation := by
  cases operation with
  | readFeed name => exact if_neg fun hsame => hother (congrArg _ hsame)
  | _ => rfl

/-- The followers other than a reader of the feed and a receiver. -/
def others (feed receiver : String) (follower : Follower) : Bool :=
  follower != .feed feed && follower != .receiver receiver

/-- On another site a receiver is in the place of a reader of the feed, and all else is the same. -/
structure StandsIn (feed receiver : String) (site other : Site) : Prop where
  agrees : site.AgreesOn (others feed receiver) other
  place : other.place? (.receiver receiver) = site.place? (.feed feed)

/-- The receiver drains as the reader reads. -/
theorem StandsIn.readFeed (hstands : StandsIn feed receiver site other) :
    StandsIn feed receiver (site.perform verdict (.readFeed feed)).1
        (other.perform verdict (.drain receiver)).1 ∧
      read? feed (.readFeed feed) (site.perform verdict (.readFeed feed)).2 =
        (handout? receiver (.drain receiver) (other.perform verdict (.drain receiver)).2).map
          linesOf := by
  have hread : site.AgreesOn (others feed receiver) (site.perform verdict (.readFeed feed)).1 := by
    refine agreesOn_perform rfl ?_
    rintro own ⟨⟩
    simp [others]
  have hdrain :
      other.AgreesOn (others feed receiver) (other.perform verdict (.drain receiver)).1 := by
    refine agreesOn_perform rfl ?_
    rintro own ⟨⟩
    simp [others]
  have hplace : other.receivers.get? receiver = site.feeds.get? feed := hstands.place
  refine ⟨⟨hread.symm.trans (hstands.agrees.trans hdrain), ?_⟩, ?_⟩
  · rw [place?_perform, place?_perform, hstands.place]
    cases hfeed : site.feeds.get? feed <;>
      simp [reached?, hplace, hfeed, endOfLog, hstands.agrees.custody]
  · unfold perform
    dsimp only
    rw [hplace]
    cases site.feeds.get? feed with
    | none => rfl
    | some place => simp [read?, handout?, linesOf, pending, hstands.agrees.custody]

/-- Whatever is done about nobody or about others makes no difference to the two. -/
theorem StandsIn.perform_other (hstands : StandsIn feed receiver site other) {operation : Operation}
    (hfeed : operation.follower? ≠ some (.feed feed))
    (hreceiver : operation.follower? ≠ some (.receiver receiver)) :
    StandsIn feed receiver (site.perform verdict operation).1
      (other.perform verdict operation).1 := by
  have hamong : operation.IsAmong (others feed receiver) := by
    intro follower hfollower
    have hne : follower ≠ .feed feed := fun hsame => hfeed (hsame ▸ hfollower)
    have hne' : follower ≠ .receiver receiver := fun hsame => hreceiver (hsame ▸ hfollower)
    simp [others, hne, hne']
  refine ⟨hstands.agrees.perform hamong, ?_⟩
  rw [place?_perform, place?_perform, if_neg fun hreached => hfeed (follower?_of_reached? hreached),
    if_neg fun hreached => hreceiver (follower?_of_reached? hreached), hstands.place]

/-- The receiver is given, portion by portion, what the reader reads. -/
theorem StandsIn.run (hstands : StandsIn feed receiver site other) {life : List Operation}
    (hfeed : ∀ request, Operation.request request (some feed) ∉ life)
    (hreceiver : ∀ operation ∈ life, operation.follower? ≠ some (.receiver receiver)) :
    let twin := life.map (Operation.drainedBy feed receiver)
    StandsIn feed receiver (site.run verdict life).1 (other.run verdict twin).1 ∧
      reads feed life (site.run verdict life).2 =
        (handouts receiver twin (other.run verdict twin).2).map linesOf := by
  induction life generalizing site other with
  | nil => exact ⟨hstands, rfl⟩
  | cons operation life ih =>
      obtain ⟨hfirst, hmore⟩ := List.forall_mem_cons.mp hreceiver
      have hfeeds : ∀ request, Operation.request request (some feed) ∉ life :=
        fun request hrequest => hfeed request (List.mem_cons_of_mem _ hrequest)
      dsimp only
      rw [List.map_cons, run_cons, run_cons, reads_cons, handouts_cons, List.map_append]
      by_cases hreads : operation = .readFeed feed
      · subst hreads
        obtain ⟨hnext, hread⟩ := @StandsIn.readFeed verdict _ _ _ _ hstands
        obtain ⟨hlast, hrest⟩ := ih hnext hfeeds hmore
        rw [drainedBy_readFeed]
        refine ⟨hlast, ?_⟩
        rw [hread, hrest]
        congr 1
        cases handout? receiver (.drain receiver)
          (other.perform verdict (.drain receiver)).2 <;> rfl
      · have hother : operation.follower? ≠ some (.feed feed) := by
          intro hown
          rcases eq_of_follower?_feed hown with hread | ⟨request, rfl⟩
          · exact hreads hread
          · exact hfeed request List.mem_cons_self
        have hdrain : operation ≠ .drain receiver := by
          rintro rfl
          exact hfirst rfl
        obtain ⟨hlast, hrest⟩ := ih (hstands.perform_other hother hfirst) hfeeds hmore
        rw [drainedBy_of_ne hreads]
        refine ⟨hlast, ?_⟩
        rw [read?_eq_none hreads, handout?_eq_none hdrain, hrest]
        rfl

/-! ## Opening the feed -/

/-- The feed starts with the line of the license in force. -/
theorem text_respond_of_isOpen {license : License} {request : Http.Request}
    (hopen : (Http.respond license request).isOpen = true) :
    (Http.respond license request).text = lines [.inEffect license] := by
  cases hbody : (Http.respond license request).body with
  | complete text => simp [Http.Response.isOpen, hbody] at hopen
  | feed first =>
      obtain ⟨-, -, -, rfl⟩ := Http.body_respond_eq_feed_iff.mp hbody
      simp [Http.Response.text, hbody]

/-- A receiver that subscribes when the feed is opened is in the place of its reader. -/
theorem standsIn_opened (verdict : Verdict) {request : Http.Request}
    (hopen : (Http.respond site.custody.license request).isOpen = true) :
    StandsIn feed receiver (site.perform verdict (.request request (some feed))).1
      (site.perform verdict (.subscribe receiver)).1 := by
  have hopened : site.AgreesOn (others feed receiver)
      (site.perform verdict (.request request (some feed))).1 := by
    refine agreesOn_perform rfl ?_
    rintro own ⟨⟩
    simp [others]
  have hsubscribed : site.AgreesOn (others feed receiver)
      (site.perform verdict (.subscribe receiver)).1 := by
    refine agreesOn_perform rfl ?_
    rintro own ⟨⟩
    simp [others]
  have hreached : site.reached? (.request request (some feed)) = some (.feed feed) := if_pos hopen
  have hreached' : site.reached? (.subscribe receiver) = some (.receiver receiver) := rfl
  refine ⟨hopened.symm.trans hsubscribed, ?_⟩
  rw [place?_perform, if_pos hreached', place?_perform, if_pos hreached]

/-! ## What is known after a read -/

/-- There is nothing left for a receiver that has just drained. -/
theorem outcome_drain_again {given : List Delivery}
    (hgiven : (site.perform verdict (.drain receiver)).2 = .deliveries given) :
    ((site.perform verdict (.drain receiver)).1.perform verdict (.drain receiver)).2 =
      .deliveries [] := by
  cases hplace : site.place? (.receiver receiver) with
  | none =>
      have hunknown : site.receivers.get? receiver = none := hplace
      unfold perform at hgiven
      dsimp only at hgiven
      rw [hunknown] at hgiven
      cases hgiven
  | some place =>
      have hend := place?_of_reached? verdict (reached?_drain hplace)
      rw [outcome_drain hend, endOfLog, List.drop_length]
      rfl

/-- A receiver that has just drained, and was never given a mark, knows which license is in force
from what it was given and from the license that was in force when it subscribed. -/
theorem foldl_given (hgrants : OnlyGrants verdict) {life : List Operation}
    (hlife : .subscribe receiver ∉ life) :
    let born := (site.perform verdict (.subscribe receiver)).1
    let all := life ++ [.drain receiver]
    let given := (handouts receiver all (born.run verdict all).2).flatten
    (∀ lost, Delivery.lagged lost ∉ given) →
      (given.filterMap Delivery.event?).foldl Standing.after
          (Standing.ofLicense site.custody.license) =
        Standing.ofLicense (born.run verdict all).1.custody.license := by
  intro born all given hmarks
  have hall : .subscribe receiver ∉ all := by simpa [all] using hlife
  have hplace : born.place? (.receiver receiver) = some born.endOfLog :=
    place?_of_reached? verdict rfl
  have hnext : ((born.run verdict all).1.perform verdict (.drain receiver)).2 = .deliveries [] := by
    obtain ⟨_, unread, -, hdrained, -⟩ := @handouts_run verdict _ _ _ hlife _ hplace (Nat.le_refl _)
    rw [run_append]
    exact outcome_drain_again hdrained
  have hgiven := given_of_not_lagged hall hplace (Nat.le_refl _) hnext
    (by simpa only [List.append_nil] using hmarks)
  rw [List.append_nil] at hgiven
  obtain ⟨told, hlog, hknown, -, -⟩ :=
    steps_tell hgrants (runSteps verdict born all) site.custody
  have hcustody : (born.run verdict all).1.custody =
      site.custody.steps verdict (runSteps verdict born all) := custody_run verdict born all
  have htold : given.filterMap Delivery.event? = told := by
    refine hgiven.trans ?_
    change (born.run verdict all).1.custody.log.drop site.custody.log.length = told
    rw [hcustody, hlog, List.drop_left]
  rw [htold, hknown, hcustody]

/-- Of a site that has come about from the start it is known to be on Community just when it is. -/
theorem ofLicense_run (hgrants : OnlyGrants verdict) (clock : Timestamp)
    (operations : List Operation) :
    let license := ((Site.start clock).run verdict operations).1.custody.license
    Standing.ofLicense license =
      if license = .community then .community else .verified license.id := by
  intro license
  have hcommunity : license = .community ↔ license.isCommunity = true :=
    ⟨fun hsame => hsame ▸ rfl, eq_community_of_isCommunity hgrants clock operations⟩
  simp only [Standing.ofLicense, hcommunity]

theorem subscribe_not_mem_drainedBy {life : List Operation}
    (hreceiver : ∀ operation ∈ life, operation.follower? ≠ some (.receiver receiver)) :
    .subscribe receiver ∉ life.map (Operation.drainedBy feed receiver) := by
  intro hsubscribe
  obtain ⟨operation, hoperation, hsame⟩ := List.mem_map.mp hsubscribe
  by_cases hread : operation = .readFeed feed
  · rw [hread, drainedBy_readFeed] at hsame
    cases hsame
  · rw [drainedBy_of_ne hread] at hsame
    exact hreceiver operation hoperation (hsame ▸ rfl)

/-- What readers of the feed get. However a site has come about and whatever is done with it once
the feed has been opened, each read gets the lines of what a receiver would be given at that moment
that had subscribed when the feed was opened. So the text of the feed falls, at its newlines, into
one line for each event and an empty rest: first the event in effect when the feed was opened, then
the events that this receiver would have been given, without the marks. A JSON reader gets each
event back from its line. While the receiver would not have been given a mark, the last line after a
read that says which license is in force names the one that is. -/
theorem feed_tells (scheme : Scheme) (trusted : Key.TrustSet) (clock : Timestamp)
    (operations : List Operation) {request : Http.Request} {feed receiver : String}
    {life : List Operation}
    (hopen : (Http.respond ((Site.start clock).run (Key.verify scheme trusted)
      operations).1.custody.license request).isOpen = true)
    (hfeed : ∀ request, Operation.request request (some feed) ∉ life)
    (hreceiver : ∀ operation ∈ life, operation.follower? ≠ some (.receiver receiver)) :
    let verdict : Verdict := Key.verify scheme trusted
    let site := ((Site.start clock).run verdict operations).1
    let opening := Operation.request request (some feed)
    let opened := (site.perform verdict opening).1
    let subscribed := (site.perform verdict (.subscribe receiver)).1
    let twin := life.map (Operation.drainedBy feed receiver)
    let given := handouts receiver twin (subscribed.run verdict twin).2
    let events := .inEffect site.custody.license :: given.flatten.filterMap Delivery.event?
    (subscribed.run verdict twin).1.custody = (opened.run verdict life).1.custody ∧
    reads feed life (opened.run verdict life).2 = given.map linesOf ∧
    (∃ response, (site.perform verdict opening).2 = .response response ∧
      Text.split '\n' (response.text ++ String.join (reads feed life (opened.run verdict life).2)) =
        events.map Event.toJson ++ [""]) ∧
    (∀ event ∈ events, Event.reader.read (Text.bytes event.toJson) = .ok event) ∧
    (life.getLast? = some (.readFeed feed) → (∀ lost, Delivery.lagged lost ∉ given.flatten) →
      let license := (opened.run verdict life).1.custody.license
      (events.filterMap Event.standing?).getLast? =
        some (if license = .community then .community else .verified license.id)) := by
  intro verdict site opening opened subscribed twin given events
  have hgrants : OnlyGrants verdict := onlyGrants_verify scheme trusted
  have hopened : StandsIn feed receiver opened subscribed := standsIn_opened verdict hopen
  obtain ⟨hlast, hreads⟩ := @StandsIn.run verdict _ _ _ _ hopened _ hfeed hreceiver
  refine ⟨hlast.agrees.custody, hreads, ⟨_, outcome_request request (some feed), ?_⟩, ?_, ?_⟩
  · have hportions : given.map linesOf =
        (given.map (List.filterMap Delivery.event?)).map lines := by
      rw [List.map_map]
      rfl
    have hbody : (Http.respond site.custody.license request).text ++
        String.join (reads feed life (opened.run verdict life).2) = lines events := by
      rw [hreads, hportions, join_lines, ← List.filterMap_flatten, text_respond_of_isOpen hopen,
        ← lines_append]
      rfl
    rw [hbody, split_lines]
  · exact fun event _ => event.read_toJson
  · intro hread hmarks license
    obtain ⟨before, rfl⟩ := List.getLast?_eq_some_iff.mp hread
    have htwin : twin = before.map (Operation.drainedBy feed receiver) ++ [.drain receiver] := by
      rw [← @drainedBy_readFeed feed receiver]
      exact List.map_append
    have hbefore : .subscribe receiver ∉ before.map (Operation.drainedBy feed receiver) :=
      subscribe_not_mem_drainedBy fun operation hoperation =>
        hreceiver operation (List.mem_append_left _ hoperation)
    have hknown := @foldl_given verdict site receiver hgrants _ hbefore
    dsimp only at hknown
    rw [← htwin] at hknown
    have hreached : ((Site.start clock).run verdict
        (operations ++ opening :: (before ++ [.readFeed feed]))).1 =
          (opened.run verdict (before ++ [.readFeed feed])).1 := run_append verdict _ operations _
    have hlicense := ofLicense_run hgrants clock
      (operations ++ opening :: (before ++ [.readFeed feed]))
    rw [hreached] at hlicense
    rw [← hlicense, List.filterMap_cons_some (Event.standing?_inEffect _), List.getLast?_cons,
      ← foldl_after]
    refine congrArg some ((hknown hmarks).trans ?_)
    exact congrArg (fun custody : Custody => Standing.ofLicense custody.license)
      hlast.agrees.custody

/-- A receiver that has just subscribed is told when Community is put in force. -/
theorem handouts_useCommunity (verdict : Verdict) (site : Site) (receiver : String) :
    let born := (site.perform verdict (.subscribe receiver)).1
    let life := [Operation.command .useCommunity, .drain receiver]
    handouts receiver life (born.run verdict life).2 = [[.event (.communityEdition .free)]] := by
  intro born life
  have hplace : born.place? (.receiver receiver) = some born.endOfLog :=
    place?_of_reached? verdict rfl
  have hothers : ∀ operation ∈ [Operation.command .useCommunity],
      operation.follower? ≠ some (.receiver receiver) := by
    simp [Operation.follower?]
  have hdrain := @outcome_drain_since verdict _ _ _ [.communityEdition .free] hplace hothers rfl
  have houtcomes : (born.run verdict life).2 =
      [(born.perform verdict (.command .useCommunity)).2,
        .deliveries (Delivery.ofPending [.communityEdition .free])] := by
    rw [← hdrain]
    rfl
  rw [houtcomes, handouts_cons, handouts_cons]
  simp [handout?, handouts, Delivery.ofPending, capacity]

/-- The feed is opened while the license that was issued again is in force, Community is put in
force, and the feed is read. It tells the one, then the other. -/
theorem feed_tells_sample :
    ∃ verdict site response reads', verdict = Key.verify Ed25519.scheme Key.sampleTrusted ∧
      site = ((Site.start License.epoch).run verdict
        (loading Key.sampleClaims.issuedAt reissuedEnvelope.encode)).1 ∧
      (site.perform verdict (.request ⟨"GET", "/api/license/events", []⟩ (some "feed"))).2 =
        .response response ∧
      reads' = reads "feed" [.command .useCommunity, .readFeed "feed"]
        ((site.perform verdict (.request ⟨"GET", "/api/license/events", []⟩ (some "feed"))).1.run
          verdict [.command .useCommunity, .readFeed "feed"]).2 ∧
      Text.split '\n' (response.text ++ String.join reads') =
        [(Event.licenseLoaded reissuedClaims.id .business).toJson,
          (Event.communityEdition .free).toJson, ""] := by
  have hlicense : ((Site.start License.epoch).run (Key.verify Ed25519.scheme Key.sampleTrusted)
      (loading Key.sampleClaims.issuedAt reissuedEnvelope.encode)).1.custody.license =
        ⟨reissuedClaims, .verified⟩ := by
    rw [custody_run_loading License.epoch verify_reissuedEnvelope]
    rfl
  have hopen : (Http.respond ⟨reissuedClaims, .verified⟩
      ⟨"GET", "/api/license/events", []⟩).isOpen = true := by
    have hbody :
      (Http.respond ⟨reissuedClaims, .verified⟩ ⟨"GET", "/api/license/events", []⟩).body =
        .feed (.inEffect ⟨reissuedClaims, .verified⟩) :=
      Http.body_respond_eq_feed_iff.mpr ⟨rfl, rfl, by decide, rfl⟩
    rw [Http.Response.isOpen, hbody]
  obtain ⟨-, -, ⟨response, hresponse, hlines⟩, -, -⟩ :=
    @feed_tells Ed25519.scheme Key.sampleTrusted License.epoch
      (loading Key.sampleClaims.issuedAt reissuedEnvelope.encode)
      ⟨"GET", "/api/license/events", []⟩ "feed" "a" [.command .useCommunity, .readFeed "feed"]
      (by rw [hlicense]; exact hopen) (by simp) (by simp [Operation.follower?])
  refine ⟨_, _, response, _, rfl, rfl, hresponse, rfl, hlines.trans ?_⟩
  have hgiven := handouts_useCommunity (Key.verify Ed25519.scheme Key.sampleTrusted)
    ((Site.start License.epoch).run (Key.verify Ed25519.scheme Key.sampleTrusted)
      (loading Key.sampleClaims.issuedAt reissuedEnvelope.encode)).1 "a"
  simp only [List.map_cons, List.map_nil, drainedBy_readFeed,
    drainedBy_of_ne (Operation.noConfusion : Operation.command .useCommunity ≠ .readFeed "feed")]
  rw [hgiven, hlicense]
  rfl

end Entitlement.Site
