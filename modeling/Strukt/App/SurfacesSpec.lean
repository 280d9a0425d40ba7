import Strukt.App.SessionSurfaces
import Strukt.Lib.Frame
import Strukt.Session.ClientRuns

/-!
# What the session surfaces do

* **Tags** (`PendingRequest.Owns`): the body that a pending request stands for.
* **Frames** (`Keeps`): a method that begins and finishes no request leaves what is pending, and
  shows no other snapshot and no other completed migration than it did.
* **Requests** (`Begins`): a request is begun where none is pending, with a body of its tag.
* **Completions** (`finishRequest_finished`, `finishConnect_refused`): a request that ends is
  dropped or finishes the one that is pending; a connect that is refused leaves a lost client.
-/

namespace Strukt.App

open Method

variable {T : ClientTransport}

/-- The body is the one that the tag stands for. -/
def PendingRequest.Owns (tag : PendingRequest) (plan : Option SessionMigrationPlan)
    (body : RequestBody) : Prop :=
  match tag with
  | .snapshot pane => body = .snapshot pane
  | .migration => ∃ p, plan = some p ∧ body = .importStoppedCatalog p.catalog
  | _ => True

/-! ## What each method does to the client -/

section Client

variable {c : SessionClient T}

/-- The snapshots are some of those that there were. -/
def ShowsLess (c c' : SessionClient T) : Prop :=
  ∀ pane screen, c'.snapshots.get? pane = some screen → c.snapshots.get? pane = some screen

theorem ShowsLess.of_eq {c c' : SessionClient T} (h : c'.snapshots = c.snapshots) :
    ShowsLess c c' := fun _ _ hs => h ▸ hs

theorem showsLess_filter (c c' : SessionClient T) {p : PaneId → Bool}
    (h : c'.snapshots = c.snapshots.filterKeys p) : ShowsLess c c' := by
  intro pane screen hs
  rw [h, SortedMap.get?_filterKeys] at hs
  split at hs
  · exact hs
  · cases hs

theorem preserves_nextRequestId :
    Preserves (·.snapshots) (SessionClient.nextRequestId : ClientM T UInt64) := by
  refine preserves_of_wp fun c => ?_
  refine wp_mono SessionClient.nextRequestId_spec ?_ ?_ fun h => h.elim
  · rintro _ _ ⟨ids, rfl⟩
    rfl
  · rintro _ _ rfl
    rfl

theorem preserves_reserve :
    Preserves (·.snapshots) (SessionClient.reserve : ClientM T Unit) :=
  preserves_get.bind fun _ => (preserves_ensure _ _).bind fun _ => preserves_modify fun _ => rfl

theorem preserves_beginConnect (intent : ClientConnectIntent) :
    Preserves (·.snapshots) (SessionClient.beginConnect intent : ClientM T _) :=
  preserves_reserve.bind fun _ => preserves_modify_bind (fun _ => rfl) <|
    preserves_nextRequestId.bind fun _ => preserves_get.bind fun _ => preserves_pure _

theorem preserves_rebindBackend (backend : T.Backend) :
    Preserves (·.snapshots) (SessionClient.rebindBackend backend) :=
  preserves_get.bind fun _ => (preserves_ensure _ _).bind fun _ => preserves_modify fun _ => rfl

theorem beginRequest_body (body : RequestBody) :
    wp (SessionClient.beginRequest body)
      (fun job c' => job.request.body = body ∧ c'.snapshots = c.snapshots)
      (fun _ c' => c'.snapshots = c.snapshots) True c := by
  simp only [SessionClient.beginRequest, SessionClient.reserve, wp_bind, wp_get, wp_ensure,
    wp_modify, wp_ite, wp_throw]
  refine ⟨fun _ => ⟨fun _ => trivial, fun _ => ?_⟩, fun _ => trivial⟩
  refine wp_mono (preserves_nextRequestId.wp _) (fun id c' h => ?_) (fun _ c' h => h) id
  split
  · simp only [wp_bind, wp_modify, wp_throw]
    exact h
  · simp only [wp_bind, wp_modify, wp_get, wp_pure]
    exact ⟨rfl, h⟩

theorem finishConnect_shows (completion : ClientConnectCompletion T) :
    wp (SessionClient.finishConnect completion) (fun _ => ShowsLess c) (fun _ => ShowsLess c)
      True c := by
  simp only [SessionClient.finishConnect, wp_bind, wp_modify]
  cases completion.result with
  | error e =>
    simp only [wp_bind, wp_modify, wp_throw]
    exact .of_eq rfl
  | ok value =>
    cases ha : attachedSnapshot value.2 completion.requestId (T.serviceInstance value.1) with
    | error e =>
      simp only [ha, wp_bind, wp_modify, wp_throw]
      exact .of_eq rfl
    | ok snapshot =>
      simp only [ha, wp_modify]
      intro pane screen hs
      simp only [SessionClient.attached] at hs
      split at hs
      · exact showsLess_filter c { c with snapshots := _ } rfl pane screen hs
      · cases hs

/-- The snapshots are some of those that there were, and what is returned is in the response. -/
theorem finishRequest_shows (completion : ClientRequestCompletion T) :
    wp (SessionClient.finishRequest completion)
      (fun body c' => ShowsLess c c' ∧
        ∃ envelope, completion.result = .ok envelope ∧ envelope.result = .ok body)
      (fun _ => ShowsLess c) True c := by
  simp only [SessionClient.finishRequest, wp_bind, wp_modify]
  cases completion.result with
  | error e =>
    simp only [SessionClient.markTransportLost, wp_bind, wp_modify, wp_throw]
    exact .of_eq rfl
  | ok response =>
    simp only [wp_ite, SessionClient.markTransportLost, wp_bind, wp_modify, wp_throw]
    refine ⟨fun _ => .of_eq rfl, fun _ => ?_⟩
    cases hr : response.result with
    | error e =>
      simp only [wp_bind, wp_modify, wp_throw]
      exact .of_eq rfl
    | ok body =>
      have hbody : ∃ envelope : ResponseEnvelope,
          (Except.ok response : Except ClientError ResponseEnvelope) = .ok envelope ∧
            envelope.result = .ok body := ⟨response, rfl, hr⟩
      cases body <;> simp only [wp_ite, wp_bind, wp_modify, wp_throw, wp_pure]
      case catalog | attached | catalogChanged =>
        exact ⟨fun _ => .of_eq rfl, fun _ => ⟨showsLess_filter _ _ rfl, hbody⟩⟩
      all_goals exact ⟨.of_eq rfl, hbody⟩

end Client

/-! ## What each method does to the surfaces -/

namespace SessionSurfaces

variable {s t u : SessionSurfaces T}

@[simp] theorem wp_onClient {α : Type} {x : ClientM T α} {Q : α → SessionSurfaces T → Prop}
    {E : SessionUiError → SessionSurfaces T → Prop} {P : Prop} :
    wp (onClient x) Q E P s ↔
      (∀ c, s.client = some c → wp x (fun a c' => Q a { s with client := some c' })
        (fun e c' => E (.client e) { s with client := some c' }) P c) ∧
      (s.client = none → E .unavailable s) := by
  simp only [onClient, wp_bind, wp_get, wp_okOr, wp_focus]

/-- The migration that is completed and the snapshots are some of those that there were. -/
structure Shows (s t : SessionSurfaces T) : Prop where
  completed : ∀ plan, t.completedMigration = some plan → s.completedMigration = some plan
  snapshots : ∀ pane screen, t.snapshot pane = some screen → s.snapshot pane = some screen

/-- So they are, and the request that is pending stays. -/
structure Keeps (s t : SessionSurfaces T) : Prop extends Shows s t where
  pending : t.pending = s.pending
  plan : t.migrationPlan = s.migrationPlan

theorem Shows.refl (s : SessionSurfaces T) : Shows s s := ⟨fun _ h => h, fun _ _ h => h⟩

theorem Shows.trans (h : Shows s t) (h' : Shows t u) : Shows s u :=
  ⟨fun plan hp => h.completed plan (h'.completed plan hp),
    fun pane screen hs => h.snapshots pane screen (h'.snapshots pane screen hs)⟩

theorem Keeps.refl (s : SessionSurfaces T) : Keeps s s := ⟨.refl s, rfl, rfl⟩

theorem Keeps.trans (h : Keeps s t) (h' : Keeps t u) : Keeps s u :=
  ⟨h.toShows.trans h'.toShows, h'.pending.trans h.pending, h'.plan.trans h.plan⟩

theorem keeps_client {c c' : SessionClient T} (hc : s.client = some c) (h : ShowsLess c c') :
    Keeps s { s with client := some c' } := by
  refine ⟨⟨fun _ hp => hp, fun pane screen hs => ?_⟩, rfl, rfl⟩
  rw [snapshot, hc]
  exact h pane screen hs

theorem keeps_onClient {α : Type} {x : ClientM T α}
    (h : ∀ c, wp x (fun _ => ShowsLess c) (fun _ => ShowsLess c) True c) :
    wp (onClient x) (fun _ => Keeps s) (fun _ => Keeps s) True s :=
  wp_onClient.mpr ⟨fun c hc => wp_mono (h c) (fun _ _ hl => keeps_client hc hl)
    (fun _ _ hl => keeps_client hc hl) id, fun _ => .refl s⟩

theorem keeps_of_preserves {α : Type} {x : ClientM T α} (h : Preserves (·.snapshots) x) :
    wp (onClient x) (fun _ => Keeps s) (fun _ => Keeps s) True s :=
  keeps_onClient fun c => wp_mono (h.wp c) (fun _ _ hs => .of_eq hs) (fun _ _ hs => .of_eq hs) id

/-- What a change of the selection leaves alone. -/
def rest (s : SessionSurfaces T) :
    Option (SessionClient T) × Option PendingRequest × Option SessionMigrationPlan ×
      Option SessionMigrationPlan :=
  (s.client, s.pending, s.migrationPlan, s.completedMigration)

theorem keeps_of_rest (h : t.rest = s.rest) : Keeps s t := by
  simp only [rest, Prod.mk.injEq] at h
  obtain ⟨hclient, hpending, hplan, hcompleted⟩ := h
  refine ⟨⟨fun _ hp => hcompleted ▸ hp, fun pane screen hs => ?_⟩, hpending, hplan⟩
  rwa [snapshot, hclient] at hs

theorem preserves_windowSelection (session : SessionId) (w : SessionWindow) :
    Preserves rest (windowSelection session w : SessionsM T _) :=
  (preserves_orPanic _).bind fun _ => preserves_pure _

theorem preserves_selectSession (session : SessionId) :
    Preserves rest (selectSession session : SessionsM T Bool) := by
  refine preserves_get.bind fun s => ?_
  split
  · exact preserves_pure _
  · exact Preserves.bind (preserves_windowSelection _ _) fun _ =>
      preserves_modify_bind (fun _ => rfl) (preserves_pure _)

theorem preserves_selectWindow (window : WindowId) :
    Preserves rest (selectWindow window : SessionsM T Bool) := by
  refine preserves_get.bind fun s => ?_
  split
  · exact preserves_pure _
  · split
    · exact preserves_pure _
    · exact (preserves_orPanic _).bind fun _ =>
        preserves_modify_bind (fun _ => rfl) (preserves_pure _)

theorem preserves_selectPane (pane : PaneId) :
    Preserves rest (selectPane pane : SessionsM T Bool) := by
  refine preserves_get.bind fun s => ?_
  split
  · exact preserves_pure _
  · exact preserves_modify_bind (fun _ => rfl) (preserves_pure _)

theorem preserves_syncSelection : Preserves rest (syncSelection : SessionsM T Unit) := by
  refine preserves_get.bind fun s => ?_
  split
  · exact preserves_pure _
  · split
    · exact preserves_modify fun _ => rfl
    · split
      · exact preserves_modify fun _ => rfl
      · exact Preserves.bind (preserves_windowSelection _ _) fun _ => preserves_modify fun _ => rfl

theorem keeps_of_rest_preserved {α : Type} {x : SessionsM T α} (h : Preserves rest x) :
    wp x (fun _ => Keeps s) (fun _ => Keeps s) True s :=
  wp_mono (h.wp s) (fun _ _ ht => keeps_of_rest ht) (fun _ _ ht => keeps_of_rest ht) id

theorem finishConnect_keeps (completion : ClientConnectCompletion T) :
    wp (finishConnect completion) (fun _ => Keeps s) (fun _ => Keeps s) True s := by
  refine wp_bind.mpr (wp_mono (keeps_onClient fun c => finishConnect_shows completion)
    (fun _ t ht => ?_) (fun _ t ht => ht) id)
  exact wp_mono (keeps_of_rest_preserved preserves_syncSelection) (fun _ u hu => ht.trans hu)
    (fun _ u hu => ht.trans hu) id

theorem rebindRemoteBackend_keeps (backend : T.Backend) (connectionId host : String)
    (workspaceRoot : PathBuf) (tmuxAvailable : Bool) (provider : PersistentProvider) :
    wp (rebindRemoteBackend backend connectionId host workspaceRoot tmuxAvailable provider)
      (fun _ => Keeps s) (fun _ => Keeps s) True s := by
  simp only [rebindRemoteBackend, wp_bind, wp_get]
  split
  · refine wp_bind.mpr (wp_mono (keeps_of_preserves (preserves_rebindBackend backend))
      (fun _ t ht => ?_) (fun _ t ht => ht) id)
    simp only [wp_bind, wp_modify, wp_pure]
    exact ht.trans ⟨⟨fun _ h => h, fun _ _ h => h⟩, rfl, rfl⟩
  · exact .refl s

theorem takeCompletedMigration_keeps :
    wp (takeCompletedMigration : SessionsM T _) (fun _ => Keeps s) (fun _ => Keeps s) True s := by
  simp only [takeCompletedMigration, wp_bind, wp_get, wp_set, wp_pure]
  exact ⟨⟨by rintro _ ⟨⟩, fun _ _ h => h⟩, rfl, rfl⟩

theorem markRemoteDisconnected_keeps : Keeps s s.markRemoteDisconnected := by
  unfold markRemoteDisconnected
  split
  · refine ⟨⟨fun _ h => h, fun pane screen hs => ?_⟩, rfl, rfl⟩
    unfold snapshot at hs ⊢
    cases hc : s.client with
    | none => rw [hc] at hs; exact hs
    | some c => rw [hc] at hs; exact hs
  · exact .refl s

/-! ## Requests -/

/-- A request was begun, where there was none. -/
structure Begun (s t : SessionSurfaces T) (job : ClientRequestJob T) : Prop extends Shows s t where
  free : s.pending = none
  pending : ∃ tag, t.pending = some tag ∧ tag.Owns t.migrationPlan job.request.body

/-- What the method of a request does: it begins the request that it returns. -/
def Begins (x : SessionsM T (Option (ClientRequestJob T))) (s : SessionSurfaces T) : Prop :=
  wp x (fun job t => match job with | some job => Begun s t job | none => Keeps s t)
    (fun _ t => Keeps s t) True s

theorem beginTaggedRequest_spec (body : RequestBody) (tag : PendingRequest) :
    wp (beginTaggedRequest body tag)
      (fun job t => Shows s t ∧ s.pending = none ∧ t.pending = some tag ∧
        t.migrationPlan = s.migrationPlan ∧ job.request.body = body)
      (fun _ t => Keeps s t) True s := by
  simp only [beginTaggedRequest, wp_bind, wp_get, wp_ensure, Option.isNone_iff_eq_none]
  refine ⟨fun hfree => wp_onClient.mpr ⟨fun c hc => ?_, fun _ => .refl s⟩, fun _ => .refl s⟩
  refine wp_mono (beginRequest_body body) (fun job c' h => ?_) (fun _ c' h => ?_) id
  · simp only [wp_modify, wp_pure]
    exact ⟨⟨fun _ hp => hp, (keeps_client hc (.of_eq h.2)).snapshots⟩, hfree, trivial, trivial, h.1⟩
  · exact keeps_client hc (.of_eq h)

/-- A request with a tag that stands for its body. -/
theorem begins_tagged {body : RequestBody} {tag : PendingRequest}
    (howns : ∀ plan, tag.Owns plan body) :
    Begins (some <$> beginTaggedRequest body tag) s := by
  refine wp_map.mpr (wp_mono (beginTaggedRequest_spec body tag) (fun job t h => ?_)
    (fun _ _ h => h) id)
  obtain ⟨hshows, hfree, htag, -, hbody⟩ := h
  exact ⟨hshows, hfree, tag, htag, hbody ▸ howns _⟩

theorem beginSnapshot_begins : Begins (some <$> beginSnapshot) s := by
  refine wp_map.mpr (wp_bind.mpr (wp_get.mpr (wp_bind.mpr (wp_okOr.mpr ⟨fun pane _ => ?_,
    fun _ => .refl s⟩))))
  have howns : ∀ plan, (PendingRequest.snapshot pane).Owns plan (.snapshot pane) := fun _ => rfl
  exact wp_map.mp (begins_tagged howns)

theorem beginNextReconnectResync_begins :
    Begins (beginNextReconnectResync : SessionsM T (Option (ClientRequestJob T))) s := by
  have hresync : Preserves (·.snapshots)
      (SessionClient.takeReconnectResyncPane : ClientM T (Option PaneId)) := by
    intro c r c' h
    cases h
    rfl
  refine wp_bind.mpr (wp_mono (keeps_of_preserves hresync) (fun pane t ht => ?_)
    (fun _ t ht => ht) id)
  cases pane with
  | none => exact ht
  | some pane =>
    refine wp_bind.mpr (wp_mono (beginTaggedRequest_spec _ _) (fun job u h => ?_)
      (fun _ u hu => ht.trans hu) id)
    obtain ⟨hshows, hfree, htag, -, hbody⟩ := h
    exact ⟨ht.toShows.trans hshows, ht.pending.symm.trans hfree, _, htag, hbody⟩

theorem beginMigration_begins (state : WorkspaceState) (rng : RandomSource) :
    Begins (beginMigration state rng) s := by
  refine wp_bind.mpr (wp_get.mpr (wp_bind.mpr (wp_orPanic.mpr ⟨fun outcome _ => ?_,
    fun _ => trivial⟩)))
  refine wp_bind.mpr (wp_ofExcept.mpr ⟨fun migration _ => ?_, fun _ _ => .refl s⟩)
  cases migration with
  | none => exact .refl s
  | m3Authoritative => exact .refl s
  | planned plan =>
    refine wp_bind.mpr (wp_mono (beginTaggedRequest_spec _ _) (fun job t h => ?_)
      (fun _ _ h => h) id)
    obtain ⟨hshows, hfree, htag, -, hbody⟩ := h
    simp only [wp_bind, wp_modify, wp_pure]
    exact ⟨⟨hshows.completed, hshows.snapshots⟩, hfree, .migration, htag,
      plan, rfl, hbody⟩

/-! ## Completions -/

/-- A request with the tag was finished with the result. -/
structure Finished (tag : PendingRequest) (result : Except ClientError ResponseEnvelope)
    (s t : SessionSurfaces T) : Prop where
  pending : t.pending = none
  snapshots : ∀ pane screen, t.snapshot pane = some screen → s.snapshot pane = some screen ∨
    (tag = .snapshot pane ∧ ∃ envelope, result = .ok envelope ∧
      envelope.result = .ok (.paneSnapshot screen))
  completed : ∀ plan, t.completedMigration = some plan → s.completedMigration = some plan ∨
    (tag = .migration ∧ s.migrationPlan = some plan ∧ ∃ envelope snapshot,
      result = .ok envelope ∧ envelope.result = .ok (.catalogChanged snapshot))

theorem applySnapshot_shows (pane : PaneId) (screen : PaneScreenSnapshot) :
    wp (onClient (SessionClient.applySnapshot pane screen))
      (fun _ t => t.pending = s.pending ∧ t.migrationPlan = s.migrationPlan ∧
        t.completedMigration = s.completedMigration ∧
        ∀ p shown, t.snapshot p = some shown →
          s.snapshot p = some shown ∨ (p = pane ∧ shown = screen))
      (fun _ t => t = s) True s := by
  refine wp_onClient.mpr ⟨fun c hc => ?_, fun _ => rfl⟩
  have hsame : ∀ p shown, c.snapshots.get? p = some shown → s.snapshot p = some shown :=
    fun p shown h => by rwa [snapshot, hc]
  simp only [SessionClient.applySnapshot, wp_bind, wp_get, wp_ite, wp_modify, wp_pure]
  refine ⟨fun _ => ⟨trivial, trivial, trivial, fun p shown hs => ?_⟩,
    fun _ => ⟨trivial, trivial, trivial, fun p shown hs => .inl (hsame p shown hs)⟩⟩
  simp only [snapshot, Option.bind_some, SortedMap.get?_insert] at hs
  split at hs
  · next heq =>
    cases hs
    exact .inr ⟨heq, rfl⟩
  · exact .inl (hsame p shown hs)

theorem Finished.keeps {tag : PendingRequest} {result : Except ClientError ResponseEnvelope}
    (h : Finished tag result s t) (hk : Keeps t u) : Finished tag result s u :=
  ⟨hk.pending.trans h.pending, fun pane screen hs => h.snapshots pane screen (hk.snapshots _ _ hs),
    fun plan hp => h.completed plan (hk.completed plan hp)⟩

/-- The snapshot that was requested is applied, and the migration that was requested completed. -/
theorem applied_finished {tag : PendingRequest} {envelope : ResponseEnvelope}
    {body : ResponseBody} (hbody : envelope.result = .ok body) (hpending : t.pending = none)
    (hplan : t.migrationPlan = s.migrationPlan) (hshows : Shows s t) :
    wp (applyRequested tag body) (fun _ u => wp (completeMigration tag body)
      (fun _ => Finished tag (.ok envelope) s) (fun _ => Finished tag (.ok envelope) s) True u)
      (fun _ => Finished tag (.ok envelope) s) True t := by
  have hold : Finished tag (.ok envelope) s t :=
    ⟨hpending, fun pane screen hs => .inl (hshows.snapshots pane screen hs),
      fun plan hp => .inl (hshows.completed plan hp)⟩
  have hmigrate : ∀ u, u.migrationPlan = s.migrationPlan → Finished tag (.ok envelope) s u →
      wp (completeMigration tag body) (fun _ => Finished tag (.ok envelope) s)
        (fun _ => Finished tag (.ok envelope) s) True u := by
    intro u hm hu
    simp only [completeMigration, wp_ite, wp_modify, wp_pure]
    refine ⟨fun hmigrated => ⟨hu.pending, hu.snapshots, fun plan hp => .inr ?_⟩, fun _ => hu⟩
    obtain ⟨rfl, hchanged⟩ := hmigrated
    refine ⟨rfl, hm.symm.trans hp, envelope, ?_⟩
    cases body <;> first | exact ⟨_, rfl, hbody⟩ | cases hchanged
  unfold applyRequested requestedSnapshot
  split
  · next pane screen heq =>
    split at heq
    · cases heq
      refine wp_discard.mpr (wp_mono (applySnapshot_shows pane screen) (fun _ u hu => ?_)
        (fun _ u hu => hu ▸ hold) id)
      obtain ⟨hp, hm, hc, hs⟩ := hu
      refine hmigrate u (hm.trans hplan) ⟨hp.trans hpending, fun p shown hshown => ?_,
        fun plan hcompleted => hold.completed plan (hc ▸ hcompleted)⟩
      obtain hshown | ⟨rfl, rfl⟩ := hs p shown hshown
      · exact hold.snapshots p shown hshown
      · exact .inr ⟨rfl, envelope, rfl, hbody⟩
    · cases heq
  · exact hmigrate t hplan hold

/-- A completion is dropped where no request is pending, else it finishes the one that is. -/
theorem finishRequest_finished (completion : ClientRequestCompletion T) :
    wp (finishRequest completion)
      (fun _ t => ∃ tag, s.pending = some tag ∧ Finished tag completion.result s t)
      (fun _ t => (s.pending = none ∧ t = s) ∨
        ∃ tag, s.pending = some tag ∧ Finished tag completion.result s t) True s := by
  refine wp_bind.mpr (wp_get.mpr (wp_bind.mpr (wp_okOr.mpr ⟨fun tag htag => ?_,
    fun hnone => .inl ⟨hnone, rfl⟩⟩)))
  refine wp_bind.mpr (wp_modify.mpr (wp_bind.mpr (wp_onClient.mpr ⟨fun c hc => ?_, fun _ => ?_⟩)))
  · have hkeeps : ∀ c', ShowsLess c c' →
        Shows s { s with pending := none, client := some c' } := fun c' h =>
      ⟨fun _ hp => hp, (keeps_client hc h).snapshots⟩
    refine wp_mono (finishRequest_shows completion) (fun body c' h => ?_) (fun e c' h => ?_) id
    · obtain ⟨hless, envelope, hresult, hbody⟩ := h
      refine wp_bind.mpr (wp_mono (applied_finished (s := s) hbody rfl rfl (hkeeps c' hless))
        (fun _ t ht => wp_bind.mpr (wp_mono ht (fun _ t ht => ?_)
          (fun _ t ht => .inr ⟨tag, htag, hresult ▸ ht⟩) id))
        (fun _ t ht => .inr ⟨tag, htag, hresult ▸ ht⟩) id)
      refine wp_bind.mpr (wp_mono (keeps_of_rest_preserved preserves_syncSelection)
        (fun _ u hu => ?_) (fun _ u hu => .inr ⟨tag, htag, hresult ▸ ht.keeps hu⟩) id)
      exact wp_pure.mpr ⟨tag, htag, hresult ▸ ht.keeps hu⟩
    · have hs := hkeeps c' h
      exact .inr ⟨tag, htag, rfl, fun pane screen hshown => .inl (hs.snapshots _ _ hshown),
        fun plan hp => .inl hp⟩
  · exact .inr ⟨tag, htag, rfl, fun pane screen hshown => .inl hshown, fun plan hp => .inl hp⟩

/-- What the surfaces show of their client, and what they remember. -/
structure SameProjection (s t : SessionSurfaces T) : Prop where
  connection : t.client.map (·.connection) = s.client.map (·.connection)
  catalog : t.catalog = s.catalog
  snapshots : t.snapshot = s.snapshot
  health : t.health = s.health
  selection : t.selectedSession = s.selectedSession ∧ t.selectedWindow = s.selectedWindow ∧
    t.selectedPane = s.selectedPane
  pending : t.pending = s.pending
  migration : t.migrationPlan = s.migrationPlan ∧ t.completedMigration = s.completedMigration

theorem SameProjection.refl (s : SessionSurfaces T) : SameProjection s s :=
  ⟨rfl, rfl, rfl, rfl, ⟨rfl, rfl, rfl⟩, rfl, ⟨rfl, rfl⟩⟩

/-- A connect that is refused finds the client as a loss leaves it, and leaves it so. -/
theorem finishConnect_refused {completion : ClientConnectCompletion T}
    (hrefused : completion.refused = true) (hlost : ∀ c ∈ s.client, c.health = c.lostHealth) :
    wp (finishConnect completion) (fun _ _ => False) (fun _ t => SameProjection s t) True s := by
  refine wp_bind.mpr (wp_onClient.mpr ⟨fun c hc => ?_, fun _ => .refl s⟩)
  refine wp_mono (SessionClient.finishConnect_spec completion) (fun _ c' h => ?_)
    (fun _ c' h => ?_) fun h => h.elim
  · rw [hrefused] at h
    cases h.2
  · subst h
    have hhealth := hlost c hc
    refine ⟨?_, ?_, ?_, ?_, ⟨rfl, rfl, rfl⟩, rfl, ⟨rfl, rfl⟩⟩
    · rw [hc]
      rfl
    · simp only [catalog, hc]
      rfl
    · funext pane
      simp only [snapshot, hc]
      rfl
    · simp only [health, hc]
      exact hhealth.symm

end SessionSurfaces

end Strukt.App
