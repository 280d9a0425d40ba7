import Strukt.App.SurfacesSpec

/-!
# Jobs of replaced clients

* **The system** (`SurfacesSystem`): the surfaces, and the jobs that were begun and not finished.
  `epoch` counts the clients that took the place of another, and a request keeps the tag that it
  was begun with; neither is data of the source.
* **Operations** (`SurfacesOp`): completions are handed back in any order and at any time, each
  once, with any result.
* **Tags** (`Tagged`): the request of the current client that is running, if any, is the one that
  is pending.
* **Isolation** (`provider_isolation`): a job of a replaced client changes nothing where its
  connect is refused and finds the client as a loss leaves it, or where no request is pending
  (`Orderly`); every other completion is matched with its own tag.
-/

namespace Strukt.App

open Method

variable {T : ClientTransport}

/-! ## The system -/

inductive SurfacesWork where
  | connect (intent : ClientConnectIntent)
  | request (tag : PendingRequest) (body : RequestBody)

structure SurfacesJob where
  epoch : Nat
  requestId : UInt64
  work : SurfacesWork

structure SurfacesSystem (T : ClientTransport) where
  surfaces : SessionSurfaces T
  epoch : Nat
  jobs : List SurfacesJob

inductive SurfacesOp (T : ClientTransport) where
  | beginConnect
  | beginReconnect
  | finishConnect (job : Nat) (result : Except ClientError (T.Connection × ResponseEnvelope))
  | beginRequest (body : RequestBody)
  | beginSnapshot
  | beginNextReconnectResync
  | beginDetach
  | beginMigration (state : WorkspaceState) (rng : RandomSource)
  | takeCompletedMigration
  | finishRequest (job : Nat) (connection : T.Connection)
      (result : Except ClientError ResponseEnvelope)
  | selectSession (session : SessionId)
  | selectWindow (window : WindowId)
  | selectPane (pane : PaneId)
  | useRemoteClient (backend : T.Backend) (connectionId host : String) (workspaceRoot : PathBuf)
      (tmuxAvailable : Bool) (provider : PersistentProvider)
  | rebindRemoteBackend (backend : T.Backend) (connectionId host : String)
      (workspaceRoot : PathBuf) (tmuxAvailable : Bool) (provider : PersistentProvider)
  | markRemoteDisconnected

namespace SurfacesJob

def tag (job : SurfacesJob) : Option PendingRequest :=
  match job.work with
  | .request tag _ => some tag
  | .connect _ => none

/-- The connect that the job makes is refused with the result. -/
def refused (result : Except ClientError (T.Connection × ResponseEnvelope)) (job : SurfacesJob) :
    Bool :=
  match job.work with
  | .connect intent => ClientConnectCompletion.refused (T := T) ⟨job.requestId, intent, result⟩
  | .request _ _ => false

/-- The body that was sent is the one that the tag stands for. -/
def Owns (plan : Option SessionMigrationPlan) (job : SurfacesJob) : Prop :=
  match job.work with
  | .request tag body => tag.Owns plan body
  | .connect _ => True

theorem owns_of_tag {plan : Option SessionMigrationPlan} {job : SurfacesJob}
    (h : job.tag = none) : job.Owns plan := by
  obtain ⟨epoch, requestId, intent | ⟨tag, body⟩⟩ := job
  · trivial
  · cases h

end SurfacesJob

namespace SurfacesSystem

variable {s s' : SurfacesSystem T} {op : SurfacesOp T}

def Initial (s : SurfacesSystem T) : Prop :=
  (s.surfaces = .unconfigured ∨ ∃ backend, s.surfaces = .withClient (.fromBackend backend)) ∧
    s.epoch = 0 ∧ s.jobs = []

def call {α : Type} (s : SurfacesSystem T) (x : SessionsM T α)
    (next : Except SessionUiError α → SessionSurfaces T → SurfacesSystem T) :
    Option (SurfacesSystem T) :=
  (x.exec s.surfaces).map fun (r, t) => next r t

/-- A method that begins no job. -/
def act {α : Type} (s : SurfacesSystem T) (x : SessionsM T α) : Option (SurfacesSystem T) :=
  s.call x fun _ t => { s with surfaces := t }

def connects (s : SurfacesSystem T) (x : SessionsM T (ClientConnectJob T)) :
    Option (SurfacesSystem T) :=
  s.call x fun r t =>
    match r with
    | .ok job =>
      { s with surfaces := t, jobs := s.jobs ++ [⟨s.epoch, job.requestId, .connect job.intent⟩] }
    | .error _ => { s with surfaces := t }

/-- The job of a request keeps the tag that is pending after it was begun. -/
def begun (s : SurfacesSystem T) (t : SessionSurfaces T) :
    Option (ClientRequestJob T) → SurfacesSystem T
  | some job =>
    { s with
      surfaces := t
      jobs := s.jobs ++ (t.pending.map fun tag =>
        ⟨s.epoch, job.request.requestId, .request tag job.request.body⟩).toList }
  | none => { s with surfaces := t }

def requests (s : SurfacesSystem T) (x : SessionsM T (Option (ClientRequestJob T))) :
    Option (SurfacesSystem T) :=
  s.call x fun r t => s.begun t (r.toOption.bind id)

def step (s : SurfacesSystem T) : SurfacesOp T → Option (SurfacesSystem T)
  | .beginConnect => s.connects SessionSurfaces.beginConnect
  | .beginReconnect => s.connects SessionSurfaces.beginReconnect
  | .finishConnect k result =>
    match s.jobs[k]? with
    | some ⟨_, requestId, .connect intent⟩ =>
      s.call (SessionSurfaces.finishConnect ⟨requestId, intent, result⟩) fun _ t =>
        { s with surfaces := t, jobs := s.jobs.eraseIdx k }
    | _ => none
  | .beginRequest body => s.requests (some <$> SessionSurfaces.beginRequest body)
  | .beginSnapshot => s.requests (some <$> SessionSurfaces.beginSnapshot)
  | .beginNextReconnectResync => s.requests SessionSurfaces.beginNextReconnectResync
  | .beginDetach => s.requests (some <$> SessionSurfaces.beginDetach)
  | .beginMigration state rng => s.requests (SessionSurfaces.beginMigration state rng)
  | .takeCompletedMigration => s.act SessionSurfaces.takeCompletedMigration
  | .finishRequest k connection result =>
    match s.jobs[k]? with
    | some ⟨_, requestId, .request _ _⟩ =>
      s.call (SessionSurfaces.finishRequest ⟨requestId, connection, result⟩) fun _ t =>
        { s with surfaces := t, jobs := s.jobs.eraseIdx k }
    | _ => none
  | .selectSession session => s.act (SessionSurfaces.selectSession session)
  | .selectWindow window => s.act (SessionSurfaces.selectWindow window)
  | .selectPane pane => s.act (SessionSurfaces.selectPane pane)
  | .useRemoteClient backend connectionId host workspaceRoot tmuxAvailable provider =>
    some { s with
      surfaces := .useRemoteClient (.fromBackend backend) connectionId host workspaceRoot
        tmuxAvailable provider
      epoch := s.epoch + 1 }
  | .rebindRemoteBackend backend connectionId host workspaceRoot tmuxAvailable provider =>
    s.act (SessionSurfaces.rebindRemoteBackend backend connectionId host workspaceRoot
      tmuxAvailable provider)
  | .markRemoteDisconnected => some { s with surfaces := s.surfaces.markRemoteDisconnected }

/-- The operation completes a job of a client that was replaced. -/
def Superseded (s : SurfacesSystem T) : SurfacesOp T → Prop
  | .finishConnect k _ | .finishRequest k _ _ => ∃ job ∈ s.jobs[k]?, job.epoch ≠ s.epoch
  | _ => False

/-- A connect of a replaced client is refused and finds the client as a loss leaves it, and a
request of one ends while no request is pending. -/
def Orderly (s : SurfacesSystem T) (op : SurfacesOp T) : Prop :=
  s.Superseded op →
    match op with
    | .finishConnect k result =>
      (∀ c ∈ s.surfaces.client, c.health = c.lostHealth) ∧
        ∀ job ∈ s.jobs[k]?, job.refused (T := T) result
    | .finishRequest _ _ _ => s.surfaces.pending = none
    | _ => True

instance (s : SurfacesSystem T) (op : SurfacesOp T) : Decidable (s.Superseded op) := by
  cases op <;> dsimp only [Superseded] <;> infer_instance

instance (s : SurfacesSystem T) (op : SurfacesOp T) : Decidable (s.Orderly op) := by
  cases op <;> dsimp only [Orderly] <;> infer_instance

/-- The operation completes a request of the current client that was sent with the body, with the
response. -/
def Brings (s : SurfacesSystem T) (op : SurfacesOp T) (body : RequestBody)
    (response : ResponseBody) : Prop :=
  ∃ k connection envelope job tag, op = .finishRequest k connection (.ok envelope) ∧
    s.jobs[k]? = some job ∧ job.epoch = s.epoch ∧ job.work = .request tag body ∧
      envelope.result = .ok response

end SurfacesSystem

/-! ## Runs -/

namespace SurfacesSystem

open SessionSurfaces

variable {s s' : SurfacesSystem T} {op : SurfacesOp T}

/-- The tag of a job of the current client. -/
def liveTag (s : SurfacesSystem T) (job : SurfacesJob) : Option PendingRequest :=
  if job.epoch = s.epoch then job.tag else none

/-- The requests of the current client are the one that is pending, with its own body. -/
structure Tagged (s : SurfacesSystem T) : Prop where
  epoch : ∀ job ∈ s.jobs, job.epoch ≤ s.epoch
  tags : (s.jobs.filterMap s.liveTag).Perm s.surfaces.pending.toList
  owns : ∀ job ∈ s.jobs, job.epoch = s.epoch → job.Owns s.surfaces.migrationPlan

theorem tagged_initial (h : s.Initial) : s.Tagged := by
  obtain ⟨hsurfaces, -, hjobs⟩ := h
  refine ⟨?_, ?_, ?_⟩
  · rw [hjobs]
    exact fun _ hjob => absurd hjob List.not_mem_nil
  · rw [hjobs]
    obtain h | ⟨backend, h⟩ := hsurfaces <;> rw [h] <;> exact .refl _
  · rw [hjobs]
    exact fun _ hjob => absurd hjob List.not_mem_nil

theorem of_act {α : Type} {x : SessionsM T α} {I : SessionSurfaces T → Prop}
    (h : s.act x = some s') (hx : wp x (fun _ => I) (fun _ => I) True s.surfaces) :
    ∃ t, I t ∧ s' = { s with surfaces := t } := by
  obtain ⟨⟨r, t⟩, he, rfl⟩ := Option.map_eq_some_iff.mp h
  exact ⟨t, hx.state he, rfl⟩

/-- What an operation that finishes no request does: the surfaces keep or begin a request. -/
theorem of_requests {x : SessionsM T (Option (ClientRequestJob T))}
    (h : s.requests x = some s') (hx : Begins x s.surfaces) :
    (∃ t, Keeps s.surfaces t ∧ s' = { s with surfaces := t }) ∨
    ∃ t job tag, Begun s.surfaces t job ∧ t.pending = some tag ∧
      s' = { s with
        surfaces := t
        jobs := s.jobs ++ [⟨s.epoch, job.request.requestId, .request tag job.request.body⟩] } := by
  obtain ⟨⟨r, t⟩, he, rfl⟩ := Option.map_eq_some_iff.mp h
  rcases r with e | job | job
  · exact .inl ⟨t, hx.of_error he, rfl⟩
  · exact .inl ⟨t, hx.of_ok he, rfl⟩
  · have hb : Begun s.surfaces t job := hx.of_ok he
    obtain ⟨tag, htag, -⟩ := hb.pending
    refine .inr ⟨t, job, tag, hb, htag, ?_⟩
    show s.begun t (some job) = _
    rw [begun, htag]
    rfl

/-- Where no request is pending, the jobs of the current client are connects. -/
theorem Tagged.connects (h : s.Tagged) (hfree : s.surfaces.pending = none) {job : SurfacesJob}
    (hjob : job ∈ s.jobs) (he : job.epoch = s.epoch) : job.tag = none := by
  have hnil : s.jobs.filterMap s.liveTag = [] := by
    have := h.tags
    rw [hfree] at this
    exact this.eq_nil
  have := List.filterMap_eq_nil_iff.mp hnil job hjob
  rwa [liveTag, if_pos he] at this

theorem Tagged.begun (h : s.Tagged) {t : SessionSurfaces T} {job : ClientRequestJob T}
    {tag : PendingRequest} (hb : Begun s.surfaces t job) (htag : t.pending = some tag) :
    ({ s with
      surfaces := t
      jobs := s.jobs ++ [⟨s.epoch, job.request.requestId, .request tag job.request.body⟩] } :
      SurfacesSystem T).Tagged := by
  obtain ⟨tag', htag', howns⟩ := hb.pending
  obtain rfl : tag' = tag := Option.some.inj (htag'.symm.trans htag)
  refine ⟨?_, ?_, ?_⟩
  · intro j hj
    rcases List.mem_append.mp hj with hj | hj
    · exact h.epoch j hj
    · rw [List.mem_singleton.mp hj]
  · have hnil : s.jobs.filterMap s.liveTag = [] := by
      have := h.tags
      rw [hb.free] at this
      exact this.eq_nil
    show ((s.jobs ++ [_]).filterMap s.liveTag).Perm t.pending.toList
    rw [List.filterMap_append, hnil, htag]
    simp [liveTag, SurfacesJob.tag]
  · intro j hj he
    rcases List.mem_append.mp hj with hj | hj
    · exact SurfacesJob.owns_of_tag (h.connects hb.free hj he)
    · rw [List.mem_singleton.mp hj]
      exact howns

theorem perm_filterMap_eraseIdx {α β : Type} {f : α → Option β} {l : List α} {k : Nat} {a : α}
    (h : l[k]? = some a) :
    ((f a).toList ++ (l.eraseIdx k).filterMap f).Perm (l.filterMap f) := by
  obtain ⟨hlt, rfl⟩ := List.getElem?_eq_some_iff.mp h
  have hperm := (List.getElem_cons_eraseIdx_perm hlt).filterMap f
  rw [List.filterMap_cons] at hperm
  cases hf : f l[k] <;> rw [hf] at hperm <;> exact hperm

/-- The request of the current client that ends is the one that is pending, and the last. -/
theorem Tagged.pending_of_live (h : s.Tagged) {k : Nat} {job : SurfacesJob} {tag : PendingRequest}
    {body : RequestBody} (hjob : s.jobs[k]? = some job) (he : job.epoch = s.epoch)
    (hwork : job.work = .request tag body) :
    s.surfaces.pending = some tag ∧ (s.jobs.eraseIdx k).filterMap s.liveTag = [] := by
  have htag : s.liveTag job = some tag := by
    rw [liveTag, if_pos he, SurfacesJob.tag, hwork]
  have hperm := (perm_filterMap_eraseIdx (f := s.liveTag) hjob).trans h.tags
  rw [htag] at hperm
  cases hp : s.surfaces.pending with
  | none =>
    rw [hp] at hperm
    exact absurd hperm.eq_nil (List.cons_ne_nil _ _)
  | some p =>
    rw [hp] at hperm
    obtain ⟨rfl, hrest⟩ := List.cons_eq_cons.mp (List.perm_singleton.mp hperm)
    exact ⟨rfl, hrest⟩

/-- A job without a live tag that ends leaves the tags. -/
theorem Tagged.erased (h : s.Tagged) {k : Nat} {job : SurfacesJob} (hjob : s.jobs[k]? = some job)
    (hno : s.liveTag job = none) {t : SessionSurfaces T} (hk : Keeps s.surfaces t) :
    ({ s with surfaces := t, jobs := s.jobs.eraseIdx k } : SurfacesSystem T).Tagged := by
  have hperm := (perm_filterMap_eraseIdx (f := s.liveTag) hjob).trans h.tags
  rw [hno] at hperm
  exact ⟨fun j hj => h.epoch j (List.mem_of_mem_eraseIdx hj), by rw [hk.pending]; exact hperm,
    fun j hj he => by
      rw [hk.plan]
      exact h.owns j (List.mem_of_mem_eraseIdx hj) he⟩

theorem finishConnect_cases {k : Nat}
    {result : Except ClientError (T.Connection × ResponseEnvelope)}
    (hs : s.step (.finishConnect k result) = some s') :
    ∃ job t, s.jobs[k]? = some job ∧ job.tag = none ∧ Keeps s.surfaces t ∧
      (job.refused (T := T) result → (∀ c ∈ s.surfaces.client, c.health = c.lostHealth) →
        SameProjection s.surfaces t) ∧
      s' = { s with surfaces := t, jobs := s.jobs.eraseIdx k } := by
  simp only [step] at hs
  split at hs
  · next epoch requestId intent hjob =>
    obtain ⟨⟨r, t⟩, he, rfl⟩ := Option.map_eq_some_iff.mp hs
    refine ⟨_, t, hjob, rfl, (finishConnect_keeps _).state he, fun hrefused hlost => ?_, rfl⟩
    have hc : ClientConnectCompletion.refused ⟨requestId, intent, result⟩ = true := hrefused
    have hx := finishConnect_refused hc hlost
    cases r with
    | ok a => exact (hx.of_ok he).elim
    | error e => exact hx.of_error he
  · cases hs

theorem finishRequest_cases {k : Nat} {connection : T.Connection}
    {result : Except ClientError ResponseEnvelope}
    (hs : s.step (.finishRequest k connection result) = some s') :
    ∃ job tag body t, s.jobs[k]? = some job ∧ job.work = .request tag body ∧
      ((s.surfaces.pending = none ∧ t = s.surfaces) ∨
        ∃ pending, s.surfaces.pending = some pending ∧ Finished pending result s.surfaces t) ∧
      s' = { s with surfaces := t, jobs := s.jobs.eraseIdx k } := by
  simp only [step] at hs
  split at hs
  · next epoch requestId tag body hjob =>
    obtain ⟨⟨r, t⟩, he, rfl⟩ := Option.map_eq_some_iff.mp hs
    refine ⟨_, tag, body, t, hjob, rfl, ?_, rfl⟩
    have hx := finishRequest_finished (s := s.surfaces)
      (⟨requestId, connection, result⟩ : ClientRequestCompletion T)
    cases r with
    | ok a => exact .inr (hx.of_ok he)
    | error e => exact hx.of_error he
  · cases hs

/-- What an orderly completion of a request does: it is dropped, or it finishes its own request. -/
theorem Tagged.finishRequest_cases (h : s.Tagged) {k : Nat} {connection : T.Connection}
    {result : Except ClientError ResponseEnvelope}
    (ho : s.Orderly (.finishRequest k connection result))
    (hs : s.step (.finishRequest k connection result) = some s') :
    ∃ job tag body t, s.jobs[k]? = some job ∧ job.work = .request tag body ∧
      ((job.epoch ≠ s.epoch ∧ t = s.surfaces) ∨
        (job.epoch = s.epoch ∧ s.surfaces.pending = some tag ∧
          Finished tag result s.surfaces t)) ∧
      s' = { s with surfaces := t, jobs := s.jobs.eraseIdx k } := by
  obtain ⟨job, tag, body, t, hjob, hwork, hcases, rfl⟩ := SurfacesSystem.finishRequest_cases hs
  refine ⟨job, tag, body, t, hjob, hwork, ?_, rfl⟩
  by_cases he : job.epoch = s.epoch
  · obtain ⟨hpending, -⟩ := h.pending_of_live hjob he hwork
    obtain ⟨hnone, -⟩ | ⟨pending, hp, hfinished⟩ := hcases
    · rw [hpending] at hnone
      cases hnone
    · obtain rfl : tag = pending := Option.some.inj (hpending.symm.trans hp)
      exact .inr ⟨he, hpending, hfinished⟩
  · have hnone : s.surfaces.pending = none := ho ⟨job, hjob, he⟩
    obtain ⟨-, ht⟩ | ⟨pending, hp, -⟩ := hcases
    · exact .inl ⟨he, ht⟩
    · rw [hnone] at hp
      cases hp

theorem of_connects {x : SessionsM T (ClientConnectJob T)} (h : s.connects x = some s')
    (hx : wp x (fun _ => Keeps s.surfaces) (fun _ => Keeps s.surfaces) True s.surfaces) :
    ∃ t jobs, Keeps s.surfaces t ∧ (∀ job ∈ jobs, job.epoch = s.epoch ∧ job.tag = none) ∧
      s' = { s with surfaces := t, jobs := s.jobs ++ jobs } := by
  obtain ⟨⟨r, t⟩, he, rfl⟩ := Option.map_eq_some_iff.mp h
  cases r with
  | error e =>
    exact ⟨t, [], hx.of_error he, fun _ h => absurd h List.not_mem_nil, by rw [List.append_nil]⟩
  | ok job =>
    refine ⟨t, [_], hx.of_ok he, fun j hj => ?_, rfl⟩
    rw [List.mem_singleton.mp hj]
    exact ⟨rfl, rfl⟩

theorem Tagged.connecting (h : s.Tagged) {t : SessionSurfaces T} {jobs : List SurfacesJob}
    (hk : Keeps s.surfaces t) (hjobs : ∀ job ∈ jobs, job.epoch = s.epoch ∧ job.tag = none) :
    ({ s with surfaces := t, jobs := s.jobs ++ jobs } : SurfacesSystem T).Tagged := by
  have hnil : jobs.filterMap s.liveTag = [] :=
    List.filterMap_eq_nil_iff.mpr fun job hjob => by
      rw [liveTag, if_pos (hjobs job hjob).1]
      exact (hjobs job hjob).2
  refine ⟨fun j hj => ?_, ?_, fun j hj he => ?_⟩
  · exact (List.mem_append.mp hj).elim (h.epoch j) fun hj => (hjobs j hj).1.le
  · show ((s.jobs ++ jobs).filterMap s.liveTag).Perm t.pending.toList
    rw [List.filterMap_append, hnil, List.append_nil, hk.pending]
    exact h.tags
  · rcases List.mem_append.mp hj with hj | hj
    · rw [hk.plan]
      exact h.owns j hj he
    · exact SurfacesJob.owns_of_tag (hjobs j hj).2

/-- What an operation does that finishes no job: the surfaces keep what they show, begin a request,
or get another client. -/
theorem step_cases (hs : s.step op = some s') :
    (∃ t jobs, Keeps s.surfaces t ∧ (∀ job ∈ jobs, job.epoch = s.epoch ∧ job.tag = none) ∧
      s' = { s with surfaces := t, jobs := s.jobs ++ jobs }) ∨
    (∃ t job tag, Begun s.surfaces t job ∧ t.pending = some tag ∧
      s' = { s with
        surfaces := t
        jobs := s.jobs ++ [⟨s.epoch, job.request.requestId, .request tag job.request.body⟩] }) ∨
    (∃ t, t.pending = none ∧ t.completedMigration = none ∧ (∀ pane, t.snapshot pane = none) ∧
      s' = { s with surfaces := t, epoch := s.epoch + 1 }) ∨
    (∃ k result, op = .finishConnect k result) ∨
    ∃ k connection result, op = .finishRequest k connection result := by
  have hact : ∀ {α : Type} {x : SessionsM T α}, s.act x = some s' →
      wp x (fun _ => Keeps s.surfaces) (fun _ => Keeps s.surfaces) True s.surfaces →
      ∃ t jobs, Keeps s.surfaces t ∧ (∀ job ∈ jobs, job.epoch = s.epoch ∧ job.tag = none) ∧
        s' = { s with surfaces := t, jobs := s.jobs ++ jobs } := by
    intro α x h hx
    obtain ⟨t, ht, rfl⟩ := of_act h hx
    exact ⟨t, [], ht, fun _ h => absurd h List.not_mem_nil, by rw [List.append_nil]⟩
  have hrequest : ∀ {x : SessionsM T (Option (ClientRequestJob T))}, s.requests x = some s' →
      Begins x s.surfaces →
      (∃ t jobs, Keeps s.surfaces t ∧ (∀ job ∈ jobs, job.epoch = s.epoch ∧ job.tag = none) ∧
        s' = { s with surfaces := t, jobs := s.jobs ++ jobs }) ∨
      ∃ t job tag, Begun s.surfaces t job ∧ t.pending = some tag ∧ s' = { s with
        surfaces := t
        jobs := s.jobs ++ [⟨s.epoch, job.request.requestId, .request tag job.request.body⟩] } := by
    intro x h hx
    obtain ⟨t, ht, rfl⟩ | hb := of_requests h hx
    · exact .inl ⟨t, [], ht, fun _ h => absurd h List.not_mem_nil, by rw [List.append_nil]⟩
    · exact .inr hb
  cases op with
  | beginConnect | beginReconnect =>
    exact .inl (of_connects hs (keeps_of_preserves (preserves_beginConnect _)))
  | beginRequest body => exact (hrequest hs (begins_tagged fun _ => trivial)).imp_right .inl
  | beginSnapshot => exact (hrequest hs beginSnapshot_begins).imp_right .inl
  | beginNextReconnectResync => exact (hrequest hs beginNextReconnectResync_begins).imp_right .inl
  | beginDetach => exact (hrequest hs (begins_tagged fun _ => trivial)).imp_right .inl
  | beginMigration state rng =>
    exact (hrequest hs (beginMigration_begins state rng)).imp_right .inl
  | takeCompletedMigration => exact .inl (hact hs takeCompletedMigration_keeps)
  | selectSession session =>
    exact .inl (hact hs (keeps_of_rest_preserved (preserves_selectSession session)))
  | selectWindow window =>
    exact .inl (hact hs (keeps_of_rest_preserved (preserves_selectWindow window)))
  | selectPane pane => exact .inl (hact hs (keeps_of_rest_preserved (preserves_selectPane pane)))
  | rebindRemoteBackend backend connectionId host workspaceRoot tmuxAvailable provider =>
    exact .inl (hact hs (rebindRemoteBackend_keeps ..))
  | markRemoteDisconnected =>
    cases hs
    exact .inl ⟨_, [], markRemoteDisconnected_keeps, fun _ h => absurd h List.not_mem_nil,
      by rw [List.append_nil]⟩
  | useRemoteClient backend connectionId host workspaceRoot tmuxAvailable provider =>
    cases hs
    exact .inr (.inr (.inl ⟨_, rfl, rfl, fun _ => rfl, rfl⟩))
  | finishConnect k result => exact .inr (.inr (.inr (.inl ⟨k, result, rfl⟩)))
  | finishRequest k connection result =>
    exact .inr (.inr (.inr (.inr ⟨k, connection, result, rfl⟩)))

theorem Tagged.step (h : s.Tagged) (ho : s.Orderly op) (hs : s.step op = some s') : s'.Tagged := by
  obtain ⟨t, jobs, hk, hjobs, rfl⟩ | ⟨t, job, tag, hb, htag, rfl⟩ | ⟨t, hpending, -, -, rfl⟩ |
    ⟨k, result, rfl⟩ | ⟨k, connection, result, rfl⟩ := step_cases hs
  · exact h.connecting hk hjobs
  · exact h.begun hb htag
  · have hold : ∀ job ∈ s.jobs, job.epoch ≠ s.epoch + 1 := fun job hjob he => by
      have := h.epoch job hjob
      omega
    refine ⟨fun job hjob => (h.epoch job hjob).trans (Nat.le_succ _), ?_,
      fun job hjob he => absurd he (hold job hjob)⟩
    have hnil : s.jobs.filterMap (liveTag ⟨t, s.epoch + 1, s.jobs⟩) = [] :=
      List.filterMap_eq_nil_iff.mpr fun job hjob => if_neg (hold job hjob)
    rw [hnil, hpending]
    exact .refl _
  · obtain ⟨job, t, hjob, hno, hk, -, rfl⟩ := finishConnect_cases hs
    exact h.erased hjob (by rw [liveTag, hno, ite_self]) hk
  · obtain ⟨job, tag, body, t, hjob, hwork, hcases, rfl⟩ := h.finishRequest_cases ho hs
    obtain ⟨he, rfl⟩ | ⟨he, -, hfinished⟩ := hcases
    · exact h.erased hjob (if_neg he) (.refl _)
    · obtain ⟨-, hrest⟩ := h.pending_of_live hjob he hwork
      refine ⟨fun j hj => h.epoch j (List.mem_of_mem_eraseIdx hj), ?_, fun j hj hj' => ?_⟩
      · show ((s.jobs.eraseIdx k).filterMap s.liveTag).Perm t.pending.toList
        rw [hrest, hfinished.pending]
        exact .refl _
      · have hno := List.filterMap_eq_nil_iff.mp hrest j hj
        exact SurfacesJob.owns_of_tag (by rwa [liveTag, if_pos hj'] at hno)

/-- In an orderly run, the completion of a job of a replaced client changes nothing that the
surfaces show or remember, the one of a request finds its own tag pending, a snapshot comes from a
request for its pane, and a migration is completed by the import of its plan. -/
theorem provider_isolation {s₀ : SurfacesSystem T} (hi : s₀.Initial) (h : Runs step Orderly s₀ s)
    (ho : s.Orderly op) (hs : s.step op = some s') :
    (s.Superseded op → SameProjection s.surfaces s'.surfaces) ∧
    (∀ k connection result job tag body, op = .finishRequest k connection result →
      s.jobs[k]? = some job → job.epoch = s.epoch → job.work = .request tag body →
        s.surfaces.pending = some tag) ∧
    (∀ pane screen, s'.surfaces.snapshot pane = some screen →
      s.surfaces.snapshot pane = some screen ∨
        s.Brings op (.snapshot pane) (.paneSnapshot screen)) ∧
    ∀ plan, s'.surfaces.completedMigration = some plan →
      s.surfaces.completedMigration = some plan ∨ ∃ snapshot,
        s.Brings op (.importStoppedCatalog plan.catalog) (.catalogChanged snapshot) := by
  have ht : s.Tagged := h.invariant (tagged_initial hi) fun _ _ _ ht ho hs => ht.step ho hs
  refine ⟨fun hsup => ?_, fun k connection result job tag body hop hjob he hwork =>
    (ht.pending_of_live hjob he hwork).1, ?_⟩
  · cases op with
    | finishConnect k result =>
      obtain ⟨job, t, hjob, -, -, hsame, rfl⟩ := finishConnect_cases hs
      obtain ⟨hlost, hall⟩ := ho hsup
      exact hsame (hall job hjob) hlost
    | finishRequest k connection result =>
      obtain ⟨job, tag, body, t, hjob, -, hcases, rfl⟩ := ht.finishRequest_cases ho hs
      obtain ⟨job', hjob', hne⟩ := hsup
      obtain rfl : job = job' := Option.some.inj (hjob.symm.trans hjob')
      obtain ⟨-, rfl⟩ | ⟨he, -, -⟩ := hcases
      · exact .refl _
      · exact absurd he hne
    | _ => exact hsup.elim
  · obtain ⟨t, jobs, hk, -, rfl⟩ | ⟨t, job, tag, hb, -, rfl⟩ | ⟨t, -, hnone, hempty, rfl⟩ |
      ⟨k, result, rfl⟩ | ⟨k, connection, result, rfl⟩ := step_cases hs
    · exact ⟨fun pane screen hp => .inl (hk.snapshots pane screen hp),
        fun plan hp => .inl (hk.completed plan hp)⟩
    · exact ⟨fun pane screen hp => .inl (hb.snapshots pane screen hp),
        fun plan hp => .inl (hb.completed plan hp)⟩
    · refine ⟨fun pane screen hp => ?_, fun plan hp => ?_⟩
      · rw [hempty pane] at hp
        cases hp
      · rw [hnone] at hp
        cases hp
    · obtain ⟨job, t, -, -, hk, -, rfl⟩ := finishConnect_cases hs
      exact ⟨fun pane screen hp => .inl (hk.snapshots pane screen hp),
        fun plan hp => .inl (hk.completed plan hp)⟩
    · obtain ⟨job, tag, body, t, hjob, hwork, hcases, rfl⟩ := ht.finishRequest_cases ho hs
      obtain ⟨-, rfl⟩ | ⟨he, -, hfinished⟩ := hcases
      · exact ⟨fun _ _ hp => .inl hp, fun _ hp => .inl hp⟩
      · have howns := ht.owns job (List.mem_of_getElem? hjob) he
        rw [SurfacesJob.Owns, hwork] at howns
        refine ⟨fun pane screen hp => ?_, fun plan hp => ?_⟩
        · refine (hfinished.snapshots pane screen hp).imp_right ?_
          rintro ⟨rfl, envelope, rfl, hresult⟩
          exact ⟨k, connection, envelope, job, _, rfl, hjob, he, howns ▸ hwork, hresult⟩
        · refine (hfinished.completed plan hp).imp_right ?_
          rintro ⟨rfl, hplan, envelope, snapshot, rfl, hresult⟩
          obtain ⟨plan', hplan', rfl⟩ := howns
          obtain rfl : plan' = plan := Option.some.inj (hplan'.symm.trans hplan)
          exact ⟨snapshot, k, connection, envelope, job, _, rfl, hjob, he, hwork, hresult⟩

open ClientSystem in
/-- The surfaces of a client on this machine. -/
def localSurfaces : SurfacesSystem directTransport := ⟨.withClient (.fromBackend ()), 0, []⟩

theorem initial_localSurfaces : localSurfaces.Initial := ⟨.inr ⟨(), rfl⟩, rfl, rfl⟩

open ClientSystem in
/-- An attach to a service that knows of no sessions. -/
def attaches : Except ClientError (ServiceInstanceId × ResponseEnvelope) :=
  .ok (⟨7⟩, .ok 1 (.attached (.new ⟨7⟩ .nativeLocal .nativeLocal ⟨0, .empty, none⟩)))

open ClientSystem in
def connectsRemote : SurfacesOp directTransport :=
  .useRemoteClient () "a" "host" ⟨[47]⟩ false .native

open ClientSystem in
/-- A request is running when a remote machine is connected. -/
def requestThenRemote : List (SurfacesOp directTransport) :=
  [.beginConnect, .finishConnect 0 attaches, .beginRequest .catalog, connectsRemote]

open ClientSystem in
/-- A connect is running when a remote machine is connected. -/
def connectThenRemote : List (SurfacesOp directTransport) := [.beginConnect, connectsRemote]

open ClientSystem in
/-- The request of the replaced client ends: it is dropped. -/
theorem provider_isolation_request : ∃ s s' : SurfacesSystem directTransport,
    requestThenRemote.foldlM step localSurfaces = some s ∧
      s.step (.finishRequest 0 ⟨7⟩ (.error .transportLost)) = some s' ∧
      SameProjection s.surfaces s'.surfaces := by
  have hruns : (requestThenRemote.foldlM step localSurfaces).any fun s =>
      s.Superseded (.finishRequest 0 ⟨7⟩ (.error .transportLost)) ∧
        s.Orderly (.finishRequest 0 ⟨7⟩ (.error .transportLost)) ∧
        (s.step (.finishRequest 0 ⟨7⟩ (.error .transportLost))).isSome := by
    decide
  obtain ⟨s, h, hnext⟩ := (Option.any_eq_true _ _).mp hruns
  obtain ⟨hsup, ho, hsome⟩ := of_decide_eq_true hnext
  obtain ⟨s', hs⟩ := Option.isSome_iff_exists.mp hsome
  have hto : Runs step Orderly localSurfaces s := Along.runs (by decide) h
  exact ⟨s, s', h, hs, (provider_isolation initial_localSurfaces hto ho hs).1 hsup⟩

open ClientSystem in
/-- The connect of the replaced client ends: the client of the remote machine is ready, with the
connection to the service on this one. -/
theorem late_connect_attaches : ∃ s s' : SurfacesSystem directTransport,
    connectThenRemote.foldlM step localSurfaces = some s ∧
      s.Superseded (.finishConnect 0 attaches) ∧ s.step (.finishConnect 0 attaches) = some s' ∧
      s.surfaces.health = .stopped ∧ s'.surfaces.health = .ready ∧
      s'.surfaces.client.bind (·.connection) = some ⟨7⟩ ∧
      ¬SameProjection s.surfaces s'.surfaces := by
  have hruns : (connectThenRemote.foldlM step localSurfaces).any fun s =>
      s.Superseded (.finishConnect 0 attaches) ∧ s.surfaces.health = .stopped ∧
        (s.step (.finishConnect 0 attaches)).any fun s' =>
          decide (s'.surfaces.health = .ready ∧
            s'.surfaces.client.bind (·.connection) = some ⟨7⟩) := by
    decide
  obtain ⟨s, h, hnext⟩ := (Option.any_eq_true _ _).mp hruns
  obtain ⟨hsup, hhealth, hany⟩ := of_decide_eq_true hnext
  obtain ⟨s', hs, hend⟩ := (Option.any_eq_true _ _).mp hany
  obtain ⟨hready, hconn⟩ := of_decide_eq_true hend
  refine ⟨s, s', h, hsup, hs, hhealth, hready, hconn, fun hsame => ?_⟩
  have := hsame.health
  rw [hhealth, hready] at this
  cases this

end SurfacesSystem
end Strukt.App
