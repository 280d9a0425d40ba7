import Strukt.Lib.Runs
import Strukt.Session.Client

/-!
# Runs of a client and its jobs

* **The system** (`ClientSystem`): the client and the jobs that were begun and not finished. `epoch`
  counts the losses of the transport and the rebinds; it is not data of the source.
* **Operations** (`ClientOp`): completions are handed back in any order and at any time, each once,
  with any result.
* **Superseded jobs** (`superseded_inert`): a job from before the last loss or rebind changes
  nothing when it ends in a failure that finds the client as the loss left it (`Orderly`).
-/

namespace Strukt

open Method

variable {T : ClientTransport}

inductive ClientWork where
  | connect (intent : ClientConnectIntent)
  | request
  deriving DecidableEq

/-- A job, and the losses and rebinds before it was begun. -/
structure ClientJob where
  epoch : Nat
  requestId : UInt64
  work : ClientWork
  deriving DecidableEq

structure ClientSystem (T : ClientTransport) where
  client : SessionClient T
  epoch : Nat
  jobs : List ClientJob

inductive ClientOp (T : ClientTransport) where
  | beginConnect (intent : ClientConnectIntent)
  | finishConnect (job : Nat) (result : Except ClientError (T.Connection × ResponseEnvelope))
  | beginRequest (body : RequestBody)
  | finishRequest (job : Nat) (connection : T.Connection)
      (result : Except ClientError ResponseEnvelope)
  | markTransportLost
  | rebindBackend (backend : T.Backend)
  | applySnapshot (pane : PaneId) (snapshot : PaneScreenSnapshot)
  | takeReconnectResyncPane

/-- A snapshot of another service instance, in the body of a response. -/
def ResponseBody.isForeign (serviceInstance : ServiceInstanceId) : ResponseBody → Bool
  | catalog snapshot | attached snapshot | catalogChanged snapshot =>
    snapshot.serviceInstance ≠ serviceInstance
  | _ => false

/-- `finish_request` marks the transport as lost. -/
def ClientRequestCompletion.loses (completion : ClientRequestCompletion T) : Bool :=
  match completion.result with
  | .error _ => true
  | .ok response =>
    response.requestId ≠ completion.requestId ||
      match response.result with
      | .ok body => body.isForeign (T.serviceInstance completion.connection)
      | .error _ => false

/-- `finish_connect` returns an error. -/
def ClientConnectCompletion.refused (completion : ClientConnectCompletion T) : Bool :=
  match completion.result with
  | .error _ => true
  | .ok (connection, response) =>
    !(attachedSnapshot response completion.requestId (T.serviceInstance connection)).toBool

/-- The connect that the job makes is refused with the result. -/
def ClientJob.refused (result : Except ClientError (T.Connection × ResponseEnvelope))
    (job : ClientJob) : Bool :=
  match job.work with
  | .connect intent => ClientConnectCompletion.refused (T := T) ⟨job.requestId, intent, result⟩
  | .request => false

namespace ClientSystem

variable {s s' : ClientSystem T} {op : ClientOp T}

def new (backend : T.Backend) : ClientSystem T := ⟨.fromBackend backend, 0, []⟩

def call {α : Type} (s : ClientSystem T) (x : ClientM T α)
    (next : Except ClientError α → SessionClient T → ClientSystem T) : Option (ClientSystem T) :=
  (x.exec s.client).map fun (r, c) => next r c

def step (s : ClientSystem T) : ClientOp T → Option (ClientSystem T)
  | .beginConnect intent =>
    s.call (SessionClient.beginConnect intent) fun r c =>
      match r with
      | .ok job =>
        { s with client := c, jobs := s.jobs ++ [⟨s.epoch, job.requestId, .connect intent⟩] }
      | .error _ => { s with client := c }
  | .finishConnect k result =>
    match s.jobs[k]? with
    | some ⟨_, requestId, .connect intent⟩ =>
      s.call (SessionClient.finishConnect ⟨requestId, intent, result⟩) fun _ c =>
        { s with client := c, jobs := s.jobs.eraseIdx k }
    | _ => none
  | .beginRequest body =>
    s.call (SessionClient.beginRequest body) fun r c =>
      match r with
      | .ok job =>
        { s with client := c, jobs := s.jobs ++ [⟨s.epoch, job.request.requestId, .request⟩] }
      | .error _ => { s with client := c }
  | .finishRequest k connection result =>
    match s.jobs[k]? with
    | some ⟨_, requestId, .request⟩ =>
      s.call (SessionClient.finishRequest ⟨requestId, connection, result⟩) fun _ c =>
        { client := c
          epoch := s.epoch + (ClientRequestCompletion.loses ⟨requestId, connection, result⟩).toNat
          jobs := s.jobs.eraseIdx k }
    | _ => none
  | .markTransportLost =>
    s.call SessionClient.markTransportLost fun _ c => { s with client := c, epoch := s.epoch + 1 }
  | .rebindBackend backend =>
    s.call (SessionClient.rebindBackend backend) fun r c =>
      { s with client := c, epoch := s.epoch + r.toBool.toNat }
  | .applySnapshot pane snapshot =>
    s.call (SessionClient.applySnapshot pane snapshot) fun _ c => { s with client := c }
  | .takeReconnectResyncPane =>
    s.call SessionClient.takeReconnectResyncPane fun _ c => { s with client := c }

/-- The jobs that no loss or rebind has superseded. -/
def live (s : ClientSystem T) : List ClientJob := s.jobs.filter (·.epoch = s.epoch)

/-- The operation completes a job from before the last loss or rebind. -/
def Superseded (s : ClientSystem T) : ClientOp T → Prop
  | .finishConnect k _ | .finishRequest k _ _ => ∃ job ∈ s.jobs[k]?, job.epoch ≠ s.epoch
  | _ => False

/-- The client is as a loss of its transport left it. -/
def Lost (c : SessionClient T) : Prop := c.health = c.lostHealth ∧ c.connection.isNone

/-- A superseded job ends in a failure, and the client is as a loss left it; a connection that it
may still hold is in the way of a failed request only. -/
def Orderly (s : ClientSystem T) (op : ClientOp T) : Prop :=
  s.Superseded op →
    match op with
    | .finishConnect k result =>
      s.client.health = s.client.lostHealth ∧ ∀ job ∈ s.jobs[k]?, job.refused (T := T) result
    | .finishRequest k connection result => Lost s.client ∧ ∀ job ∈ s.jobs[k]?,
      ClientRequestCompletion.loses (T := T) ⟨job.requestId, connection, result⟩
    | _ => True

instance (s : ClientSystem T) (op : ClientOp T) : Decidable (s.Superseded op) := by
  cases op <;> dsimp only [Superseded] <;> infer_instance

instance (s : ClientSystem T) (op : ClientOp T) : Decidable (s.Orderly op) := by
  cases op <;> dsimp only [Orderly, Lost] <;> infer_instance

end ClientSystem

/-! ## What each method does to the lane -/

namespace SessionClient

variable {c c' : SessionClient T}

theorem lostHealth_ne (c : SessionClient T) : c.lostHealth ≠ .connecting ∧ c.lostHealth ≠ .ready := by
  unfold lostHealth
  split <;> simp

/-- A method that begins nothing leaves the lane as it was, and the health while it is taken. -/
def LaneKept (c c' : SessionClient T) : Prop :=
  c'.inFlight = c.inFlight ∧ (c.inFlight = true → c'.health = c.health)

theorem nextRequestId_spec :
    wp nextRequestId (fun _ c' => ∃ ids, c' = { c with requestIds := ids })
      (fun _ c' => c' = { c with inFlight := false }) False c := by
  simp only [nextRequestId, wp_bind, wp_get]
  split
  · exact ⟨_, rfl⟩
  · exact rfl

theorem beginConnect_spec (intent : ClientConnectIntent) :
    wp (beginConnect intent)
      (fun _ c' => c.inFlight = false ∧ c'.inFlight = true ∧ c'.health = .connecting)
      (fun _ c' => LaneKept c c') False c := by
  simp only [beginConnect, reserve, wp_bind, wp_get, wp_ensure, wp_modify, wp_pure,
    Bool.not_eq_true]
  refine ⟨fun hfree => ?_, fun _ => ⟨rfl, fun _ => rfl⟩⟩
  refine wp_mono nextRequestId_spec (fun _ c' h => ?_) (fun _ c' h => ?_) id
  · obtain ⟨ids, rfl⟩ := h
    exact ⟨hfree, rfl, rfl⟩
  · subst h
    exact ⟨hfree.symm, fun h => by rw [hfree] at h; cases h⟩

theorem beginRequest_spec (body : RequestBody) :
    wp (beginRequest body)
      (fun _ c' => c.inFlight = false ∧ c'.inFlight = true ∧ c'.health = .ready)
      (fun _ c' => LaneKept c c') False c := by
  simp only [beginRequest, reserve, wp_bind, wp_get, wp_ensure, wp_modify, wp_ite, wp_throw,
    Bool.not_eq_true]
  refine ⟨fun hfree => ?_, fun _ => ⟨rfl, fun _ => rfl⟩⟩
  have hkept : ∀ c' : SessionClient T, c'.inFlight = false → LaneKept c c' := fun c' h =>
    ⟨h.trans hfree.symm, fun h => by rw [hfree] at h; cases h⟩
  refine ⟨fun _ => hkept _ rfl, fun hready => ?_⟩
  refine wp_mono nextRequestId_spec (fun _ c' h => ?_) (fun _ c' h => ?_) id
  · obtain ⟨ids, rfl⟩ := h
    split
    · simp only [wp_bind, wp_modify, wp_throw]
      exact hkept _ rfl
    · simp only [wp_bind, wp_modify, wp_get, wp_pure]
      exact ⟨hfree, trivial, not_not.mp hready⟩
  · subst h
    exact hkept _ rfl

theorem finishConnect_spec (completion : ClientConnectCompletion T) :
    wp (finishConnect completion)
      (fun _ c' => c'.inFlight = false ∧ completion.refused = false)
      (fun _ c' => c' = { c with inFlight := false, health := c.lostHealth }) False c := by
  unfold ClientConnectCompletion.refused
  simp only [finishConnect, wp_bind, wp_modify]
  cases completion.result with
  | error e =>
    simp only [wp_bind, wp_modify, wp_throw]
    rfl
  | ok value =>
    cases ha : attachedSnapshot value.2 completion.requestId (T.serviceInstance value.1) with
    | error e =>
      simp only [ha, wp_bind, wp_modify, wp_throw]
      rfl
    | ok snapshot =>
      simp only [ha, wp_modify]
      exact ⟨rfl, rfl⟩

theorem finishRequest_spec (completion : ClientRequestCompletion T) :
    wp (finishRequest completion)
      (fun _ c' => c'.inFlight = false ∧ completion.loses = false)
      (fun _ c' => c'.inFlight = false ∧ (completion.loses = true → c' = c.lost)) False c := by
  unfold ClientRequestCompletion.loses
  simp only [finishRequest, wp_bind, wp_modify]
  cases completion.result with
  | error e =>
    simp only [markTransportLost, wp_bind, wp_modify, wp_throw]
    exact ⟨rfl, fun _ => rfl⟩
  | ok response =>
    simp only [wp_ite, markTransportLost, wp_bind, wp_modify, wp_throw]
    refine ⟨fun hid => ⟨rfl, fun _ => rfl⟩, fun hid => ?_⟩
    rw [not_not] at hid
    cases response.result with
    | error e =>
      simp only [wp_bind, wp_modify, wp_throw]
      exact ⟨trivial, by simp [hid]⟩
    | ok body =>
      cases body <;> simp only [wp_ite, wp_bind, wp_modify, wp_throw, wp_pure] <;>
        simp [hid, ResponseBody.isForeign, lost, lostHealth]

theorem rebindBackend_spec (backend : T.Backend) :
    wp (rebindBackend backend) (fun _ c' => c'.inFlight = false) (fun _ c' => c' = c) False c := by
  simp only [rebindBackend, wp_bind, wp_get, wp_ensure, wp_modify, Bool.not_eq_true]
  exact ⟨fun hfree => hfree, fun _ => trivial⟩

end SessionClient

/-! ## Runs -/

namespace ClientSystem

open SessionClient

variable {s s' : ClientSystem T} {op : ClientOp T}

/-- One live job at most, and only while the lane is taken by a connect or a request. -/
structure Laned (s : ClientSystem T) : Prop where
  live : s.live.length ≤ s.client.inFlight.toNat
  health : s.client.inFlight = true → s.client.health = .connecting ∨ s.client.health = .ready
  epoch : ∀ job ∈ s.jobs, job.epoch ≤ s.epoch

theorem laned_new (backend : T.Backend) : (new backend).Laned :=
  ⟨le_rfl, (absurd · Bool.false_ne_true), fun _ h => absurd h List.not_mem_nil⟩

theorem of_call {α : Type} {x : ClientM T α}
    {next : Except ClientError α → SessionClient T → ClientSystem T}
    {Q : α → SessionClient T → Prop} {E : ClientError → SessionClient T → Prop} {F : Prop}
    (h : s.call x next = some s') (hx : wp x Q E F s.client) :
    (∃ a c, Q a c ∧ s' = next (.ok a) c) ∨ ∃ e c, E e c ∧ s' = next (.error e) c := by
  obtain ⟨⟨r, c⟩, he, rfl⟩ := Option.map_eq_some_iff.mp h
  cases r with
  | ok a => exact .inl ⟨a, c, hx.of_ok he, rfl⟩
  | error e => exact .inr ⟨e, c, hx.of_error he, rfl⟩

/-- A loss or a rebind supersedes every job. -/
theorem live_next {c : SessionClient T} {jobs : List ClientJob} {epoch : Nat}
    (h : ∀ job ∈ jobs, job.epoch < epoch) : (⟨c, epoch, jobs⟩ : ClientSystem T).live = [] := by
  refine List.filter_eq_nil_iff.mpr fun job hjob => ?_
  have := h job hjob
  simp
  omega

theorem length_filter_eraseIdx {α : Type} {p : α → Bool} {l : List α} {k : Nat} {a : α}
    (h : l[k]? = some a) :
    ((l.eraseIdx k).filter p).length + (p a).toNat = (l.filter p).length := by
  obtain ⟨hlt, rfl⟩ := List.getElem?_eq_some_iff.mp h
  have hperm := ((List.getElem_cons_eraseIdx_perm hlt).filter p).length_eq
  rw [← hperm, List.filter_cons]
  split <;> simp_all

/-- A job that is finished leaves no live one. -/
theorem Laned.finished (h : s.Laned) {k : Nat} {job : ClientJob} (hjob : s.jobs[k]? = some job)
    (hs : job.epoch ≠ s.epoch → s.client.inFlight = false) :
    ((s.jobs.eraseIdx k).filter (·.epoch = s.epoch)).length = 0 := by
  have hlen := length_filter_eraseIdx (p := fun job => job.epoch = s.epoch) hjob
  have hlive := h.live
  unfold ClientSystem.live at hlive
  by_cases he : job.epoch = s.epoch
  · have := Bool.toNat_le s.client.inFlight
    simp only [he, decide_true, Bool.toNat_true] at hlen
    omega
  · rw [hs he] at hlive
    simp only [Bool.toNat_false] at hlive
    omega

/-- The lane is free while the client is as a loss left it. -/
theorem Laned.free (h : s.Laned) (hlost : s.client.health = s.client.lostHealth) :
    s.client.inFlight = false := by
  rw [← Bool.not_eq_true]
  intro hin
  rcases h.health hin with hh | hh
  · exact s.client.lostHealth_ne.1 (hlost ▸ hh)
  · exact s.client.lostHealth_ne.2 (hlost ▸ hh)

theorem finishConnect_eq {k : Nat} {result : Except ClientError (T.Connection × ResponseEnvelope)}
    (hs : s.step (.finishConnect k result) = some s') :
    ∃ job intent, s.jobs[k]? = some job ∧ ∃ c : SessionClient T, c.inFlight = false ∧
      (ClientConnectCompletion.refused (T := T) ⟨job.requestId, intent, result⟩ = true →
        c = { s.client with inFlight := false, health := s.client.lostHealth }) ∧
      job.work = .connect intent ∧
      s' = { s with client := c, jobs := s.jobs.eraseIdx k } := by
  simp only [step] at hs
  split at hs
  · rename_i epoch requestId intent hjob
    obtain ⟨_, c, ⟨hin, hno⟩, rfl⟩ | ⟨_, c, rfl, rfl⟩ := of_call hs (finishConnect_spec _)
    · exact ⟨_, intent, hjob, c, hin, (absurd · (by simp [hno])), rfl, rfl⟩
    · exact ⟨_, intent, hjob, _, rfl, fun _ => rfl, rfl, rfl⟩
  · cases hs

theorem finishRequest_eq {k : Nat} {connection : T.Connection}
    {result : Except ClientError ResponseEnvelope}
    (hs : s.step (.finishRequest k connection result) = some s') :
    ∃ job, s.jobs[k]? = some job ∧ ∃ c : SessionClient T, c.inFlight = false ∧
      (ClientRequestCompletion.loses (T := T) ⟨job.requestId, connection, result⟩ = true →
        c = s.client.lost) ∧
      s' = { client := c
             epoch := s.epoch + (ClientRequestCompletion.loses (T := T)
               ⟨job.requestId, connection, result⟩).toNat
             jobs := s.jobs.eraseIdx k } := by
  simp only [step] at hs
  split at hs
  · rename_i epoch requestId hjob
    obtain ⟨_, c, ⟨hin, hno⟩, rfl⟩ | ⟨_, c, ⟨hin, hl⟩, rfl⟩ := of_call hs (finishRequest_spec _)
    · exact ⟨_, hjob, c, hin, (absurd · (by simp [hno])), rfl⟩
    · exact ⟨_, hjob, c, hin, hl, rfl⟩
  · cases hs

theorem Laned.kept (h : s.Laned) {c : SessionClient T} (hk : s.client.LaneKept c) :
    ({ s with client := c } : ClientSystem T).Laned := by
  obtain ⟨hin, hh⟩ := hk
  refine ⟨by rw [hin]; exact h.live, fun hc => ?_, h.epoch⟩
  have hc : c.inFlight = true := hc
  rw [hin] at hc
  rw [hh hc]
  exact h.health hc

theorem Laned.begun (h : s.Laned) {c : SessionClient T} {job : ClientJob}
    (hfree : s.client.inFlight = false) (hin : c.inFlight = true)
    (hh : c.health = .connecting ∨ c.health = .ready) (hjob : job.epoch = s.epoch) :
    ({ s with client := c, jobs := s.jobs ++ [job] } : ClientSystem T).Laned := by
  have hlive := h.live
  rw [hfree] at hlive
  refine ⟨?_, fun _ => hh, fun j hj => ?_⟩
  · unfold ClientSystem.live at hlive ⊢
    dsimp only
    rw [List.filter_append, List.length_append, hin]
    simp only [Bool.toNat_false, nonpos_iff_eq_zero, Bool.toNat_true] at hlive ⊢
    rw [hlive]
    exact (Nat.zero_add _).trans_le (List.length_filter_le _ _)
  · rcases List.mem_append.mp hj with hj | hj
    · exact h.epoch j hj
    · rw [List.mem_singleton.mp hj, hjob]

theorem Laned.step (h : s.Laned) (ho : s.Orderly op) (hs : s.step op = some s') : s'.Laned := by
  cases op with
  | beginConnect intent =>
    rw [ClientSystem.step] at hs
    obtain ⟨job, c, ⟨hfree, hin, hh⟩, rfl⟩ | ⟨_, c, hk, rfl⟩ := of_call hs (beginConnect_spec intent)
    · exact h.begun hfree hin (.inl hh) rfl
    · exact h.kept hk
  | beginRequest body =>
    rw [ClientSystem.step] at hs
    obtain ⟨job, c, ⟨hfree, hin, hh⟩, rfl⟩ | ⟨_, c, hk, rfl⟩ := of_call hs (beginRequest_spec body)
    · exact h.begun hfree hin (.inr hh) rfl
    · exact h.kept hk
  | finishConnect k result =>
    obtain ⟨job, intent, hjob, c, hin, -, -, rfl⟩ := finishConnect_eq hs
    have hfree : job.epoch ≠ s.epoch → s.client.inFlight = false := fun hne =>
      h.free (ho ⟨job, hjob, hne⟩).1
    refine ⟨?_, (absurd · (by simp [hin])), fun j hj => h.epoch j (List.mem_of_mem_eraseIdx hj)⟩
    exact (h.finished hjob hfree).trans_le (Nat.zero_le _)
  | finishRequest k connection result =>
    obtain ⟨job, hjob, c, hin, -, rfl⟩ := finishRequest_eq hs
    have hfree : job.epoch ≠ s.epoch → s.client.inFlight = false := fun hne =>
      h.free (ho ⟨job, hjob, hne⟩).1.1
    refine ⟨?_, (absurd · (by simp [hin])), fun j hj => ?_⟩
    · cases hl : ClientRequestCompletion.loses ⟨job.requestId, connection, result⟩ with
      | true =>
        rw [live_next]
        · exact Nat.zero_le _
        · intro j hj
          have := h.epoch j (List.mem_of_mem_eraseIdx hj)
          rw [Bool.toNat_true]
          omega
      | false => exact (h.finished hjob hfree).trans_le (Nat.zero_le _)
    · exact (h.epoch j (List.mem_of_mem_eraseIdx hj)).trans (Nat.le_add_right _ _)
  | markTransportLost =>
    cases hs
    refine ⟨?_, (absurd · Bool.false_ne_true), fun j hj => (h.epoch j hj).trans (Nat.le_succ _)⟩
    rw [live_next fun j hj => Nat.lt_succ_of_le (h.epoch j hj)]
    exact Nat.zero_le _
  | rebindBackend backend =>
    rw [ClientSystem.step] at hs
    obtain ⟨_, c, hin, rfl⟩ | ⟨_, c, rfl, rfl⟩ := of_call hs (rebindBackend_spec backend)
    · refine ⟨?_, (absurd · (by simp [hin])), fun j hj => (h.epoch j hj).trans (Nat.le_add_right _ _)⟩
      show List.length (ClientSystem.live ⟨c, s.epoch + 1, s.jobs⟩) ≤ _
      rw [live_next fun j hj => Nat.lt_succ_of_le (h.epoch j hj)]
      exact Nat.zero_le _
    · exact h
  | applySnapshot pane snapshot =>
    rw [ClientSystem.step] at hs
    have hx : wp (applySnapshot pane snapshot) (fun _ c' => s.client.LaneKept c')
        (fun _ _ => False) False s.client := by
      simp only [applySnapshot, wp_bind, wp_get, wp_ite, wp_modify, wp_pure]
      exact ⟨fun _ => ⟨rfl, fun _ => rfl⟩, fun _ => ⟨rfl, fun _ => rfl⟩⟩
    obtain ⟨_, c, hk, rfl⟩ | ⟨_, c, hk, rfl⟩ := of_call hs hx
    · exact h.kept hk
    · exact hk.elim
  | takeReconnectResyncPane =>
    cases hs
    exact h.kept ⟨rfl, fun _ => rfl⟩

/-- A superseded job that ends in order leaves what a client shows of its service. -/
theorem Orderly.unchanged (ho : s.Orderly op) (hsup : s.Superseded op)
    (hs : s.step op = some s') :
    s'.client.connection = s.client.connection ∧ s'.client.catalog = s.client.catalog ∧
      s'.client.snapshots = s.client.snapshots ∧ s'.client.health = s.client.health := by
  have hord := ho hsup
  cases op with
  | finishConnect k result =>
    obtain ⟨job, intent, hjob, c, -, hrefused, hwork, rfl⟩ := finishConnect_eq hs
    obtain ⟨hhealth, hall⟩ := hord
    have hr := hall job hjob
    rw [ClientJob.refused, hwork] at hr
    rw [hrefused hr]
    exact ⟨rfl, rfl, rfl, hhealth.symm⟩
  | finishRequest k connection result =>
    obtain ⟨job, hjob, c, -, hloses, rfl⟩ := finishRequest_eq hs
    obtain ⟨⟨hhealth, hnone⟩, hall⟩ := hord
    rw [hloses (hall job hjob)]
    exact ⟨(Option.isNone_iff_eq_none.mp hnone).symm, rfl, rfl, hhealth.symm⟩
  | _ => exact hsup.elim

/-- In an orderly run there is one live job at most, and the completion of a job from before the
last loss or rebind changes nothing that the client shows. -/
theorem superseded_inert {backend : T.Backend} (h : Runs step Orderly (new backend) s) :
    s.live.length ≤ 1 ∧ ∀ op s', s.Superseded op → s.Orderly op → s.step op = some s' →
      s'.client.connection = s.client.connection ∧ s'.client.catalog = s.client.catalog ∧
        s'.client.snapshots = s.client.snapshots ∧ s'.client.health = s.client.health := by
  have hl : s.Laned := h.invariant (laned_new backend) fun _ _ _ hl ho hs => hl.step ho hs
  exact ⟨hl.live.trans (Bool.toNat_le _), fun op s' hsup ho hs => ho.unchanged hsup hs⟩

/-- A transport whose connections are the services that they lead to. -/
abbrev directTransport : ClientTransport := ⟨Unit, ServiceInstanceId, id⟩

/-- A first connect is still running when its transport is lost. -/
def lostConnect : List (ClientOp directTransport) :=
  [.beginConnect .explicitAttach, .markTransportLost]

/-- The first connect ends with an attach to a service that knows of no sessions. -/
def lateAttach : ClientOp directTransport :=
  .finishConnect 0 (.ok (⟨7⟩, .ok 1 (.attached
    (.new ⟨7⟩ .nativeLocal .nativeLocal ⟨0, .empty, none⟩))))

/-- The first connect ends in an error, after the loss: the client stays as it is. -/
theorem superseded_inert_refused : ∃ s s' : ClientSystem directTransport,
    lostConnect.foldlM step (new ()) = some s ∧
      s.step (.finishConnect 0 (.error .unavailable)) = some s' ∧
      s.Superseded (.finishConnect 0 (.error .unavailable)) ∧
      s'.client.health = s.client.health := by
  have hruns : (lostConnect.foldlM step (new ())).any fun s =>
      s.Superseded (.finishConnect 0 (.error .unavailable)) ∧
        s.Orderly (.finishConnect 0 (.error .unavailable)) ∧
        (s.step (.finishConnect 0 (.error .unavailable))).isSome := by
    decide
  obtain ⟨s, h, hnext⟩ := (Option.any_eq_true _ _).mp hruns
  obtain ⟨hsup, ho, hsome⟩ := of_decide_eq_true hnext
  obtain ⟨s', hs⟩ := Option.isSome_iff_exists.mp hsome
  have hto : Runs step Orderly (new ()) s := Along.runs (by decide) h
  obtain ⟨-, hinert⟩ := superseded_inert hto
  obtain ⟨-, -, -, hhealth⟩ := hinert _ s' hsup ho hs
  exact ⟨s, s', h, hs, hsup, hhealth⟩

/-- The first connect ends with an attach, after the loss: it connects the client again, and makes
it ready. -/
theorem late_attach_connects : ∃ s s' : ClientSystem directTransport,
    lostConnect.foldlM step (new ()) = some s ∧ s.step lateAttach = some s' ∧
      s.Superseded lateAttach ∧ s.client.health = .failed ∧ s.client.connection = none ∧
      s'.client.health = .ready ∧ s'.client.connection = some ⟨7⟩ := by
  have hruns : (lostConnect.foldlM step (new ())).any fun s =>
      s.Superseded lateAttach ∧ s.client.health = .failed ∧ s.client.connection.isNone ∧
        (s.step lateAttach).any fun s' =>
          decide (s'.client.health = .ready ∧ s'.client.connection = some ⟨7⟩) := by
    decide
  obtain ⟨s, h, hnext⟩ := (Option.any_eq_true _ _).mp hruns
  obtain ⟨hsup, hhealth, hnone, hany⟩ := of_decide_eq_true hnext
  obtain ⟨s', hs, hend⟩ := (Option.any_eq_true _ _).mp hany
  obtain ⟨hhealth', hconn⟩ := of_decide_eq_true hend
  exact ⟨s, s', h, hs, hsup, hhealth, Option.isNone_iff_eq_none.mp hnone, hhealth', hconn⟩

end ClientSystem
end Strukt
