import Strukt.Lib.Method
import Strukt.Lib.Runs
import Strukt.Prim

/-!
# The phases of a remote connection

A `ConnectionMachine` follows one SSH connection through its phases: the generation counts the
transports, the capabilities are what the helper of the current transport negotiated, and the
reconnect attempts are bounded by the retry policy.

* **Observed runs**: a `Connection` is a machine with the generations of the transports that came
  up, whether one came up at the current generation (`served`), and the attempts scheduled since
  the last reset.
* **Fresh transports** (`generation_law`): a transport that comes up has a new generation and none
  of the earlier capabilities exactly when `Grows` holds. `retryConnected` counts the generation up
  and drops the capabilities; `terminalAvailable` is accepted in the reconnecting phase too, and
  does neither (`reconnected_terminal`).
* **Retries** (`retry_law`): the delays granted between two resets are the policy's, in order.
-/

namespace Strukt.Remote

open Method

def maxDetailBytes : Nat := 1024

structure ConnectionCapabilities where
  files : Bool
  search : Bool
  git : Bool
  processes : Bool
  language : Bool
  watches : Bool
  deriving DecidableEq

/-- `ConnectionCapabilities::default`. -/
def ConnectionCapabilities.none : ConnectionCapabilities :=
  ⟨false, false, false, false, false, false⟩

def ConnectionCapabilities.all : ConnectionCapabilities := ⟨true, true, true, true, true, true⟩

inductive ConnectionPhase where
  | disconnected
  | connecting
  | terminalOnly
  | negotiatingHelper
  | ready
  | stale
  | reconnecting
  | failed
  | disconnecting
  deriving DecidableEq

inductive RecoveryAction where
  | installHelper
  | retryNow
  | disconnect
  | openTerminal
  deriving DecidableEq

structure ConnectionProjection where
  phase : ConnectionPhase
  generation : UInt64
  capabilities : ConnectionCapabilities
  detail : Option String
  recovery : List RecoveryAction
  deriving DecidableEq

inductive StateError where
  | invalidTransition
  | invalidRetryPolicy
  | retryLimitReached
  deriving DecidableEq

/-! ## The retry policy -/

/-- A capped exponential retry policy. -/
structure RetryPolicy where
  base : Duration
  maximum : Duration
  maxAttempts : UInt32
  base_pos : 0 < base.nanos
  base_le : base.nanos ≤ maximum.nanos
  maxAttempts_pos : 0 < maxAttempts
  deriving DecidableEq

namespace RetryPolicy

def new (base maximum : Duration) (maxAttempts : UInt32) : Except StateError RetryPolicy :=
  if h : 0 < base.nanos ∧ base.nanos ≤ maximum.nanos ∧ 0 < maxAttempts then
    .ok ⟨base, maximum, maxAttempts, h.1, h.2.1, h.2.2⟩
  else .error .invalidRetryPolicy

theorem base_bounded : 250000000 ≤ durationMax := by decide

/-- `RetryPolicy::default`: 250 ms, 8 s, six attempts. -/
def standard : RetryPolicy :=
  ⟨⟨250000000, base_bounded⟩, ⟨8000000000, by decide⟩, 6, by decide, by decide, by decide⟩

def delay (policy : RetryPolicy) (attempt : UInt32) : Duration :=
  min (policy.base.saturatingMul (2 ^ min attempt.toNat 31)) policy.maximum

theorem delay_le (policy : RetryPolicy) (attempt : UInt32) :
    policy.delay attempt ≤ policy.maximum := min_le_right ..

/-- A later attempt waits no less. -/
theorem delay_mono (policy : RetryPolicy) {a b : UInt32} (h : a ≤ b) :
    policy.delay a ≤ policy.delay b := by
  have hpow : policy.base.nanos * 2 ^ min a.toNat 31 ≤ policy.base.nanos * 2 ^ min b.toNat 31 :=
    Nat.mul_le_mul_left _
      (Nat.pow_le_pow_right (by omega) (min_le_min_right 31 (UInt32.le_iff_toNat_le.mp h)))
  have hmul : policy.base.saturatingMul (2 ^ min a.toNat 31) ≤
      policy.base.saturatingMul (2 ^ min b.toNat 31) := min_le_min_right durationMax hpow
  exact min_le_min_right _ hmul

end RetryPolicy

/-! ## The machine -/

structure ConnectionMachine where
  phase : ConnectionPhase
  generation : UInt64
  capabilities : ConnectionCapabilities
  detail : Option String
  retryPolicy : RetryPolicy
  retryAttempts : UInt32
  deriving DecidableEq

abbrev MachineM (α : Type) := Method ConnectionMachine StateError α

def recoveryActions : ConnectionPhase → List RecoveryAction
  | .terminalOnly => [.installHelper]
  | .stale => [.retryNow, .disconnect]
  | .failed => [.retryNow, .openTerminal, .disconnect]
  | _ => []

def boundedDetail (detail : String) : String :=
  let sanitized := detail.map fun c => if c = Char.ofNat 0 then Char.ofNat 0xfffd else c
  Strukt.bounded sanitized maxDetailBytes

namespace ConnectionMachine

def new (retryPolicy : RetryPolicy) : ConnectionMachine :=
  ⟨.disconnected, 0, .none, none, retryPolicy, 0⟩

def acceptsGeneration (m : ConnectionMachine) (generation : UInt64) : Bool :=
  m.generation = generation

def projection (m : ConnectionMachine) : ConnectionProjection :=
  ⟨m.phase, m.generation, m.capabilities, m.detail, recoveryActions m.phase⟩

def require (expected : List ConnectionPhase) : MachineM Unit := do
  ensure ((← get).phase ∈ expected) .invalidTransition

def setPhase (phase : ConnectionPhase) (detail : Option String) : MachineM Unit :=
  modify fun m => { m with phase, detail := detail.map boundedDetail }

def connect : MachineM Unit := do
  require [.disconnected, .failed]
  modify fun m =>
    { m with generation := m.generation.satSucc, retryAttempts := 0, capabilities := .none }
  setPhase .connecting none

def terminalAvailable : MachineM Unit := do
  require [.connecting, .reconnecting]
  setPhase .terminalOnly none

def negotiateHelper : MachineM Unit := do
  require [.terminalOnly]
  setPhase .negotiatingHelper none

def helperReady (capabilities : ConnectionCapabilities) : MachineM Unit := do
  require [.terminalOnly, .negotiatingHelper]
  modify fun m => { m with capabilities, retryAttempts := 0 }
  setPhase .ready none

def transportLost (detail : String) : MachineM Unit := do
  require [.connecting, .terminalOnly, .negotiatingHelper, .ready, .reconnecting]
  setPhase .stale (some detail)

def beginRetry : MachineM Duration := do
  require [.stale]
  let m ← get
  if m.retryPolicy.maxAttempts ≤ m.retryAttempts then
    setPhase .failed m.detail
    throw .retryLimitReached
  modify fun m => { m with retryAttempts := m.retryAttempts + 1 }
  setPhase .reconnecting m.detail
  pure (m.retryPolicy.delay m.retryAttempts)

def retryFailed (detail : String) : MachineM Unit := do
  require [.reconnecting]
  setPhase .stale (some detail)

def retryConnected : MachineM Unit := do
  require [.reconnecting]
  modify fun m =>
    { m with generation := m.generation.satSucc, retryAttempts := 0, capabilities := .none }
  setPhase .terminalOnly none

def fail (detail : String) : MachineM Unit := do
  let m ← get
  ensure (m.phase ≠ .disconnected ∧ m.phase ≠ .disconnecting) .invalidTransition
  setPhase .failed (some detail)

def disconnect : MachineM Unit := do
  let m ← get
  ensure (m.phase ≠ .disconnected ∧ m.phase ≠ .disconnecting) .invalidTransition
  modify fun m => { m with retryAttempts := 0 }
  setPhase .disconnecting none

def disconnected : MachineM Unit := do
  require [.disconnecting]
  modify fun m => { m with capabilities := .none }
  setPhase .disconnected none

end ConnectionMachine

inductive ConnectionEvent where
  | connect
  | terminalAvailable
  | negotiateHelper
  | helperReady (capabilities : ConnectionCapabilities)
  | transportLost (detail : String)
  | beginRetry
  | retryFailed (detail : String)
  | retryConnected
  | fail (detail : String)
  | disconnect
  | disconnected
  deriving DecidableEq

def ConnectionEvent.run : ConnectionEvent → MachineM Unit
  | .connect => ConnectionMachine.connect
  | .terminalAvailable => ConnectionMachine.terminalAvailable
  | .negotiateHelper => ConnectionMachine.negotiateHelper
  | .helperReady capabilities => ConnectionMachine.helperReady capabilities
  | .transportLost detail => ConnectionMachine.transportLost detail
  | .beginRetry => discard ConnectionMachine.beginRetry
  | .retryFailed detail => ConnectionMachine.retryFailed detail
  | .retryConnected => ConnectionMachine.retryConnected
  | .fail detail => ConnectionMachine.fail detail
  | .disconnect => ConnectionMachine.disconnect
  | .disconnected => ConnectionMachine.disconnected

/-- What an accepted event does to the machine. -/
def ConnectionEvent.Effect (m m' : ConnectionMachine) : ConnectionEvent → Prop
  | .connect =>
    (m.phase = .disconnected ∨ m.phase = .failed) ∧
      m' =
        { m with
          phase := .connecting
          generation := m.generation.satSucc
          capabilities := .none
          detail := none
          retryAttempts := 0 }
  | .terminalAvailable =>
    (m.phase = .connecting ∨ m.phase = .reconnecting) ∧
      m' = { m with phase := .terminalOnly, detail := none }
  | .negotiateHelper =>
    m.phase = .terminalOnly ∧ m' = { m with phase := .negotiatingHelper, detail := none }
  | .helperReady capabilities =>
    (m.phase = .terminalOnly ∨ m.phase = .negotiatingHelper) ∧
      m' = { m with phase := .ready, capabilities, detail := none, retryAttempts := 0 }
  | .transportLost detail =>
    m.phase ∈ [.connecting, .terminalOnly, .negotiatingHelper, .ready, .reconnecting] ∧
      m' = { m with phase := .stale, detail := some (boundedDetail detail) }
  | .beginRetry =>
    m.phase = .stale ∧ m.retryAttempts < m.retryPolicy.maxAttempts ∧
      m' =
        { m with
          phase := .reconnecting
          detail := m.detail.map boundedDetail
          retryAttempts := m.retryAttempts + 1 }
  | .retryFailed detail =>
    m.phase = .reconnecting ∧
      m' = { m with phase := .stale, detail := some (boundedDetail detail) }
  | .retryConnected =>
    m.phase = .reconnecting ∧
      m' =
        { m with
          phase := .terminalOnly
          generation := m.generation.satSucc
          capabilities := .none
          detail := none
          retryAttempts := 0 }
  | .fail detail =>
    (m.phase ≠ .disconnected ∧ m.phase ≠ .disconnecting) ∧
      m' = { m with phase := .failed, detail := some (boundedDetail detail) }
  | .disconnect =>
    (m.phase ≠ .disconnected ∧ m.phase ≠ .disconnecting) ∧
      m' = { m with phase := .disconnecting, detail := none, retryAttempts := 0 }
  | .disconnected =>
    m.phase = .disconnecting ∧
      m' = { m with phase := .disconnected, capabilities := .none, detail := none }

/-- A refused event changes nothing, except that a retry over the limit fails the connection. -/
def ConnectionEvent.Refused (m m' : ConnectionMachine) (e : ConnectionEvent) : Prop :=
  m' = m ∨ e = .beginRetry ∧ m' = { m with phase := .failed, detail := m.detail.map boundedDetail }

section

open ConnectionMachine

variable {m : ConnectionMachine} {Q : Unit → ConnectionMachine → Prop}
  {E : StateError → ConnectionMachine → Prop} {P : Prop}

theorem wp_require {expected : List ConnectionPhase} :
    wp (require expected) Q E P m ↔
      (m.phase ∈ expected → Q () m) ∧ (m.phase ∉ expected → E .invalidTransition m) := by
  simp only [require, wp_bind, wp_get, wp_ensure]

theorem wp_setPhase {phase : ConnectionPhase} {detail : Option String} :
    wp (setPhase phase detail) Q E P m ↔
      Q () { m with phase, detail := detail.map boundedDetail } := by
  simp only [setPhase, wp_modify]

theorem run_spec (e : ConnectionEvent) (m : ConnectionMachine) :
    wp e.run (fun _ m' => e.Effect m m') (fun _ m' => e.Refused m m') False m := by
  have hsame : e.Refused m m := .inl rfl
  cases e with
  | connect =>
    simp only [ConnectionEvent.run, connect, wp_bind, wp_require, wp_modify, wp_setPhase]
    exact ⟨fun hm => ⟨by simpa using hm, rfl⟩, fun _ => hsame⟩
  | terminalAvailable =>
    simp only [ConnectionEvent.run, terminalAvailable, wp_bind, wp_require, wp_setPhase]
    exact ⟨fun hm => ⟨by simpa using hm, rfl⟩, fun _ => hsame⟩
  | negotiateHelper =>
    simp only [ConnectionEvent.run, negotiateHelper, wp_bind, wp_require, wp_setPhase]
    exact ⟨fun hm => ⟨by simpa using hm, rfl⟩, fun _ => hsame⟩
  | helperReady capabilities =>
    simp only [ConnectionEvent.run, helperReady, wp_bind, wp_require, wp_modify, wp_setPhase]
    exact ⟨fun hm => ⟨by simpa using hm, rfl⟩, fun _ => hsame⟩
  | transportLost detail =>
    simp only [ConnectionEvent.run, transportLost, wp_bind, wp_require, wp_setPhase]
    exact ⟨fun hm => ⟨hm, rfl⟩, fun _ => hsame⟩
  | beginRetry =>
    simp only [ConnectionEvent.run, beginRetry, wp_discard, wp_bind, wp_require, wp_get, wp_ite,
      wp_modify, wp_setPhase, wp_pure, wp_throw]
    refine ⟨fun hm => ⟨fun _ => .inr ⟨rfl, rfl⟩, fun hlt => ?_⟩, fun _ => hsame⟩
    exact ⟨by simpa using hm, UInt32.not_le.mp hlt, rfl⟩
  | retryFailed detail =>
    simp only [ConnectionEvent.run, retryFailed, wp_bind, wp_require, wp_setPhase]
    exact ⟨fun hm => ⟨by simpa using hm, rfl⟩, fun _ => hsame⟩
  | retryConnected =>
    simp only [ConnectionEvent.run, retryConnected, wp_bind, wp_require, wp_modify, wp_setPhase]
    exact ⟨fun hm => ⟨by simpa using hm, rfl⟩, fun _ => hsame⟩
  | fail detail =>
    simp only [ConnectionEvent.run, fail, wp_bind, wp_get, wp_ensure, wp_setPhase]
    exact ⟨fun hm => ⟨hm, rfl⟩, fun _ => hsame⟩
  | disconnect =>
    simp only [ConnectionEvent.run, disconnect, wp_bind, wp_get, wp_ensure, wp_modify, wp_setPhase]
    exact ⟨fun hm => ⟨hm, rfl⟩, fun _ => hsame⟩
  | disconnected =>
    simp only [ConnectionEvent.run, disconnected, wp_bind, wp_require, wp_modify, wp_setPhase]
    exact ⟨fun hm => ⟨by simpa using hm, rfl⟩, fun _ => hsame⟩

end

/-- An event that carries a generation is taken where the machine accepts that generation. -/
def ConnectionEvent.deliver (generation : UInt64) (e : ConnectionEvent) : MachineM Unit := do
  if (← get).acceptsGeneration generation then e.run

/-! ## Runs -/

/-- A machine with the generations of the transports that came up, the last one first, whether one
came up at the current generation, and the reconnect attempts scheduled since the last reset. -/
structure Connection where
  machine : ConnectionMachine
  transports : List UInt64
  served : Bool
  scheduled : Nat
  deriving DecidableEq

namespace Connection

open ConnectionMachine

def start (policy : RetryPolicy) : Connection := ⟨ConnectionMachine.new policy, [], false, 0⟩

/-- What is observed of an accepted event. -/
def after (w : Connection) (m : ConnectionMachine) : ConnectionEvent → Connection
  | .connect => { w with machine := m, served := false, scheduled := 0 }
  | .terminalAvailable =>
    { w with machine := m, transports := m.generation :: w.transports, served := true }
  | .retryConnected => ⟨m, m.generation :: w.transports, true, 0⟩
  | .beginRetry => { w with machine := m, scheduled := w.scheduled + 1 }
  | .helperReady _ | .disconnect => { w with machine := m, scheduled := 0 }
  | .negotiateHelper | .transportLost _ | .retryFailed _ | .fail _ | .disconnected =>
    { w with machine := m }

def step (w : Connection) (e : ConnectionEvent) : Option Connection :=
  observe e.run w.machine (fun _ m => w.after m e) fun _ m => { w with machine := m }

/-- The generation moves on from a transport that came up at it: the terminal is not reported from
the reconnecting phase then, and the counter is not exhausted. -/
def Grows (w : Connection) : ConnectionEvent → Prop
  | .terminalAvailable => w.machine.phase = .reconnecting → w.served = false
  | .connect =>
    w.machine.phase = .disconnected ∨ w.machine.phase = .failed → w.served = true →
      w.machine.generation ≠ -1
  | .retryConnected =>
    w.machine.phase = .reconnecting → w.served = true → w.machine.generation ≠ -1
  | _ => True

instance Grows.decidable (w : Connection) : ∀ e, Decidable (w.Grows e)
  | .terminalAvailable =>
    inferInstanceAs (Decidable (w.machine.phase = .reconnecting → w.served = false))
  | .connect =>
    inferInstanceAs (Decidable (w.machine.phase = .disconnected ∨ w.machine.phase = .failed →
      w.served = true → w.machine.generation ≠ -1))
  | .retryConnected =>
    inferInstanceAs (Decidable
      (w.machine.phase = .reconnecting → w.served = true → w.machine.generation ≠ -1))
  | .negotiateHelper | .helperReady _ | .transportLost _ | .beginRetry | .retryFailed _ | .fail _
  | .disconnect | .disconnected => isTrue trivial

/-- A transport came up between the two states. -/
def CameUp (w w' : Connection) : Prop :=
  w.machine.phase ≠ .terminalOnly ∧ w'.machine.phase = .terminalOnly

/-- The state's generation is above those of the earlier transports, and it reports no
capabilities. -/
structure Fresh (w w' : Connection) : Prop where
  above : ∀ g ∈ w.transports, g < w'.machine.generation
  refused : ∀ g ∈ w.transports, w'.machine.acceptsGeneration g = false
  capabilities : w'.machine.projection.capabilities = .none

variable {policy : RetryPolicy} {w w' : Connection} {e : ConnectionEvent}
  {m : ConnectionMachine}

theorem step_cases (hs : w.step e = some w') :
    (∃ m, e.Effect w.machine m ∧ w' = w.after m e) ∨
      ∃ m, e.Refused w.machine m ∧ w' = { w with machine := m } := by
  refine wp.observe (P := False) (I := fun w' => (∃ m, e.Effect w.machine m ∧ w' = w.after m e) ∨
    ∃ m, e.Refused w.machine m ∧ w' = { w with machine := m }) ?_ hs
  exact wp_mono (run_spec e w.machine) (fun _ m he => .inl ⟨m, he, rfl⟩)
    (fun _ m he => .inr ⟨m, he, rfl⟩) fun h => h

/-- The attempts since the last reset are the machine's, and within the policy. -/
structure Counted (policy : RetryPolicy) (w : Connection) : Prop where
  kept : w.machine.retryPolicy = policy
  scheduled : w.scheduled = w.machine.retryAttempts.toNat
  bounded : w.scheduled ≤ policy.maxAttempts.toNat

theorem Counted.after (h : Counted policy w) (he : e.Effect w.machine m) :
    Counted policy (w.after m e) := by
  obtain ⟨hpolicy, hscheduled, hbounded⟩ := h
  cases e with
  | connect | helperReady | disconnect | retryConnected =>
    obtain ⟨-, rfl⟩ := he
    exact ⟨hpolicy, rfl, Nat.zero_le _⟩
  | beginRetry =>
    obtain ⟨-, hlt, rfl⟩ := he
    rw [hpolicy] at hlt
    have hmax := UInt32.toNat_lt policy.maxAttempts
    have hlt := UInt32.lt_iff_toNat_lt.mp hlt
    refine ⟨hpolicy, ?_, ?_⟩
    · simp only [Connection.after, UInt32.toNat_add, UInt32.toNat_one]
      omega
    · simp only [Connection.after]
      omega
  | terminalAvailable | negotiateHelper | transportLost | retryFailed | fail | disconnected =>
    obtain ⟨-, rfl⟩ := he
    exact ⟨hpolicy, hscheduled, hbounded⟩

theorem Counted.refused (h : Counted policy w) (he : e.Refused w.machine m) :
    Counted policy { w with machine := m } := by
  obtain rfl | ⟨-, rfl⟩ := he
  · exact h
  · exact ⟨h.kept, h.scheduled, h.bounded⟩

theorem counted_of_runs (h : Runs Connection.step (fun _ _ => True) (start policy) w) :
    Counted policy w := by
  have h₀ : Counted policy (start policy) := ⟨rfl, rfl, Nat.zero_le _⟩
  refine h.invariant (I := Counted policy) h₀ fun w e w' hI _ hs => ?_
  obtain ⟨m, he, rfl⟩ | ⟨m, he, rfl⟩ := step_cases hs
  · exact hI.after he
  · exact hI.refused he

theorem le_satSucc (n : UInt64) : n ≤ n.satSucc := by
  have hmax := toNat_le_u64Max n
  rw [UInt64.le_iff_toNat_le, toNat_satSucc]
  omega

/-- The transports came up at generations below the current one, or at it where one is `served`.
Before that no capabilities are reported. -/
structure Separate (w : Connection) : Prop where
  below : ∀ g ∈ w.transports, g ≤ w.machine.generation
  unserved : w.served = false →
    (∀ g ∈ w.transports, g < w.machine.generation) ∧ w.machine.capabilities = .none
  served : w.served = true → w.machine.generation ∈ w.transports
  connecting : w.machine.phase = .connecting → w.served = false
  helped : w.machine.phase = .terminalOnly ∨ w.machine.phase = .negotiatingHelper →
    w.served = true

/-- The next generation is above those of all transports. -/
theorem Separate.above_next (h : w.Separate)
    (hgrows : w.served = true → w.machine.generation ≠ -1) :
    ∀ g ∈ w.transports, g < w.machine.generation.satSucc := by
  intro g hg
  rw [UInt64.lt_iff_toNat_lt, toNat_satSucc]
  have hmax := toNat_le_u64Max w.machine.generation
  cases hserved : w.served with
  | false =>
    have hlt := UInt64.lt_iff_toNat_lt.mp ((h.unserved hserved).1 g hg)
    omega
  | true =>
    have hle := UInt64.le_iff_toNat_le.mp (h.below g hg)
    have hne : w.machine.generation.toNat ≠ u64Max := fun he =>
      hgrows hserved (UInt64.toNat_inj.mp (he.trans (by decide)))
    omega

/-- The machine moves to another phase at the same generation. -/
theorem Separate.moved {n : Nat} (h : w.Separate)
    (hgeneration : m.generation = w.machine.generation)
    (hcapabilities : m.capabilities = w.machine.capabilities ∨ m.capabilities = .none)
    (hconnecting : m.phase ≠ .connecting)
    (hhelped : m.phase = .terminalOnly ∨ m.phase = .negotiatingHelper → w.served = true) :
    Separate { w with machine := m, scheduled := n } := by
  refine ⟨?_, fun hserved => ?_, ?_, fun hc => absurd hc hconnecting, hhelped⟩
  · simpa only [hgeneration] using h.below
  · obtain ⟨hbelow, hnone⟩ := h.unserved hserved
    refine ⟨by simpa only [hgeneration] using hbelow, ?_⟩
    obtain hc | hc := hcapabilities
    · exact hc.trans hnone
    · exact hc
  · simpa only [hgeneration] using h.served

theorem Separate.after (h : w.Separate) (hgrows : w.Grows e) (he : e.Effect w.machine m) :
    (w.after m e).Separate := by
  cases e with
  | connect =>
    obtain ⟨hphase, rfl⟩ := he
    have habove := h.above_next (hgrows hphase)
    exact ⟨fun g hg => UInt64.le_of_lt (habove g hg), fun _ => ⟨habove, rfl⟩, nofun, fun _ => rfl,
      nofun⟩
  | terminalAvailable =>
    obtain ⟨-, rfl⟩ := he
    refine ⟨?_, nofun, fun _ => List.mem_cons_self, nofun, fun _ => rfl⟩
    intro g hg
    obtain rfl | hg := List.mem_cons.mp hg
    · exact UInt64.le_refl _
    · exact h.below g hg
  | retryConnected =>
    obtain ⟨-, rfl⟩ := he
    refine ⟨?_, nofun, fun _ => List.mem_cons_self, nofun, fun _ => rfl⟩
    intro g hg
    obtain rfl | hg := List.mem_cons.mp hg
    · exact UInt64.le_refl _
    · exact UInt64.le_trans (h.below g hg) (le_satSucc _)
  | negotiateHelper =>
    obtain ⟨hphase, rfl⟩ := he
    exact h.moved rfl (.inl rfl) nofun fun _ => h.helped (.inl hphase)
  | helperReady capabilities =>
    obtain ⟨hphase, rfl⟩ := he
    have hserved := h.helped hphase
    refine ⟨h.below, fun hnot => ?_, h.served, nofun, nofun⟩
    cases hserved.symm.trans hnot
  | transportLost | retryFailed | fail | disconnect =>
    obtain ⟨-, rfl⟩ := he
    exact h.moved rfl (.inl rfl) nofun nofun
  | beginRetry =>
    obtain ⟨-, -, rfl⟩ := he
    exact h.moved rfl (.inl rfl) nofun nofun
  | disconnected =>
    obtain ⟨-, rfl⟩ := he
    exact h.moved rfl (.inr rfl) nofun nofun

theorem Separate.refused (h : w.Separate) (he : e.Refused w.machine m) :
    Separate { w with machine := m } := by
  obtain rfl | ⟨-, rfl⟩ := he
  · exact h
  · exact h.moved rfl (.inl rfl) nofun nofun

theorem separate_of_runs (h : Runs Connection.step Grows (start policy) w) : w.Separate := by
  have h₀ : (start policy).Separate := ⟨nofun, fun _ => ⟨nofun, rfl⟩, nofun, nofun, nofun⟩
  refine h.invariant (I := Separate) h₀ fun w e w' hI hgrows hs => ?_
  obtain ⟨m, he, rfl⟩ | ⟨m, he, rfl⟩ := step_cases hs
  · exact hI.after hgrows he
  · exact hI.refused he

/-- A transport comes up by `terminalAvailable` or by `retryConnected`. -/
theorem CameUp.event (hs : w.step e = some w') (hup : w.CameUp w') :
    (e = .terminalAvailable ∧ (w.machine.phase = .connecting ∨ w.machine.phase = .reconnecting) ∧
      w' = w.after { w.machine with phase := .terminalOnly, detail := none } e) ∨
    (e = .retryConnected ∧ w.machine.phase = .reconnecting ∧
      w'.machine.generation = w.machine.generation.satSucc ∧
      w'.machine.capabilities = .none) := by
  obtain ⟨hbefore, hafter⟩ := hup
  obtain ⟨m, he, rfl⟩ | ⟨m, he, rfl⟩ := step_cases hs
  · cases e with
    | terminalAvailable =>
      obtain ⟨hphase, rfl⟩ := he
      exact .inl ⟨rfl, hphase, rfl⟩
    | retryConnected =>
      obtain ⟨hphase, rfl⟩ := he
      exact .inr ⟨rfl, hphase, rfl, rfl⟩
    | beginRetry =>
      obtain ⟨-, -, rfl⟩ := he
      cases hafter
    | connect | negotiateHelper | helperReady | transportLost | retryFailed | fail | disconnect
    | disconnected =>
      obtain ⟨-, rfl⟩ := he
      cases hafter
  · obtain rfl | ⟨-, rfl⟩ := he
    · exact absurd hafter hbefore
    · cases hafter

theorem fresh_of_above (habove : ∀ g ∈ w.transports, g < w'.machine.generation)
    (hnone : w'.machine.capabilities = .none) : w.Fresh w' := by
  refine ⟨habove, fun g hg => ?_, hnone⟩
  exact decide_eq_false fun he => absurd he.symm (UInt64.ne_of_lt (habove g hg))

theorem Separate.fresh_iff (h : w.Separate) (hs : w.step e = some w') (hup : w.CameUp w') :
    w.Fresh w' ↔ w.Grows e := by
  obtain ⟨rfl, hphase, rfl⟩ | ⟨rfl, hphase, hgeneration, hnone⟩ := hup.event hs
  · constructor
    · intro hfresh hreconnecting
      by_contra hserved
      exact absurd (hfresh.above _ (h.served (by simpa using hserved))) (UInt64.lt_irrefl _)
    · intro hgrows
      have hunserved : w.served = false := hphase.elim h.connecting hgrows
      obtain ⟨habove, hnone⟩ := h.unserved hunserved
      exact fresh_of_above habove hnone
  · constructor
    · intro hfresh _ hserved hmax
      have hlt := hfresh.above _ (h.served hserved)
      rw [hgeneration, hmax] at hlt
      exact absurd hlt (by decide)
    · intro hgrows
      refine fresh_of_above ?_ hnone
      rw [hgeneration]
      exact h.above_next (hgrows hphase)

theorem CameUp.transports (hs : w.step e = some w') (hup : w.CameUp w') :
    w'.transports = w'.machine.generation :: w.transports := by
  obtain ⟨m, he, rfl⟩ | ⟨m, he, rfl⟩ := step_cases hs
  · obtain ⟨rfl, -, hw⟩ | ⟨rfl, -, -⟩ := hup.event hs
    · rfl
    · rfl
  · obtain rfl | ⟨-, rfl⟩ := he
    · exact absurd hup.2 hup.1
    · cases hup.2

/-- An event of another generation is not taken. -/
theorem deliver_of_ne {generation : UInt64} (h : generation ≠ m.generation) :
    (e.deliver generation).exec m = some (.ok (), m) := by
  have hwp : wp (e.deliver generation) (fun _ m' => m' = m) (fun _ _ => False) False m := by
    have hrefused : m.acceptsGeneration generation = false := decide_eq_false h.symm
    simp only [ConnectionEvent.deliver, wp_bind, wp_get, hrefused, Bool.false_eq_true, if_false,
      wp_pure]
  obtain ⟨r, m', hx⟩ := hwp.ends
  cases r with
  | ok u => rw [hx, hwp.of_ok hx]
  | error err => exact (hwp.of_error hx).elim

/-- Over every sequence of events: an event that carries an older generation changes nothing, and at
most `maxAttempts` attempts are scheduled between two resets. Along a sequence where each event so
far met `Grows`, a transport that comes up is above all earlier ones and reports none of their
capabilities exactly when its event meets `Grows` as well. -/
theorem generation_law (h : Runs step (fun _ _ => True) (start policy) w) :
    (∀ g (e : ConnectionEvent), g < w.machine.generation →
      (e.deliver g).exec w.machine = some (.ok (), w.machine)) ∧
    w.scheduled ≤ policy.maxAttempts.toNat ∧
    (Runs step Grows (start policy) w → ∀ e w', w.step e = some w' → w.CameUp w' →
      w'.transports = w'.machine.generation :: w.transports ∧ (w.Fresh w' ↔ w.Grows e)) := by
  refine ⟨fun g e hlt => deliver_of_ne (UInt64.ne_of_lt hlt), (counted_of_runs h).bounded, ?_⟩
  intro hgrows e w' hs hup
  exact ⟨hup.transports hs, (separate_of_runs hgrows).fresh_iff hs hup⟩

/-- A lost transport is replaced by `retryConnected`. -/
theorem generation_law_retry : ∃ w w' : Connection,
    Runs step Grows (start .standard) w ∧ w.machine.capabilities = .all ∧ w.transports = [1] ∧
      w.step .retryConnected = some w' ∧ w.CameUp w' ∧ w.Fresh w' ∧
      w'.transports = [w'.machine.generation, 1] := by
  have hruns : ([.connect, .terminalAvailable, .helperReady .all, .transportLost "",
      .beginRetry].foldlM step (start .standard)).any fun w =>
        w.machine.capabilities = .all ∧ w.transports = [1] ∧
          (w.step .retryConnected).any fun w' => w.machine.phase ≠ .terminalOnly ∧
            w'.machine.phase = .terminalOnly := by
    decide
  obtain ⟨w, hw, hend⟩ := (Option.any_eq_true _ _).mp hruns
  obtain ⟨hall, htransports, hnext⟩ := of_decide_eq_true hend
  obtain ⟨w', hs, hend'⟩ := (Option.any_eq_true _ _).mp hnext
  have hup := of_decide_eq_true hend'
  have hto : Runs step Grows (start .standard) w := Along.runs (by decide) hw
  obtain ⟨-, -, hlaw⟩ := generation_law (hto.mono fun _ _ _ => trivial)
  obtain ⟨hcons, hfresh⟩ := hlaw hto _ w' hs hup
  refine ⟨w, w', hto, hall, htransports, hs, hup, hfresh.mpr ?_, ?_⟩
  · have hgrows : ([.connect, .terminalAvailable, .helperReady .all, .transportLost "",
        .beginRetry].foldlM step (start .standard)).any fun w => w.Grows .retryConnected := by
      decide
    rw [hw] at hgrows
    exact of_decide_eq_true hgrows
  · rw [hcons, htransports]

/-- The terminal reported from the reconnecting phase: a second transport at the generation and with
the capabilities of the first. -/
theorem reconnected_terminal : ∃ w w' : Connection,
    Runs step (fun _ _ => True) (start .standard) w ∧ w.step .terminalAvailable = some w' ∧
      w.CameUp w' ∧ w.transports = [1] ∧ w'.machine.generation = 1 ∧
      w'.machine.projection.capabilities = .all ∧ ¬w.Fresh w' := by
  have hruns : ([.connect, .terminalAvailable, .helperReady .all, .transportLost "",
      .beginRetry].foldlM step (start .standard)).any fun w =>
        w.transports = [1] ∧ (w.step .terminalAvailable).any fun w' =>
          (w.machine.phase ≠ .terminalOnly ∧ w'.machine.phase = .terminalOnly) ∧
            w'.machine.generation = 1 ∧ w'.machine.projection.capabilities = .all := by
    decide
  obtain ⟨w, hw, hend⟩ := (Option.any_eq_true _ _).mp hruns
  obtain ⟨htransports, hnext⟩ := of_decide_eq_true hend
  obtain ⟨w', hs, hend'⟩ := (Option.any_eq_true _ _).mp hnext
  obtain ⟨hup, hgeneration, hall⟩ := of_decide_eq_true hend'
  refine ⟨w, w', (along_true _ _).runs hw, hs, hup, htransports, hgeneration, hall, ?_⟩
  intro hfresh
  have hlt := hfresh.above 1 (by rw [htransports]; exact List.mem_cons_self)
  rw [hgeneration] at hlt
  exact absurd hlt (by decide)

end Connection

/-! ## Retries -/

/-- A machine with the delays granted since the last reset, the first one first. -/
structure Retries where
  machine : ConnectionMachine
  delays : List Duration

def ConnectionEvent.resets : ConnectionEvent → Bool
  | .connect | .helperReady _ | .retryConnected | .disconnect => true
  | _ => false

namespace Retries

open ConnectionMachine

def start (policy : RetryPolicy) : Retries := ⟨ConnectionMachine.new policy, []⟩

def step (w : Retries) : ConnectionEvent → Option Retries
  | .beginRetry =>
    observe beginRetry w.machine (fun delay m => ⟨m, w.delays ++ [delay]⟩) fun _ m => ⟨m, w.delays⟩
  | e =>
    observe e.run w.machine (fun _ m => ⟨m, if e.resets then [] else w.delays⟩)
      fun _ m => ⟨m, w.delays⟩

/-- The answer to the next retry after some that were granted. -/
def next (policy : RetryPolicy) (m : ConnectionMachine) (granted : Nat) :
    Except StateError Duration :=
  if m.phase ≠ .stale then .error .invalidTransition
  else if granted < policy.maxAttempts.toNat then .ok (policy.delay (.ofNat granted))
  else .error .retryLimitReached

structure Scheduled (policy : RetryPolicy) (w : Retries) : Prop where
  kept : w.machine.retryPolicy = policy
  count : w.machine.retryAttempts = .ofNat w.delays.length
  bounded : w.delays.length ≤ policy.maxAttempts.toNat
  each : w.delays = (List.range w.delays.length).map fun n => policy.delay (.ofNat n)

variable {policy : RetryPolicy} {w : Retries} {m : ConnectionMachine} {e : ConnectionEvent}

theorem Scheduled.moved (h : Scheduled policy w) (hpolicy : m.retryPolicy = w.machine.retryPolicy)
    (hattempts : m.retryAttempts = w.machine.retryAttempts) : Scheduled policy ⟨m, w.delays⟩ :=
  ⟨hpolicy.trans h.kept, hattempts.trans h.count, h.bounded, h.each⟩

theorem Scheduled.refused (h : Scheduled policy w) (he : e.Refused w.machine m) :
    Scheduled policy ⟨m, w.delays⟩ := by
  obtain rfl | ⟨-, rfl⟩ := he <;> exact h.moved rfl rfl

theorem Scheduled.beginRetry (h : Scheduled policy w) :
    wp ConnectionMachine.beginRetry
      (fun delay m => next policy w.machine w.delays.length = .ok delay ∧
        Scheduled policy ⟨m, w.delays ++ [delay]⟩)
      (fun error m => next policy w.machine w.delays.length = .error error ∧
        Scheduled policy ⟨m, w.delays⟩) False w.machine := by
  have hmax : policy.maxAttempts.toNat < UInt32.size := policy.maxAttempts.toNat_lt
  have hbound := h.bounded
  have hcount : w.machine.retryAttempts.toNat = w.delays.length := by
    rw [h.count, UInt32.toNat_ofNat_of_lt' (by omega)]
  simp only [ConnectionMachine.beginRetry, wp_bind, wp_require, wp_get, wp_ite, wp_modify,
    wp_setPhase, wp_pure, wp_throw, List.mem_singleton, UInt32.le_iff_toNat_le, hcount, h.kept]
  unfold next
  refine ⟨fun hm => ⟨fun hle => ⟨?_, h.moved h.kept.symm rfl⟩, fun hlt => ⟨?_, rfl, ?_, ?_, ?_⟩⟩,
    fun hm => ⟨if_pos hm, h⟩⟩
  · rw [if_neg (not_not.mpr hm), if_neg (by omega)]
  · rw [if_neg (not_not.mpr hm), if_pos (by omega), h.count]
  · rw [List.length_append, List.length_singleton, h.count]
    simp
  · rw [List.length_append, List.length_singleton]
    omega
  · rw [List.length_append, List.length_singleton, List.range_succ, List.map_append, ← h.each,
      List.map_singleton, h.count]

theorem Scheduled.step (h : Scheduled policy w) (e : ConnectionEvent) :
    ∃ w', w.step e = some w' ∧ Scheduled policy w' := by
  cases e with
  | beginRetry =>
    exact (wp_mono h.beginRetry (fun _ _ h => h.2) (fun _ _ h => h.2) id).observes
  | connect | helperReady | retryConnected | disconnect =>
    simp only [Retries.step]
    refine wp.observes (wp_mono (run_spec _ w.machine) ?_ (fun _ _ he => h.refused he) id)
    rintro _ _ ⟨-, rfl⟩
    exact ⟨h.kept, rfl, Nat.zero_le _, rfl⟩
  | terminalAvailable | negotiateHelper | transportLost | retryFailed | fail | disconnected =>
    simp only [Retries.step]
    refine wp.observes (wp_mono (run_spec _ w.machine) ?_ (fun _ _ he => h.refused he) id)
    rintro _ _ ⟨-, rfl⟩
    exact h.moved rfl rfl

/-- Over every sequence of events, the delays granted since the last reset are those of the policy
for the attempts from zero on: at most `maxAttempts`, each no less than the one before it, none over
the maximum. A retry is answered with the next one while there is one. -/
theorem retry_law (policy : RetryPolicy) (events : List ConnectionEvent) :
    ∃ w, events.foldlM Retries.step (start policy) = some w ∧
      w.delays = ((List.range w.delays.length).map fun n => policy.delay (.ofNat n)) ∧
      w.delays.length ≤ policy.maxAttempts.toNat ∧ w.delays.Pairwise (· ≤ ·) ∧
      (∀ delay ∈ w.delays, delay ≤ policy.maximum) ∧
      (ConnectionMachine.beginRetry.exec w.machine).map Prod.fst =
        some (next policy w.machine w.delays.length) := by
  have h₀ : Scheduled policy (start policy) := ⟨rfl, rfl, Nat.zero_le _, rfl⟩
  obtain ⟨w, hrun, h⟩ :
      ∃ w, events.foldlM Retries.step (start policy) = some w ∧ Scheduled policy w :=
    foldlM_total h₀ fun w e _ h => h.step e
  have hbound := h.bounded
  have hmax : policy.maxAttempts.toNat < UInt32.size := policy.maxAttempts.toNat_lt
  refine ⟨w, hrun, h.each, hbound, ?_, ?_, ?_⟩
  · rw [h.each, List.pairwise_map]
    refine List.pairwise_lt_range.imp_of_mem fun ha hb hlt => policy.delay_mono ?_
    rw [List.mem_range] at ha hb
    rw [UInt32.le_iff_toNat_le, UInt32.toNat_ofNat_of_lt' (by omega),
      UInt32.toNat_ofNat_of_lt' (by omega)]
    exact hlt.le
  · intro delay hdelay
    rw [h.each] at hdelay
    obtain ⟨n, -, rfl⟩ := List.mem_map.mp hdelay
    exact policy.delay_le _
  · have hnext := h.beginRetry
    obtain ⟨r, m, hx⟩ := hnext.ends
    rw [hx]
    cases r with
    | ok delay => exact congrArg some (hnext.of_ok hx).1.symm
    | error error => exact congrArg some (hnext.of_error hx).1.symm

end Retries
end Strukt.Remote
