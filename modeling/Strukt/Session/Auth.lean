import Strukt.Lib.Delimited
import Strukt.Prim

/-!
# The handshake's proofs

A client proves that it knows the service's secret by a message authentication code of a challenge.
What goes into the code is the transcript of the challenge: a fixed text, the protocol version, the
service's identifier, the endpoint behind its length, and the client's nonce.

* **Lengths** (`HandshakeChallenge.new`): an accepted endpoint has at most 256 bytes, so that its
  length, which saturates at `u32::MAX`, is the real one.
* **The law** (`handshake_law`): the transcript determines the challenge, and a proof verifies for
  no other challenge.
* **The code** (`MessageAuth`) is a parameter: for a secret it is a function of what it is fed with.
  `NoCollision` is what is asked of it, at the two transcripts compared.
-/

namespace Strukt

open Cbor (bigEndian length_bigEndian)

def nonceBytes : Nat := 32
def secretBytes : Nat := 32
def maxEndpointBytes : Nat := 256

inductive AuthenticationError where
  | randomUnavailable
  | invalidEndpoint
  | invalidSecret
  deriving DecidableEq

abbrev ServiceSecret := Vector UInt8 secretBytes

def OpaqueId.asBytes {kind : IdKind} (id : OpaqueId kind) : List UInt8 := bigEndian id.value 16

structure HandshakeChallenge where
  protocolVersion : UInt16
  serviceInstance : ServiceInstanceId
  endpointIdentity : String
  clientNonce : Vector UInt8 nonceBytes
  deriving DecidableEq

namespace HandshakeChallenge

def new (protocolVersion : UInt16) (serviceInstance : ServiceInstanceId)
    (endpointIdentity : String) (clientNonce : Vector UInt8 nonceBytes) :
    Except AuthenticationError HandshakeChallenge :=
  if endpointIdentity = "" ∨ endpointIdentity.utf8ByteSize > maxEndpointBytes ∨
      '\x00' ∈ endpointIdentity.toList then .error .invalidEndpoint
  else .ok ⟨protocolVersion, serviceInstance, endpointIdentity, clientNonce⟩

/-- The challenge is one that `new` makes. -/
def Accepted (c : HandshakeChallenge) : Prop :=
  new c.protocolVersion c.serviceInstance c.endpointIdentity c.clientNonce = .ok c

theorem Accepted.length_le {c : HandshakeChallenge} (h : c.Accepted) :
    c.endpointIdentity.utf8ByteSize ≤ maxEndpointBytes := by
  unfold Accepted new at h
  split at h
  · cases h
  · next hno => exact Nat.le_of_not_lt fun hlt => hno (.inr (.inl hlt))

end HandshakeChallenge

/-- What `update_challenge` feeds the code with. -/
def updateChallenge (c : HandshakeChallenge) : List UInt8 :=
  let endpointLength := min c.endpointIdentity.utf8ByteSize (2 ^ 32 - 1)
  "strukt-session-auth-v1\x00".toUTF8.data.toList ++ bigEndian c.protocolVersion.toNat 2 ++
    c.serviceInstance.asBytes ++ bigEndian endpointLength 4 ++
    c.endpointIdentity.toUTF8.data.toList ++ c.clientNonce.toList

/-! ## Codes -/

abbrev AuthenticationProof := Vector UInt8 32

/-- A message authentication code: the function of a secret, unless it refuses the secret. -/
abbrev MessageAuth := ServiceSecret → Option (List UInt8 → AuthenticationProof)

namespace MessageAuth

/-- No secret gives the two inputs one code, unless they are one input. -/
def NoCollision (mac : MessageAuth) (l l' : List UInt8) : Prop :=
  ∀ secret code, mac secret = some code → code l = code l' → l = l'

def prove (mac : MessageAuth) (secret : ServiceSecret) (c : HandshakeChallenge) :
    Except AuthenticationError AuthenticationProof :=
  match mac secret with
  | none => .error .invalidSecret
  | some code => .ok (code (updateChallenge c))

def verify (mac : MessageAuth) (secret : ServiceSecret) (c : HandshakeChallenge)
    (proof : AuthenticationProof) : Bool :=
  match mac secret with
  | none => false
  | some code => code (updateChallenge c) = proof

end MessageAuth

/-! ## The transcript -/

theorem bytes_inj {s s' : String} (h : s.toUTF8.data.toList = s'.toUTF8.data.toList) : s = s' := by
  have hdata : s.toUTF8.data = s'.toUTF8.data := Array.toList_inj.mp h
  exact String.toByteArray_inj.mp (ByteArray.ext hdata)

theorem length_bytes (s : String) : s.toUTF8.data.toList.length = s.utf8ByteSize := rfl

theorem OpaqueId.asBytes_inj {kind : IdKind} {a b : OpaqueId kind} (h : a.asBytes = b.asBytes) :
    a = b := by
  have hv : a.value.val = b.value.val := bigEndian_inj a.value.isLt b.value.isLt h
  cases a
  cases b
  exact congrArg _ (Fin.ext hv)

namespace HandshakeChallenge

/-- The fields one after the other, each showing where it ends. -/
theorem updateChallenge_inj {c c' : HandshakeChallenge} (hc : c.Accepted) (hc' : c'.Accepted)
    (h : updateChallenge c = updateChallenge c') : c = c' := by
  have hlen : ∀ {c : HandshakeChallenge}, c.Accepted →
      min c.endpointIdentity.utf8ByteSize (2 ^ 32 - 1) =
        c.endpointIdentity.toUTF8.data.toList.length := by
    intro c hc
    have := hc.length_le
    rw [length_bytes]
    unfold maxEndpointBytes at this
    omega
  simp only [updateChallenge, hlen hc, hlen hc', List.append_assoc, List.append_cancel_left_eq] at h
  have hsize : ∀ {c : HandshakeChallenge}, c.Accepted →
      c.endpointIdentity.toUTF8.data.toList.length < 256 ^ 4 := by
    intro c hc
    have := hc.length_le
    rw [length_bytes]
    unfold maxEndpointBytes at this
    omega
  obtain ⟨hversion, h⟩ := delimited_bigEndian 2 _ _ _ _ c.protocolVersion.toNat_lt
    c'.protocolVersion.toNat_lt h
  obtain ⟨hinstance, h⟩ := delimited_bigEndian 16 _ _ _ _ c.serviceInstance.value.isLt
    c'.serviceInstance.value.isLt h
  rw [← List.append_assoc, ← List.append_assoc (bigEndian _ 4)] at h
  obtain ⟨hendpoint, hnonce⟩ := delimited_sized (delimited_bigEndian 4) _ _ _ _ (hsize hc)
    (hsize hc') h
  have hbytes : c.serviceInstance = c'.serviceInstance :=
    OpaqueId.asBytes_inj (congrArg (bigEndian · 16) hinstance)
  cases c
  cases c'
  simp only [mk.injEq]
  exact ⟨UInt16.toNat_inj.mp hversion, hbytes, bytes_inj hendpoint, Vector.toList_inj.mp hnonce⟩

end HandshakeChallenge

/-- The transcripts of accepted challenges are equal only if every field is. With a code that has no
collision of the two, a proof for one challenge verifies for no other. -/
theorem handshake_law {c c' : HandshakeChallenge} (hc : c.Accepted) (hc' : c'.Accepted) :
    (updateChallenge c = updateChallenge c' →
      c.protocolVersion = c'.protocolVersion ∧ c.serviceInstance = c'.serviceInstance ∧
        c.endpointIdentity = c'.endpointIdentity ∧ c.clientNonce = c'.clientNonce) ∧
    ∀ (mac : MessageAuth), mac.NoCollision (updateChallenge c') (updateChallenge c) →
      ∀ secret proof, mac.prove secret c = .ok proof →
        (mac.verify secret c' proof = true ↔ c' = c) := by
  refine ⟨fun h => ?_, fun mac hmac secret proof hproof => ?_⟩
  · obtain rfl := HandshakeChallenge.updateChallenge_inj hc hc' h
    exact ⟨rfl, rfl, rfl, rfl⟩
  · unfold MessageAuth.prove at hproof
    unfold MessageAuth.verify
    cases hkey : mac secret with
    | none => rw [hkey] at hproof; cases hproof
    | some code =>
      rw [hkey] at hproof
      obtain rfl := Except.ok.inj hproof
      rw [decide_eq_true_iff]
      constructor
      · intro h
        exact HandshakeChallenge.updateChallenge_inj hc' hc (hmac secret code hkey h)
      · rintro rfl
        rfl

/-- A challenge of the endpoint with these two bytes. -/
def HandshakeChallenge.ofEndpoint (endpoint : String) : HandshakeChallenge :=
  ⟨1, ⟨7⟩, endpoint, Vector.replicate nonceBytes 0⟩

/-- The code that repeats the number of bytes it is fed with. -/
def lengthMac : MessageAuth := fun _ => some fun l => Vector.replicate 32 (UInt8.ofNat l.length)

/-- The proof for the endpoint `"ab"` is none for `"a"`. -/
theorem handshake_law_endpoint :
    let c := HandshakeChallenge.ofEndpoint "ab"
    let c' := HandshakeChallenge.ofEndpoint "a"
    let secret := Vector.replicate secretBytes 0
    let proof := Vector.replicate 32 79
    lengthMac.prove secret c = .ok proof ∧ lengthMac.verify secret c' proof = false := by
  intro c c' secret proof
  have hc : c.Accepted := if_neg (by decide)
  have hc' : c'.Accepted := if_neg (by decide)
  have hlen : (updateChallenge c').length = 78 := rfl
  have hlen' : (updateChallenge c).length = 79 := rfl
  have hmac : lengthMac.NoCollision (updateChallenge c') (updateChallenge c) := by
    intro secret code hcode h
    cases hcode
    simp only [hlen, hlen'] at h
    exact absurd h (by decide)
  have hproof : lengthMac.prove secret c = .ok proof := by
    simp only [MessageAuth.prove, lengthMac, hlen']
    rfl
  have hne : c' ≠ c := by decide
  exact ⟨hproof, Bool.eq_false_iff.mpr
    (mt ((handshake_law hc hc').2 lengthMac hmac secret proof hproof).mp hne)⟩

end Strukt
