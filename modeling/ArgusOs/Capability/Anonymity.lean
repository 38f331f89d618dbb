/-
  The anonymity policy: `anonymity.c`.

  Which security role may hold a network capability, and the state of the transport that
  anonymous streams need. The policy is default deny: only the Tor transport may hold a raw
  network capability, only the browser's network process an anonymous stream, and a stream
  may connect only while the transport is ready.
-/
import ArgusOs.Capability.Table

namespace ArgusOs.Capability

/-- `argus_security_role_t`; a zeroed process record has no role. -/
inductive SecurityRole where
  | unset
  | utility
  | browserUi
  | renderer
  | browserNetwork
  | torTransport
  deriving DecidableEq, Repr

inductive TransportState where
  | offline
  | bootstrapping
  | ready
  | failed
  deriving DecidableEq, Repr

def anonymityCapabilityAllowed (role : SecurityRole) (type : UInt32) (rights : UInt16) : Bool :=
  if rights ≠ capRightConnect then false
  else if type = capabilityRawNetwork then role = .torTransport
  else if type = capabilityAnonymousStream then role = .browserNetwork
  else false

/-- The transitions `anonymity_transport_update` accepts. -/
def transportValid : TransportState → TransportState → Bool
  | .offline, .bootstrapping => true
  | .bootstrapping, .ready => true
  | .bootstrapping, .failed => true
  | .bootstrapping, .offline => true
  | .ready, .failed => true
  | .ready, .offline => true
  | .failed, .bootstrapping => true
  | .failed, .offline => true
  | _, _ => false

def anonymityTransportUpdate (state : TransportState) (caller : SecurityRole)
    (next : TransportState) (authenticated : Bool) : TransportState × Bool :=
  if caller ≠ .torTransport ∨ authenticated = false ∨ transportValid state next = false then
    (state, false)
  else (next, true)

def anonymityConnectionAllowed (state : TransportState) (role : SecurityRole) (type : UInt32)
    (rights : UInt16) : Bool :=
  state = .ready && type = capabilityAnonymousStream && anonymityCapabilityAllowed role type rights

/-- The self-test, run by `process_init`. It leaves the transport offline. -/
def anonymityPolicySelfTest : TransportState × Bool :=
  let connect := fun state role =>
    anonymityConnectionAllowed state role capabilityAnonymousStream capRightConnect
  let allowed := fun role type => anonymityCapabilityAllowed role type capRightConnect
  let t := TransportState.offline
  if allowed .utility capabilityRawNetwork || allowed .renderer capabilityAnonymousStream ||
      !allowed .torTransport capabilityRawNetwork ||
      !allowed .browserNetwork capabilityAnonymousStream || connect t .browserNetwork then
      (t, false)
  else
    let (t, early) := anonymityTransportUpdate t .browserUi .bootstrapping true
    let (t, skip) := anonymityTransportUpdate t .torTransport .ready true
    let (t, boot) := anonymityTransportUpdate t .torTransport .bootstrapping true
    let (t, ready) := anonymityTransportUpdate t .torTransport .ready true
    if early || skip || !boot || !ready || !connect t .browserNetwork || connect t .browserUi then
      (t, false)
    else
      let (t, failed) := anonymityTransportUpdate t .torTransport .failed true
      if !failed || connect t .browserNetwork then (t, false) else (.offline, true)

end ArgusOs.Capability
