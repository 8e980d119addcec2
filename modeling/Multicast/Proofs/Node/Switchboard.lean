import Multicast.Proofs.Net.Journal
import Multicast.Proofs.Node.PeerTable

/-! A peer table and the transport that it works on, with the events between them. What connections
are asked and given can be recorded without a change to either. -/
namespace Multicast

/-- What happens to a transport beside what a peer table does. -/
class Host (τ : Type) extends Carrier τ where
  poll : τ → List Readiness → List TransportEvent × τ
  /-- Lets the socket of a connection change. -/
  onSocket : τ → ConnectionId → (Socket → Socket) → τ

instance : Host Transport where
  poll := Transport.poll
  onSocket t c f := t.update c (·.onSocket f)

/-- A transport, and the record of its connections. -/
structure Recorded where
  net : Transport
  journal : List Mark := []

namespace Recorded

def service (r : Recorded) (c : ConnectionId) : Recorded where
  net := r.net.service c
  journal := r.journal ++
    match r.net.connection? c with
    | some conn => (conn.stages r.net.config.maxFrameSize).flatMap Mark.ofStage
    | none => []

def serviceDirty (r : Recorded) : Recorded :=
  r.net.dirty.foldl service { r with net := { r.net with dirty := [] } }

def heed (r : Recorded) : Readiness → Recorded
  | .incoming sockets => { r with net := sockets.foldl Transport.accept r.net }
  | .connection c => r.service c

def poll (r : Recorded) (ready : List Readiness) : List TransportEvent × Recorded :=
  let r := (ready.foldl heed r.serviceDirty).serviceDirty
  (r.net.pending, { r with net := { r.net with pending := [] } })

end Recorded

instance : Host Recorded where
  connect r p := ((Carrier.connect r.net p).1, { r with net := (Carrier.connect r.net p).2 })
  disconnect r c := { r with net := Carrier.disconnect r.net c }
  close r c :=
    { net := Carrier.close r.net c
      journal := r.journal ++ if (r.net.connection? c).isSome then [.shut c] else [] }
  setMessage r c payload :=
    ((Carrier.setMessage r.net c payload).1,
      { net := (Carrier.setMessage r.net c payload).2
        journal := r.journal ++
          if (Carrier.setMessage r.net c payload).1.isOk then [.took c] else [] })
  start r c :=
    ((Carrier.start r.net c).1,
      { net := (Carrier.start r.net c).2
        journal := r.journal ++
          match r.net.connection? c with
          | some conn => Mark.ofStage ((conn.setReceiver true).setSender true)
          | none => [] })
  poll := Recorded.poll
  onSocket r c f := { r with net := Host.onSocket r.net c f }

/-- A peer table and a transport. The events that were reported and are still to be heeded, and
those that were heeded, are kept, each oldest first. -/
structure Switchboard (τ : Type) where
  table : PeerTable
  host : τ
  inbox : List TransportEvent := []
  heeded : List TransportEvent := []

namespace Switchboard

inductive Action where
  /-- A process is announced. -/
  | ensure (p : Proc)
  /-- A message is to be sent. -/
  | send (p : Proc) (payload : Bytes)
  | forget (p : Proc)
  /-- The transport is told what is ready, and reports its events. -/
  | poll (ready : List Readiness)
  /-- The oldest event is heeded. -/
  | heed
  /-- Something happens to the socket of a connection: it is dialed or fails, bytes arrive or are
  carried away, room comes or goes, the peer closes. -/
  | socket (c : ConnectionId) (s : Socket)
  deriving DecidableEq, Repr

section
variable {τ : Type} [Host τ]

def establish (s : Switchboard τ) (c : ConnectionId) (p : Proc) (key : Option ConnectionKey) :
    Switchboard τ :=
  let (_, table, host) := s.table.onEstablished c p key s.host
  { s with table, host }

/-- Heeds an event. A frame is not for the table. -/
def take (s : Switchboard τ) : TransportEvent → Switchboard τ
  | .accepted c remote key => s.establish c remote (some key)
  | .connected c remote key => s.establish c remote key
  | .closed c remote => { s with table := (s.table.onLost c remote "closed by peer").2 }
  | .broken c remote cause => { s with table := (s.table.onLost c remote cause.message).2 }
  | .received _ _ => s
  | .ready c =>
    let (table, host) := s.table.onReady c s.host
    { s with table, host }

def step (s : Switchboard τ) : Action → Switchboard τ
  | .ensure p =>
    let (table, host) := s.table.ensure p s.host
    { s with table, host }
  | .send p payload =>
    let (table, host) := s.table.send p payload s.host
    { s with table, host }
  | .forget p =>
    let (table, host) := s.table.forget p s.host
    { s with table, host }
  | .poll ready =>
    let (events, host) := Host.poll s.host ready
    { s with host, inbox := s.inbox ++ events }
  | .heed =>
    match s.inbox with
    | [] => s
    | event :: inbox => { s with inbox, heeded := s.heeded ++ [event] }.take event
  | .socket c socket => { s with host := Host.onSocket s.host c fun _ => socket }

def run (s : Switchboard τ) (actions : List Action) : Switchboard τ := actions.foldl step s

end

/-- The same without the record. -/
def plain (s : Switchboard Recorded) : Switchboard Transport where
  table := s.table
  host := s.host.net
  inbox := s.inbox
  heeded := s.heeded

end Switchboard

/-! ### Recording changes nothing -/

namespace Recorded

variable {r : Recorded} {ready : List Readiness} {ids : List ConnectionId}

theorem net_services : (ids.foldl service r).net = ids.foldl Transport.service r.net :=
  (List.foldl_hom net fun _ _ => rfl).symm

theorem net_serviceDirty : r.serviceDirty.net = r.net.serviceDirty := net_services

theorem net_heed : (ready.foldl heed r).net = ready.foldl Transport.heed r.net := by
  refine (List.foldl_hom net fun r x => ?_).symm
  cases x <;> rfl

theorem net_poll : r.net.poll ready = ((r.poll ready).1, (r.poll ready).2.net) := by
  simp only [poll, Transport.poll, net_serviceDirty, net_heed]

theorem over_net : Carrier.Over net :=
  ⟨fun _ _ => rfl, fun _ _ => rfl, fun _ _ => rfl, fun _ _ _ => rfl, fun _ _ => rfl⟩

end Recorded

namespace Switchboard

variable {s : Switchboard Recorded} {a : Action} {actions : List Action} {e : TransportEvent}
  {c : ConnectionId} {p : Proc} {key : Option ConnectionKey}

theorem plain_establish : (s.establish c p key).plain = s.plain.establish c p key := by
  simp only [establish, plain, PeerTable.onEstablished_over Recorded.over_net]

theorem plain_take : (s.take e).plain = s.plain.take e := by
  cases e with
  | accepted | connected => exact plain_establish
  | ready c => simp only [take, plain, PeerTable.onReady_over Recorded.over_net]
  | closed | broken | received => rfl

theorem plain_step : (s.step a).plain = s.plain.step a := by
  cases a with
  | ensure p => simp only [step, plain, PeerTable.ensure_over Recorded.over_net]
  | send p payload => simp only [step, plain, PeerTable.send_over Recorded.over_net]
  | forget p => simp only [step, plain, PeerTable.forget_over Recorded.over_net]
  | poll ready =>
    have hpoll : Host.poll s.host.net ready =
        ((Host.poll s.host ready).1, (Host.poll s.host ready).2.net) := Recorded.net_poll
    simp only [step, plain, hpoll]
  | heed =>
    simp only [step]
    cases hinbox : s.inbox with
    | nil => simp [plain, hinbox]
    | cons event inbox =>
      simp only [plain, hinbox]
      exact plain_take (s := { s with inbox, heeded := s.heeded ++ [event] })
  | socket c socket => rfl

/-- To record is to change nothing else. -/
theorem plain_run : (s.run actions).plain = s.plain.run actions :=
  (List.foldl_hom plain fun _ _ => plain_step.symm).symm

end Switchboard

end Multicast
