import Multicast.Order.Layer

/-! The layers of several processes, and the links that hold the packets under way between
them. -/
namespace Multicast

/-- A link from one process to another, both by their place, with its packets, oldest first. -/
structure PacketLink (π : Type) where
  source : Nat
  target : Nat
  packets : List π
  deriving DecidableEq, Repr

structure Exchange (σ π : Type) where
  processes : List Proc
  /-- The layer of each process. -/
  layers : List σ
  /-- The links that hold packets, ascending by source and target. -/
  links : List (PacketLink π) := []
  /-- What each process has delivered. -/
  delivered : List (List Delivery)
  deriving DecidableEq, Repr

/-- How a layer handles a packet from a process. -/
abbrev Handler (σ π : Type) := σ → Proc → π → Except OrderError (Output π × σ)

namespace Exchange

variable {σ π ε : Type}

/-- Each process with a layer of its own, and no packet under way. -/
def start (processes : List Proc) (layer : Proc → σ) : Exchange σ π where
  processes
  layers := processes.map layer
  delivered := processes.map fun _ => []

/-- Adds a packet to the end of a link. -/
def enqueue (source target : Nat) (packet : π) : List (PacketLink π) → List (PacketLink π)
  | [] => [⟨source, target, [packet]⟩]
  | k :: ks =>
    match lexicographic [source, target] [k.source, k.target] with
    | .lt => ⟨source, target, [packet]⟩ :: k :: ks
    | .eq => { k with packets := k.packets ++ [packet] } :: ks
    | .gt => k :: enqueue source target packet ks

/-- Puts the packets of an output on their links. Those for other processes are lost. -/
def carry (x : Exchange σ π) (source : Nat) (sends : List (Outgoing π)) : Exchange σ π :=
  { x with
    links := sends.foldl (fun ks s =>
      match x.processes.idxOf? s.destination with
      | some target => enqueue source target s.packet ks
      | none => ks) x.links }

/-- Lets the layer of a process act. -/
def act (x : Exchange σ π) (i : Nat) (op : σ → Except ε (Output π × σ)) :
    Option (Except ε (Output π)) × Exchange σ π :=
  match x.layers[i]? with
  | none => (none, x)
  | some layer =>
    match op layer with
    | .error e => (some (.error e), x)
    | .ok (o, layer) =>
      (some (.ok o),
        { x with
          layers := x.layers.set i layer
          delivered := x.delivered.modify i (· ++ o.delivered) }.carry i o.sends)

/-- A packet taken from a link. -/
structure Arrival (π : Type) where
  source : Nat
  target : Nat
  place : Nat
  packet : π

/-- Packet `pick` of link `link`, both counted round and round. -/
def choose? (x : Exchange σ π) (link pick : Nat) : Option (Arrival π) := do
  let k ← x.links[link % x.links.length]?
  let place := pick % k.packets.length
  let packet ← k.packets[place]?
  return ⟨k.source, k.target, place, packet⟩

/-- Takes a packet off its link. -/
def remove (x : Exchange σ π) (a : Arrival π) : Exchange σ π :=
  { x with
    links := (x.links.map fun k =>
      if k.source = a.source && k.target = a.target then
        { k with packets := k.packets.eraseIdx a.place }
      else k).filter (!·.packets.isEmpty) }

/-- Hands a packet to its target. -/
def arrive (x : Exchange σ π) (handler : Handler σ π) (a : Arrival π) :
    Option (Except OrderError (Output π)) × Exchange σ π :=
  match x.processes[a.source]? with
  | none => (none, x)
  | some source => x.act a.target (handler · source a.packet)

/-- Throws away the packets of a link and tells how many there were. -/
def drop (x : Exchange σ π) (source target : Nat) : Nat × Exchange σ π :=
  let (dropped, links) := x.links.partition fun k => k.source = source && k.target = target
  ((dropped.flatMap (·.packets)).length, { x with links })

/-- Delivers the oldest packets of the links in turn, at most `fuel` of them, until none is under
way. Tells how many it delivered. -/
def settle (x : Exchange σ π) (handler : Handler σ π) (link : Nat) : Nat → Nat × Exchange σ π
  | 0 => (0, x)
  | fuel + 1 =>
    match x.choose? link 0 with
    | none => (0, x)
    | some a =>
      let (n, x) := ((x.remove a).arrive handler a).2.settle handler (link + 1) fuel
      (n + 1, x)

end Exchange

end Multicast
