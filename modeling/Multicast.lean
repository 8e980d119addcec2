import Multicast.Main
import Multicast.Proofs.Causal.Events
import Multicast.Proofs.Causal.Steps
import Multicast.Proofs.Causal.Effects
import Multicast.Proofs.Causal.Members
import Multicast.Proofs.Causal.Group
import Multicast.Proofs.Causal.Gate
import Multicast.Proofs.Causal.Lists
import Multicast.Proofs.Causal.FixedGroup
import Multicast.Proofs.Causal.Growth
import Multicast.Proofs.Causal.Recall
import Multicast.Proofs.Causal.Departure
import Multicast.Proofs.Causal.Ledger
import Multicast.Proofs.Causal.Account
import Multicast.Proofs.Causal.Quiescence
import Multicast.Proofs.Causal.Early
import Multicast.Proofs.Causal.Sends
import Multicast.Proofs.Causal.Repeats
import Multicast.Proofs.Causal.EarlyTable
import Multicast.Proofs.Causal.Bookkeeping
import Multicast.Proofs.Causal.Exchange
import Multicast.Proofs.Fifo.Source
import Multicast.Proofs.Fifo.Calls
import Multicast.Proofs.Fifo.Group
import Multicast.Proofs.Fifo.Stream
import Multicast.Proofs.Fifo.Delivery
import Multicast.Proofs.Fifo.Views
import Multicast.Proofs.Fifo.Bookkeeping
import Multicast.Proofs.Membership.Agreed
import Multicast.Proofs.Membership.Agreement
import Multicast.Proofs.Membership.EarlyTransfer
import Multicast.Proofs.Membership.Sponsor
import Multicast.Proofs.Membership.Waiting
import Multicast.Proofs.Membership.Lockstep
import Multicast.Proofs.InPlace.Basic
import Multicast.Proofs.InPlace.Fifo
import Multicast.Proofs.InPlace.Causal
import Multicast.Proofs.InPlace.Membership
import Multicast.Proofs.InPlace.Refusals
import Multicast.Proofs.Wire.Frames
import Multicast.Proofs.Wire.Framing
import Multicast.Proofs.Wire.Envelopes
import Multicast.Proofs.Wire.Codec
import Multicast.Proofs.Wire.Handshakes
import Multicast.Proofs.Net.TieBreak
import Multicast.Proofs.Net.Inbound
import Multicast.Proofs.Net.Inflow
import Multicast.Proofs.Net.Steady
import Multicast.Proofs.Net.Asking
import Multicast.Proofs.Net.Journal
import Multicast.Proofs.Net.Greeting
import Multicast.Proofs.Net.Encounter
import Multicast.Proofs.Net.Meeting
import Multicast.Proofs.Net.Outcome
import Multicast.Proofs.Net.Chunks
import Multicast.Proofs.Node.PeerTable
import Multicast.Proofs.Node.Duplicates
import Multicast.Proofs.Node.Custody
import Multicast.Proofs.Node.Deeds
import Multicast.Proofs.Node.Held
import Multicast.Proofs.Node.Admission
import Multicast.Proofs.Node.Linked
import Multicast.Proofs.Node.Turn
import Multicast.Proofs.Node.Pair
import Multicast.Proofs.Node.Switchboard
import Multicast.Proofs.Node.Orderly
import Multicast.Proofs.Node.Slot
import Multicast.Proofs.InPlace.Handshake
import Multicast.Proofs.Text.Identity
import Multicast.Proofs.Settings.Overrides
import Multicast.Proofs.InPlace.Delivered
