import Multicast.Proofs.Fifo.Group

/-! The stream from one process of a group to another, over a network that reorders, repeats and
loses packets. -/
namespace Multicast.FifoGroup
open FifoRecord

variable {g : FifoGroup} {p a b : Proc} {c : FifoCall} {base : Nat} {start : Option Nat}
  {actions : List (Proc × FifoCall)}

/-- The network brings to `b` only what `a` has sent it, and neither of them changes its list. -/
def Carried (a b : Proc) (g : FifoGroup) : List (Proc × FifoCall) → Prop
  | [] => True
  | (p, c) :: actions =>
    (p = a ∨ p = b → c.isTraffic = true) ∧
      (p = b → ∀ packet ∈ c.packetsFrom a, packet ∈ packets g.log a b) ∧
      Carried a b (g.step (p, c)) actions

instance decidableCarried : (g : FifoGroup) → (actions : List (Proc × FifoCall)) →
    Decidable (Carried a b g actions)
  | _, [] => isTrue trivial
  | g, (p, c) :: actions =>
    have := decidableCarried (g.step (p, c)) actions
    inferInstanceAs (Decidable ((p = a ∨ p = b → c.isTraffic = true) ∧
      (p = b → ∀ packet ∈ c.packetsFrom a, packet ∈ packets g.log a b) ∧
      Carried a b (g.step (p, c)) actions))

/-- The numbers of the stream from `a` to `b` go on from `start`, if `a` has a place for it. -/
structure Numbered (a b : Proc) (start : Option Nat) (g : FifoGroup) : Prop where
  number : (g.layers a).sent.get? b = start.map (· + (payloads g.log a b).length)
  packets : packets g.log a b = numbered (start.getD 0) (payloads g.log a b)
  silent : start = none → payloads g.log a b = []

/-- What `b` keeps of `a` follows the stream, which is numbered from `base`. -/
structure Followed (a b : Proc) (base : Nat) (g : FifoGroup) : Prop where
  initialized : (g.layers b).initialized = true
  source : ∃ s, (g.layers b).sources.get? a = some s ∧
    s.Follows base (payloads g.log a b) (delivered g.log a b) ∧
    ∀ m, s.Has base m ↔ m ∈ (accepted g.log a b).map (·.sequence)
  unbounded : (g.layers b).limit = none → arrived g.log a b ⊆ accepted g.log a b

theorem payloads_step : payloads (g.step (p, c)).log a b =
    payloads g.log a b ++ if p = a then (g.layers p).sending c b else [] :=
  collect_step

theorem packets_step : FifoRecord.packets (g.step (p, c)).log a b = FifoRecord.packets g.log a b ++
    if p = a then ((g.layers p).answer c).elim [] (·.packetsTo b) else [] :=
  collect_step

theorem arrived_step : arrived (g.step (p, c)).log a b =
    arrived g.log a b ++ if p = b then c.packetsFrom a else [] :=
  collect_step

theorem accepted_step : accepted (g.step (p, c)).log a b = accepted g.log a b ++
    if p = b then ((g.layers p).answer c).elim [] fun _ => c.packetsFrom a else [] :=
  collect_step

theorem delivered_step : delivered (g.step (p, c)).log a b = delivered g.log a b ++
    if p = b then ((g.layers p).answer c).elim [] (·.deliveredFrom a) else [] :=
  collect_step

theorem numbered_step (hc : p = a → c.isTraffic = true) (h : g.Numbered a b start) :
    (g.step (p, c)).Numbered a b start := by
  by_cases hp : p = a
  · subst hp
    obtain ⟨hsent, hpost, hsilent⟩ := (g.layers p).sent_after (c := c) (p := b) (hc rfl)
    have hnone : start = none → (g.layers p).sending c b = [] := by
      intro hstart
      apply hsilent
      rw [h.number, hstart]
      rfl
    refine ⟨?_, ?_, ?_⟩
    · rw [payloads_step, if_pos rfl, step_layers_self, hsent, h.number, Option.map_map,
        List.length_append]
      cases start with
      | none => rfl
      | some n => exact congrArg some (Nat.add_assoc _ _ _)
    · rw [packets_step, payloads_step, if_pos rfl, if_pos rfl, h.packets, hpost, numbered_append,
        h.number]
      cases start with
      | none =>
        rw [hnone rfl]
        rfl
      | some n => rfl
    · intro hstart
      rw [payloads_step, if_pos rfl, h.silent hstart, hnone hstart]
      rfl
  · have hpayloads : payloads (g.step (p, c)).log a b = payloads g.log a b := by
      rw [payloads_step, if_neg hp, List.append_nil]
    refine ⟨?_, ?_, ?_⟩
    · rw [hpayloads, step_layers_of_ne (Ne.symm hp)]
      exact h.number
    · rw [packets_step, if_neg hp, List.append_nil, hpayloads]
      exact h.packets
    · rw [hpayloads]
      exact h.silent

/-- What the layer of `b` makes of a packet of `a`, from a source that follows the stream. -/
theorem followed_receipt {l : FifoLayer} {s : FifoSource} {sent got : List Bytes}
    {packet : FifoPacket} (hl : l.initialized = true) (hs : l.sources.get? a = some s)
    (hf : s.Follows base sent got) (hsent : packet ∈ numbered base sent) :
    ∃ s', (l.after (.deliver a packet)).sources.get? a = some s' ∧
      s'.Follows base sent
        (got ++ (l.answer (.deliver a packet)).elim [] (·.deliveredFrom a)) ∧
      (∀ m, s'.Has base m ↔ s.Has base m ∨
        ((l.answer (.deliver a packet)).isSome = true ∧ m = packet.sequence)) ∧
      (l.limit = none → (l.answer (.deliver a packet)).isSome = true) := by
  rw [mem_numbered] at hsent
  have hbase : base ≤ packet.sequence := (List.mk_mem_zipIdx_iff_le_and_getElem?_sub.mp hsent).1
  have hr : l.Receipt a s packet (l.call (.deliver a packet)) := FifoLayer.receipt hl hs
  generalize hcall : l.call (.deliver a packet) = r at hr
  cases hr with
  | again known =>
    obtain ⟨hafter, hanswer⟩ := FifoLayer.after_of_ok hcall
    rw [hafter, hanswer]
    refine ⟨s, hs, ?_, ?_, fun _ => rfl⟩
    · simpa [FifoOutput.deliveredFrom] using hf
    · intro m
      constructor
      · exact Or.inl
      · rintro (hm | ⟨-, rfl⟩)
        · exact hm
        · exact ⟨hbase, known⟩
  | full early fresh bounded =>
    obtain ⟨hafter, hanswer⟩ := FifoLayer.after_of_error hcall
    rw [hafter, hanswer]
    refine ⟨s, hs, ?_, ?_, ?_⟩
    · simpa using hf
    · simp
    · intro hlimit
      rw [hlimit] at bounded
      cases bounded
  | early early fresh =>
    obtain ⟨hafter, hanswer⟩ := FifoLayer.after_of_ok hcall
    rw [hafter, hanswer]
    refine ⟨s.keep packet, ?_, ?_, ?_, fun _ => rfl⟩
    · rw [Table.get?_put, if_pos rfl]
    · simpa [FifoOutput.deliveredFrom] using hf.keep early fresh hsent
    · intro m
      rw [FifoSource.has_keep fresh hbase]
      simp
  | @next payloads s' stats turn drain =>
    obtain ⟨hafter, hanswer⟩ := FifoLayer.after_of_ok hcall
    rw [hafter, hanswer]
    rw [turn] at hsent
    obtain ⟨hfollows, hhas⟩ := hf.drain hsent drain
    refine ⟨s', ?_, ?_, ?_, fun _ => rfl⟩
    · rw [Table.get?_put, if_pos rfl]
    · rwa [Option.elim_some, FifoLayer.deliveredFrom_own]
    · intro m
      rw [hhas, turn]
      simp

/-- The stream goes on while nothing of it comes to `b`. -/
theorem Followed.stays {g' : FifoGroup} (h : g.Followed a b base)
    (hpayloads : payloads g.log a b <+: payloads g'.log a b)
    (hinitialized : (g'.layers b).initialized = (g.layers b).initialized)
    (hlimit : (g'.layers b).limit = (g.layers b).limit)
    (hsource : (g'.layers b).sources.get? a = (g.layers b).sources.get? a)
    (hdelivered : delivered g'.log a b = delivered g.log a b)
    (haccepted : accepted g'.log a b = accepted g.log a b)
    (harrived : arrived g'.log a b = arrived g.log a b) : g'.Followed a b base := by
  obtain ⟨s, hs, hf, hhas⟩ := h.source
  refine ⟨?_, ⟨s, ?_, ?_, ?_⟩, ?_⟩
  · rw [hinitialized]
    exact h.initialized
  · rwa [hsource]
  · rw [hdelivered]
    exact hf.mono hpayloads
  · rw [haccepted]
    exact hhas
  · rw [hlimit, harrived, haccepted]
    exact h.unbounded

/-- A packet of the stream comes to `b`. -/
theorem Followed.receives {packet : FifoPacket} (h : g.Followed a b base)
    (hpacket : packet ∈ numbered base (payloads g.log a b)) :
    (g.step (b, .deliver a packet)).Followed a b base := by
  have hpayloads : payloads g.log a b <+: payloads (g.step (b, .deliver a packet)).log a b := by
    rw [payloads_step]
    exact List.prefix_append _ _
  obtain ⟨hinitialized, hlimit, -⟩ :=
    (g.layers b).traffic_after (c := .deliver a packet) rfl
  obtain ⟨s, hs, hf, hhas⟩ := h.source
  obtain ⟨s', hs', hf', hhas', hopen⟩ := followed_receipt h.initialized hs hf hpacket
  have hself : FifoCall.packetsFrom a (.deliver a packet) = [packet] := if_pos rfl
  refine ⟨?_, ⟨s', ?_, ?_, ?_⟩, ?_⟩
  · rw [step_layers_self, hinitialized]
    exact h.initialized
  · rwa [step_layers_self]
  · rw [delivered_step, if_pos rfl]
    exact hf'.mono hpayloads
  · intro m
    rw [hhas', hhas, accepted_step, if_pos rfl, hself]
    cases (g.layers b).answer (.deliver a packet) <;> simp [eq_comm]
  · rw [step_layers_self, hlimit, arrived_step, accepted_step, if_pos rfl, if_pos rfl]
    intro hnone
    obtain ⟨o, ho⟩ := Option.isSome_iff_exists.mp (hopen hnone)
    rw [ho]
    exact List.append_subset.mpr
      ⟨List.subset_append_of_subset_left _ (h.unbounded hnone), List.subset_append_right _ _⟩

theorem followed_step (hc : p = b → c.isTraffic = true)
    (hsent : p = b → ∀ packet ∈ c.packetsFrom a, packet ∈ numbered base (payloads g.log a b))
    (h : g.Followed a b base) : (g.step (p, c)).Followed a b base := by
  have hpayloads : payloads g.log a b <+: payloads (g.step (p, c)).log a b := by
    rw [payloads_step]
    exact List.prefix_append _ _
  by_cases hp : p = b
  · subst hp
    rcases c.packetsFrom_cases a with hnone | ⟨packet, rfl, hpacket⟩
    · obtain ⟨hinitialized, hlimit, -⟩ := (g.layers p).traffic_after (c := c) (hc rfl)
      obtain ⟨hsource, hsilent⟩ := (g.layers p).source_after (c := c) (hc rfl) hnone
      refine h.stays hpayloads ?_ ?_ ?_ ?_ ?_ ?_
      · rw [step_layers_self, hinitialized]
      · rw [step_layers_self, hlimit]
      · rw [step_layers_self, hsource]
      · rw [delivered_step, if_pos rfl, hsilent, List.append_nil]
      · rw [accepted_step, if_pos rfl, hnone]
        cases (g.layers p).answer c <;> exact List.append_nil _
      · rw [arrived_step, if_pos rfl, hnone, List.append_nil]
    · refine h.receives (hsent rfl packet ?_)
      rw [hpacket]
      exact List.mem_singleton.mpr rfl
  · have hlayer : (g.step (p, c)).layers b = g.layers b := step_layers_of_ne (Ne.symm hp)
    refine h.stays hpayloads ?_ ?_ ?_ ?_ ?_ ?_
    · rw [hlayer]
    · rw [hlayer]
    · rw [hlayer]
    · rw [delivered_step, if_neg hp, List.append_nil]
    · rw [accepted_step, if_neg hp, List.append_nil]
    · rw [arrived_step, if_neg hp, List.append_nil]

theorem numbered_run (hcarried : g.Carried a b actions) (hn : g.Numbered a b start) :
    (g.run actions).Numbered a b start := by
  induction actions generalizing g with
  | nil => exact hn
  | cons x actions ih =>
    obtain ⟨p, c⟩ := x
    obtain ⟨htraffic, -, hrest⟩ := hcarried
    exact ih hrest (numbered_step (fun hp => htraffic (Or.inl hp)) hn)

theorem Followed.fresh (hlog : g.log = []) (hinitialized : (g.layers b).initialized = true)
    (hs : (g.layers b).sources.get? a = some ⟨base, []⟩) : g.Followed a b base where
  initialized := hinitialized
  source := by
    rw [hlog]
    exact ⟨⟨base, []⟩, hs, FifoSource.Follows.start,
      fun m => iff_of_false FifoSource.not_has_start List.not_mem_nil⟩
  unbounded _ := by
    rw [hlog]
    exact List.Subset.refl _

/-- Whatever the network does, the stream is followed. -/
theorem followed_run (hcarried : g.Carried a b actions) (hn : g.Numbered a b start)
    (hstart : ∀ n, start = some n → n = base) (hf : g.Followed a b base) :
    (g.run actions).Followed a b base := by
  induction actions generalizing g with
  | nil => exact hf
  | cons x actions ih =>
    obtain ⟨p, c⟩ := x
    obtain ⟨htraffic, hsent, hrest⟩ := hcarried
    refine ih hrest (numbered_step (fun hp => htraffic (Or.inl hp)) hn)
      (followed_step (fun hp => htraffic (Or.inr hp)) ?_ hf)
    intro hp packet hpacket
    have hmem := hsent hp packet hpacket
    rw [hn.packets] at hmem
    cases start with
    | none =>
      rw [hn.silent rfl] at hmem
      cases hmem
    | some n =>
      rw [← hstart n rfl]
      exact hmem

/-- Once `b` has accepted all packets it has delivered all payloads, and nothing waits. -/
theorem Followed.complete (hf : g.Followed a b base) (hn : g.Numbered a b start)
    (hstart : ∀ n, start = some n → n = base)
    (hall : packets g.log a b ⊆ accepted g.log a b) :
    delivered g.log a b = payloads g.log a b ∧
      (g.layers b).sources.get? a = some ⟨base + (payloads g.log a b).length, []⟩ := by
  obtain ⟨⟨n, buffer⟩, hs, hfollows, hhas⟩ := hf.source
  have hexpected : n = base + (delivered g.log a b).length := hfollows.expected
  -- The number that is expected is not that of a packet, for it has not been accepted.
  have hlast : ¬ (delivered g.log a b).length < (payloads g.log a b).length := by
    intro hlt
    cases start with
    | none =>
      rw [hn.silent rfl] at hlt
      exact Nat.not_lt_zero _ hlt
    | some m =>
      obtain rfl : m = base := hstart m rfl
      have hpacket : (⟨n, (payloads g.log a b)[(delivered g.log a b).length]⟩ : FifoPacket) ∈
          packets g.log a b := by
        rw [hn.packets, mem_numbered]
        refine List.mk_mem_zipIdx_iff_le_and_getElem?_sub.mpr ⟨?_, ?_⟩
        · exact hexpected ▸ Nat.le_add_right _ _
        · dsimp only
          rw [hexpected, Option.getD_some, Nat.add_sub_cancel_left]
          exact List.getElem?_eq_getElem hlt
      exact hfollows.not_has_expected ((hhas n).mpr (List.mem_map.mpr ⟨_, hall hpacket, rfl⟩))
  have hdelivered : delivered g.log a b = payloads g.log a b :=
    hfollows.delivered.eq_of_length_le (Nat.not_lt.mp hlast)
  refine ⟨hdelivered, ?_⟩
  have hempty : buffer = [] := by
    refine List.eq_nil_iff_forall_not_mem.mpr fun x hx => ?_
    obtain ⟨hlt, hpayload⟩ := hfollows.waiting x hx
    have hbound := List.snd_lt_add_of_mem_zipIdx hpayload
    dsimp only at hlt hbound
    omega
  rw [hs, hempty, hexpected, hdelivered]

theorem limit_run (hcarried : g.Carried a b actions) :
    ((g.run actions).layers b).limit = (g.layers b).limit := by
  induction actions generalizing g with
  | nil => rfl
  | cons x actions ih =>
    obtain ⟨p, c⟩ := x
    obtain ⟨htraffic, -, hrest⟩ := hcarried
    refine (ih hrest).trans ?_
    by_cases hp : p = b
    · subst hp
      rw [step_layers_self]
      exact (FifoLayer.traffic_after (htraffic (Or.inr rfl))).2.1
    · rw [step_layers_of_ne (Ne.symm hp)]

end Multicast.FifoGroup
