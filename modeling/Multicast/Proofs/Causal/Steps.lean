import Multicast.Proofs.Causal.Events
import Multicast.Proofs.Fallible

/-! The steps that the operations of a causal layer are made of: a call takes one step of its own
and then starts queued messages. -/
namespace Multicast.CausalLayer

/-- A message to these destinations is neither refused nor handed back. -/
structure Accepts (l : CausalLayer) (destinations : List Proc) : Prop where
  ready : l.initialized = true
  some : destinations ≠ []
  members : ∀ p ∈ destinations, p ∈ l.members
  room : l.outstanding < l.maxOutstanding

/-- The layer hears a packet from `p`. -/
structure Hears (l : CausalLayer) (p : Proc) : Prop where
  ready : l.initialized = true
  member : p ∈ l.members

inductive Step (l : CausalLayer) :
    Option CausalCall → List CausalEvent → CausalLayer → Prop
  | drain {r : CausalRequest} {q : List CausalRequest} (idle : l.pending = [])
      (queued : l.queue = r :: q) :
      Step l none (l.startEvents r) { (l.start r).2 with queue := q }
  | init {c : CausalCall} {members : List Proc}
      (call : c = .init members ∨ c = .view members) (fresh : l.initialized = false)
      (nodup : members.Nodup) :
      Step l (some c) [.moved members] { l with initialized := true, members }
  | view {members : List Proc} (ready : l.initialized = true) (nodup : members.Nodup) :
      Step l (some (.view members)) (.moved members :: completions (l.moveTo members).1)
        (l.moveTo members).2
  | start {payload : Bytes} {destinations : List Proc} (accepts : l.Accepts destinations)
      (idle : l.pending = []) :
      Step l (some (.send payload destinations))
        (l.startEvents ⟨payload, Proc.firsts destinations⟩)
        (l.start ⟨payload, Proc.firsts destinations⟩).2
  | enqueue {payload : Bytes} {destinations : List Proc} (accepts : l.Accepts destinations)
      (busy : l.pending ≠ []) :
      Step l (some (.send payload destinations)) []
        { l with queue := l.queue ++ [⟨payload, Proc.firsts destinations⟩] }
  | deliver {source : Proc} {id : MessageId} {destinations : List Proc} {payload : Bytes}
      {delivered : Delivered} (hears : l.Hears source)
      (fresh : l.delivered.insert? id = some delivered) :
      Step l (some (.deliver source (.send id destinations payload)))
        [.delivered id payload (l.informed source id destinations) l.members]
        ({ l with
          delivered
          early := l.early.filter (·.id ≠ id)
          stats := { l.stats with delivered := l.stats.delivered + 1 } }.await id
            (l.residual id destinations))
  | duplicate {source : Proc} {id : MessageId} {destinations : List Proc} {payload : Bytes}
      (hears : l.Hears source) (known : l.delivered.insert? id = none) :
      Step l (some (.deliver source (.send id destinations payload))) []
        { l with stats := { l.stats with duplicates := l.stats.duplicates + 1 } }
  | release {source : Proc} {id : MessageId} (hears : l.Hears source)
      (pending : l.pending.has id = true) :
      Step l (some (.deliver source (.ack id))) (completions (l.release (· = id) source).1)
        (l.release (· = id) source).2
  | ignore {source : Proc} {id : MessageId} (hears : l.Hears source)
      (pending : l.pending.has id = false) (settled : l.settled id = true) :
      Step l (some (.deliver source (.ack id))) [] l
  | early {source : Proc} {id : MessageId} (hears : l.Hears source)
      (pending : l.pending.has id = false) (settled : l.settled id = false) :
      Step l (some (.deliver source (.ack id))) ((l.evictions id).map .evicted)
        (l.recordEarly source id)

/-- Messages from the queue are started. -/
inductive Drains : CausalLayer → List CausalEvent → CausalLayer → Prop
  | done {l : CausalLayer} : Drains l [] l
  | step {l m n : CausalLayer} {es fs : List CausalEvent} (step : Step l none es m)
      (rest : Drains m fs n) : Drains l (es ++ fs) n

variable {l l' m n : CausalLayer} {c : CausalCall} {i : MessageId} {p : Proc}
  {r : CausalRequest} {q : List CausalRequest} {o : CausalOutput} {es fs : List CausalEvent}

theorem start_withQueue :
    ({ l with queue := q }.start r).2 = { (l.start r).2 with queue := q } := by
  by_cases h : l.here ∈ r.destinations
  · simp only [start, if_pos h, await]
    split <;> rfl
  · simp only [start, if_neg h, await]
    split <;> rfl

theorem drains_startAll :
    Drains { l with queue := q } (l.drainEvents q) (l.startAll q).2 := by
  induction q generalizing l with
  | nil => exact .done
  | cons r q ih =>
    by_cases h : l.pending = []
    · have hs : Step { l with queue := r :: q } none (l.startEvents r)
          { (l.start r).2 with queue := q } := by
        have := Step.drain (l := { l with queue := r :: q }) h rfl
        rwa [start_withQueue] at this
      have he : l.drainEvents (r :: q) =
          l.startEvents r ++ (l.start r).2.drainEvents q := if_pos h
      have hl : (l.startAll (r :: q)).2 = ((l.start r).2.startAll q).2 := by
        rw [startAll, if_pos h]
      rw [he, hl]
      exact .step hs ih
    · have he : l.drainEvents (r :: q) = [] := if_neg h
      have hl : (l.startAll (r :: q)).2 = { l with queue := r :: q } := by
        rw [startAll, if_neg h]
      rw [he, hl]
      exact .done

theorem drains_drainQueue : Drains l (l.drainEvents l.queue) l.drainQueue.2 :=
  drains_startAll (q := l.queue)

theorem outputs_step_drain (hes : CausalEvent.outputs es = o) :
    CausalEvent.outputs (es ++ l.drainEvents l.queue) = o ++ l.drainQueue.1 := by
  rw [outputs_append, hes, outputs_drainEvents, drainQueue]

/-- The call is one step and a drain of the queue, and the output is that of the events. -/
def Performs (l : CausalLayer) (c : CausalCall) (o : CausalOutput) (l' : CausalLayer) : Prop :=
  ∃ es m fs, Step l (some c) es m ∧ Drains m fs l' ∧ l.eventsOf c = es ++ fs ∧
    CausalEvent.outputs (es ++ fs) = o

theorem performs_init {members : List Proc} (hc : c = .init members ∨ c = .view members)
    (he : l.eventsOf c = [.moved members]) (h : l.init members = .ok (o, l')) :
    l.Performs c o l' := by
  unfold CausalLayer.init at h
  split at h
  · cases h
  · rename_i hi
    split at h
    · cases h
    · rename_i hd
      cases h
      refine ⟨[.moved members], _, [], .init hc (by simpa using hi)
        (Proc.firstRepeated?_eq_none.mp hd), .done, he, ?_⟩
      rfl

theorem performs_send {payload : Bytes} {destinations : List Proc}
    (h : l.send payload destinations = .ok (o, l')) :
    l.Performs (.send payload destinations) o l' := by
  unfold CausalLayer.send at h
  split at h
  · cases h
  rename_i hi
  split at h
  · cases h
  rename_i hne
  dsimp only at h
  split at h
  · cases h
  rename_i hm
  split at h
  · cases h
  rename_i hr
  have ha : l.Accepts destinations := by
    refine ⟨by simpa using hi, hne, ?_, Nat.lt_of_not_le hr⟩
    intro p hp
    have := List.find?_eq_none.mp hm p (Proc.mem_firsts.mpr hp)
    simpa using this
  split at h
  · rename_i hidle
    cases h
    refine ⟨_, _, _, .start ha hidle, drains_drainQueue, ?_, outputs_step_drain outputs_startEvents⟩
    rw [eventsOf, if_pos hidle, start_queue]
  · rename_i hbusy
    cases h
    refine ⟨[], _, [], .enqueue ha hbusy, .done, if_neg hbusy, rfl⟩

theorem performs_deliver {packet : CausalPacket} (h : l.deliver p packet = .ok (o, l')) :
    l.Performs (.deliver p packet) o l' := by
  unfold CausalLayer.deliver at h
  split at h
  · cases h
  rename_i hi
  split at h
  · cases h
  rename_i hm
  have hears : l.Hears p := ⟨by simpa using hi, by simpa using hm⟩
  cases packet with
  | send id destinations payload =>
    simp only [Except.ok.injEq] at h
    unfold onSend at h
    split at h
    · rename_i hk
      cases h
      refine ⟨[], _, [], .duplicate hears hk, .done, if_pos hk, rfl⟩
    · rename_i d hk
      cases h
      refine ⟨_, _, [], .deliver hears hk, .done, ?_, ?_⟩
      · rw [eventsOf, packetEvents, if_neg (by simp [hk]), List.append_nil]
      · apply Output.ext <;> simp [CausalEvent.outputs, CausalEvent.output, informed]
  | ack id =>
    simp only [Except.ok.injEq] at h
    unfold onAck at h
    split at h
    · rename_i hp
      cases h
      refine ⟨_, _, _, .release hears hp, drains_drainQueue, ?_,
        outputs_step_drain (outputs_completions rfl)⟩
      rw [eventsOf, packetEvents, if_pos hp]
    rename_i hp
    have hp : l.pending.has id = false := by simpa using hp
    split at h
    · rename_i hs
      cases h
      simp only [Bool.and_eq_true, decide_eq_true_eq] at hs
      have hs : l.settled id = true := by simp [settled, hs.1, hs.2]
      refine ⟨[], _, [], .ignore hears hp hs, .done, ?_, rfl⟩
      simp [eventsOf, packetEvents, hp, hs]
    rename_i hs₁
    split at h
    · rename_i hs
      cases h
      simp only [Bool.and_eq_true, decide_eq_true_eq] at hs
      have hs : l.settled id = true := by simp [settled, hs.1, hs.2]
      refine ⟨[], _, [], .ignore hears hp hs, .done, ?_, rfl⟩
      simp [eventsOf, packetEvents, hp, hs]
    · rename_i hs₂
      cases h
      have hs : l.settled id = false := by
        unfold settled
        split <;> simp_all
      refine ⟨_, _, [], .early hears hp hs, .done, ?_, ?_⟩
      · simp [eventsOf, packetEvents, hp, hs]
      · rw [List.append_nil, outputs_evictions]

theorem performs_view {members : List Proc} (h : l.applyView members = .ok (o, l')) :
    l.Performs (.view members) o l' := by
  unfold applyView at h
  split at h
  · rename_i hi
    exact performs_init (Or.inr rfl) (if_neg (by simpa using hi)) h
  rename_i hi
  have hi : l.initialized = true := by simpa using hi
  split at h
  · cases h
  rename_i hd
  cases h
  refine ⟨_, _, _, .view hi (Proc.firstRepeated?_eq_none.mp hd), drains_drainQueue, ?_, ?_⟩
  · rw [eventsOf, if_pos hi]
  · rw [List.cons_append, CausalEvent.outputs, outputs_step_drain
      (outputs_completions moveTo_output)]
    have hd : (l.moveTo members).2.drainQueue.1.directives = [] := startAll_directives
    have hm : (l.moveTo members).1.directives = [] := by rw [moveTo_output]
    apply Output.ext
    · exact (List.append_nil _).symm
    · exact (List.append_nil _).symm
    · change [members] ++ ((l.moveTo members).1.directives ++
        (l.moveTo members).2.drainQueue.1.directives) = (l.moveTo members).1.directives ++
        (l.moveTo members).2.drainQueue.1.directives ++ [members]
      rw [hm, hd]
      rfl
    · exact (List.append_nil _).symm

/-- A call that is not refused is one step and a drain of the queue. -/
theorem call_ok (h : l.call c = .ok (o, l')) : ∃ es m fs, Step l (some c) es m ∧
    Drains m fs l' ∧ l.events c = es ++ fs ∧ CausalEvent.outputs (es ++ fs) = o := by
  have he : l.events c = l.eventsOf c := by simp only [events, h]
  rw [he]
  cases c with
  | init members => exact performs_init (Or.inl rfl) rfl (Fallible.mapError_eq_ok.mp h)
  | send payload destinations => exact performs_send h
  | deliver source packet => exact performs_deliver (Fallible.mapError_eq_ok.mp h)
  | view members => exact performs_view (Fallible.mapError_eq_ok.mp h)

/-- The output of a call is that of its events. -/
theorem outputs_events (h : l.call c = .ok (o, l')) : CausalEvent.outputs (l.events c) = o := by
  obtain ⟨es, m, fs, -, -, he, ho⟩ := call_ok h
  rw [he, ho]

/-! ### Messages that are handed back -/

/-- A destination counts once, so its repetitions can be left out of a call. -/
theorem send_firsts {payload : Bytes} {destinations : List Proc} :
    l.send payload (Proc.firsts destinations) = l.send payload destinations := by
  have hsame : Proc.firsts (Proc.firsts destinations) = Proc.firsts destinations :=
    Proc.firsts_of_nodup Proc.nodup_firsts
  have hnone : Proc.firsts destinations = [] ↔ destinations = [] := by
    simp only [List.eq_nil_iff_forall_not_mem, Proc.mem_firsts]
  simp only [send, hsame, hnone]

/-- Only a full window makes a layer hand a message back, with each of its destinations once. -/
theorem of_windowFull {payload : Bytes} {destinations : List Proc} {outstanding : Nat}
    {r : CausalRequest} (h : l.send payload destinations = .error (.windowFull outstanding r)) :
    r = ⟨payload, Proc.firsts destinations⟩ ∧ l.maxOutstanding ≤ l.outstanding := by
  simp only [send] at h
  split at h
  · cases h
  split at h
  · cases h
  split at h
  · cases h
  split at h
  · rename_i hfull
    cases h
    exact ⟨rfl, hfull⟩
  split at h <;> cases h

end Multicast.CausalLayer
