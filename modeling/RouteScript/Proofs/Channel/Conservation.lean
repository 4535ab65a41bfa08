import RouteScript.Proofs.Channel.Consistency

/-!
# Conservation on shared channels

Under every schedule, the values that have been received and the queue behind them are the values
that have been accepted, and a ticket tells whether the value of its own call has been taken.
-/

namespace RouteScript.Channel.Shared

variable {ι : Type} [DecidableEq ι] {capacity : Nat} {s : Shared ι}

/-! ## Schedules -/

/-- Soundness is kept along every schedule, whatever the order in which the tasks act. -/
theorem sound_foldl (h : s.Sound capacity) (schedule : List (Action ι)) :
    (schedule.foldl act s).Sound capacity := by
  induction schedule generalizing s with
  | nil => exact h
  | cons a schedule ih => exact ih (sound_act h a)

/-- What a schedule has settled, no later action takes back. -/
theorem grows_foldl (s : Shared ι) (schedule : List (Action ι)) :
    s.Grows (schedule.foldl act s) := by
  induction schedule generalizing s with
  | nil => exact .refl s
  | cons a schedule ih => exact (grows_act s a).trans (ih (s.act a))

/-- Every schedule from a new channel leads to a sound state. -/
theorem sound_run (capacity : Nat) (schedule : List (Action ι)) :
    (run capacity schedule).Sound capacity :=
  sound_foldl (sound_new capacity) schedule

theorem grows_run (capacity : Nat) (schedule later : List (Action ι)) :
    (run capacity schedule).Grows (run capacity (schedule ++ later)) := by
  unfold run
  rw [List.foldl_append]
  exact grows_foldl _ later

/-- Under every schedule of any threads, the values received so far and the queue are the values
accepted, in this order, and the counters tell how many they are. The queue never holds more values
than the channel has room for. A closed channel stays closed and accepts nothing more; a call of
`send` that fails finds it closed, and its value is never accepted nor taken; a receiver is told of
the end only if the channel is closed and its queue is empty. -/
theorem run_conserves (capacity : Nat) (schedule : List (Action ι)) :
    let s := run capacity schedule
    s.received ++ s.channel.queue = s.accepted.map Message.value ∧
    s.channel.sent = s.accepted.length ∧
    s.channel.received = s.received.length ∧
    s.channel.sent = s.channel.received + s.channel.queue.length ∧
    s.channel.queue.length ≤ max capacity 1 ∧
    (s.channel.closed = true → ∀ later : List (Action ι),
      (run capacity (schedule ++ later)).channel.closed = true ∧
        (run capacity (schedule ++ later)).accepted = s.accepted) ∧
    (∀ m fault, Event.refused m fault ∈ s.history → fault = .channelClosed ∧
      ∀ later : List (Action ι), m ∉ (run capacity (schedule ++ later)).accepted ∧
        m ∉ (run capacity (schedule ++ later)).taken) ∧
    ∀ i, Event.ended i ∈ s.history → s.channel.closed = true ∧ s.channel.queue = [] := by
  intro s
  obtain ⟨hcapacity, hqueue, haccepted, hreceived, hsent, htaken, hle, -, -, hvouches⟩ :=
    (sound_run capacity schedule).consistent
  refine ⟨?_, hsent, ?_, ?_, ?_, ?_, ?_, ?_⟩
  · rw [hreceived, hqueue, haccepted, List.map_append]
  · rw [htaken, hreceived, List.length_map]
  · rw [hsent, htaken, haccepted, hqueue, List.length_append, List.length_map]
  · rw [hqueue, List.length_map]
    exact hle
  · intro hclosed later
    exact (grows_run capacity schedule later).closed hclosed
  · intro m fault hm
    obtain ⟨hfault, hclosed, hnot⟩ := hvouches _ hm
    refine ⟨hfault, fun later => ?_⟩
    have hlater : m ∉ (run capacity (schedule ++ later)).accepted := by
      rw [((grows_run capacity schedule later).closed hclosed).2]
      exact hnot
    refine ⟨hlater, fun htaken => hlater ?_⟩
    rw [(sound_run capacity (schedule ++ later)).consistent.accepted_eq]
    exact List.mem_append_left _ htaken
  · intro i hi
    exact hvouches _ hi

/-- Two senders on a channel with room for one value: the second one waits, and is refused once the
channel is closed. A receiver still gets the first value, and then the end. -/
theorem run_conserves_closed_early :
    let schedule : List (Action (Fin 3)) :=
      [.call 0 (.send (.int 7)), .turn 0, .call 1 (.send (.int 8)), .turn 1, .call 2 .close,
        .turn 2, .turn 1, .call 2 .recv, .turn 2, .call 2 .recv, .turn 2]
    let s := run 1 schedule
    s.history = [.accepted ⟨0, 0, .int 7⟩, .confirmed ⟨0, 0, .int 7⟩ false, .closed 2,
        .refused ⟨1, 1, .int 8⟩ .channelClosed, .received 2 (.int 7), .ended 2] ∧
      s.received ++ s.channel.queue = s.accepted.map Message.value ∧
      s.channel.closed = true ∧ s.channel.queue = [] := by
  intro schedule s
  have hhistory : s.history = [.accepted ⟨0, 0, .int 7⟩, .confirmed ⟨0, 0, .int 7⟩ false,
      .closed 2, .refused ⟨1, 1, .int 8⟩ .channelClosed, .received 2 (.int 7), .ended 2] := rfl
  have hmem : Event.ended 2 ∈ s.history := by
    rw [hhistory]
    simp
  obtain ⟨hvalues, -, -, -, -, -, -, hended⟩ := run_conserves 1 schedule
  exact ⟨hhistory, hvalues, hended 2 hmem⟩

/-! ## Tickets -/

/-- On a channel without capacity, a sender that waits with a ticket finds as many values received
as its ticket says exactly if the value of its own call has been taken. A call of `send` that has
returned from an open channel has had its value taken; one that has returned because the channel was
closed has its value taken or in the queue. Calls are told apart, and those in line and those taken
are the ones whose values are in the queue and have been received. -/
theorem run_tickets_exact (schedule : List (Action ι)) :
    let s := run 0 schedule
    (∀ i m ticket, s.phase i = .settling m ticket → m.sender = i ∧ m ∈ s.accepted ∧
      (ticket ≤ s.channel.received ↔ m ∈ s.taken)) ∧
    (∀ m, Event.confirmed m false ∈ s.history → m ∈ s.taken) ∧
    (∀ m, Event.confirmed m true ∈ s.history → m ∈ s.taken ∨ m ∈ s.line) ∧
    s.accepted.Nodup ∧
    s.line.map Message.value = s.channel.queue ∧
    s.taken.map Message.value = s.received := by
  intro s
  obtain ⟨hconsistent, hstands⟩ := sound_run 0 schedule
  refine ⟨?_, ?_, ?_, hconsistent.nodup, hconsistent.queue_eq.symm, hconsistent.received_eq.symm⟩
  · intro i m ticket hphase
    have hi := hstands i
    rw [show (run 0 schedule).phase i = .settling m ticket from hphase] at hi
    obtain ⟨hsender, hpos, hm⟩ := hi
    exact ⟨hsender, List.mem_of_getElem? hm, hconsistent.ticket_le_received_iff hpos hm⟩
  · intro m hm
    exact (hconsistent.vouches _ hm).2 hconsistent.capacity_eq rfl
  · intro m hm
    have haccepted := (hconsistent.vouches _ hm).1
    rw [hconsistent.accepted_eq] at haccepted
    exact List.mem_append.mp haccepted

/-- The value of the first sender is taken before it returns. The second sender, of an equal value,
waits until the channel is closed, and leaves its value in the queue. -/
theorem run_tickets_exact_closed_late :
    let schedule : List (Action (Fin 3)) :=
      [.call 0 (.send (.int 7)), .turn 0, .call 1 (.send (.int 7)), .turn 1, .call 2 .recv, .turn 2,
        .turn 0, .turn 1, .call 2 .close, .turn 2]
    let first : Message (Fin 3) := ⟨0, 0, .int 7⟩
    let second : Message (Fin 3) := ⟨1, 1, .int 7⟩
    (run 0 schedule).phase 1 = .settling second 2 ∧ second ∉ (run 0 schedule).taken ∧
      first ∈ (run 0 (schedule ++ [.turn 1])).taken ∧
      (second ∈ (run 0 (schedule ++ [.turn 1])).taken ∨
        second ∈ (run 0 (schedule ++ [.turn 1])).line) := by
  intro schedule first second
  have hphase : (run 0 schedule).phase 1 = .settling second 2 := rfl
  have hhistory : (run 0 (schedule ++ [.turn 1])).history = [.accepted first, .received 2 (.int 7),
      .confirmed first false, .accepted second, .closed 2, .confirmed second true] := rfl
  have hwaits := ((run_tickets_exact schedule).1 1 second 2 hphase).2.2
  obtain ⟨-, htaken, hkept, -⟩ := run_tickets_exact (schedule ++ [.turn 1])
  refine ⟨hphase, mt hwaits.mpr (by decide), htaken first ?_, hkept second ?_⟩
  · rw [hhistory]
    simp
  · rw [hhistory]
    simp

end RouteScript.Channel.Shared
