import RouteScript.Proofs.Channel.Shared

/-!
# What one action does to a shared channel

An action takes nothing back: a closed channel stays closed and accepts nothing, and what a call has
reported stays true. It also keeps the channel in agreement with what has happened on it.
-/

namespace RouteScript.Channel

variable {ι : Type}

/-! ## Single operations -/

/-- What an offer does: a closed channel refuses it, a full one makes it wait, any other takes it at
the end of the queue. -/
theorem offer?_cases (c : Channel) (value : Value) :
    (c.closed = true ∧ c.offer? value = some (.error .channelClosed)) ∨
    (c.closed = false ∧ c.limit ≤ c.queue.length ∧ c.offer? value = none) ∨
    (c.closed = false ∧ c.queue.length < c.limit ∧ c.offer? value =
      some (.ok (c.sent + 1, { c with queue := c.queue ++ [value], sent := c.sent + 1 }))) := by
  cases hclosed : c.closed with
  | true => simp [offer?, hclosed]
  | false =>
    by_cases hfull : c.limit ≤ c.queue.length
    · simp [offer?, isFull, size, hclosed, hfull]
    · simp [offer?, isFull, size, hclosed, hfull, Nat.lt_of_not_le hfull]

/-- What a receiver gets: the oldest value, or the end of a closed channel, or nothing yet. -/
theorem take?_cases (c : Channel) :
    (∃ value rest, c.queue = value :: rest ∧ c.take? =
      some (some value, { c with queue := rest, received := c.received + 1 })) ∨
    (c.queue = [] ∧ c.closed = true ∧ c.take? = some (none, c)) ∨
    (c.queue = [] ∧ c.closed = false ∧ c.take? = none) := by
  cases hqueue : c.queue with
  | nil => cases hclosed : c.closed <;> simp [take?, hqueue, hclosed]
  | cons value rest => exact .inl ⟨value, rest, rfl, by simp [take?, hqueue]⟩

/-- What closing does: a second close is a fault. -/
theorem close_cases (c : Channel) :
    (c.closed = true ∧ c.close = .error (.invalid .closedTwice)) ∨
    (c.closed = false ∧ c.close = .ok { c with closed := true }) := by
  cases hclosed : c.closed <;> simp [close, hclosed]

namespace Shared

variable {capacity : Nat} {s s' : Shared ι} {i : ι} {m : Message ι} {ticket : Nat}

/-! ## What no action takes back -/

/-- How a channel can differ later on: a closed channel stays closed and accepts nothing, and calls
that have been accepted or taken stay so. -/
structure Grows (s s' : Shared ι) : Prop where
  capacity_eq : s'.channel.capacity = s.channel.capacity
  accepted : s.accepted <+: s'.accepted
  taken : s.taken <+: s'.taken
  closed : s.channel.closed = true → s'.channel.closed = true ∧ s'.accepted = s.accepted
  drained : s.channel.closed = true → s.channel.queue = [] → s'.channel.queue = []

theorem Grows.refl (s : Shared ι) : s.Grows s where
  capacity_eq := rfl
  accepted := List.prefix_refl _
  taken := List.prefix_refl _
  closed h := ⟨h, rfl⟩
  drained _ h := h

theorem Grows.trans {s₁ s₂ s₃ : Shared ι} (h : s₁.Grows s₂) (h' : s₂.Grows s₃) :
    s₁.Grows s₃ where
  capacity_eq := h'.capacity_eq.trans h.capacity_eq
  accepted := h.accepted.trans h'.accepted
  taken := h.taken.trans h'.taken
  closed hclosed := by
    obtain ⟨hclosed₂, haccepted₂⟩ := h.closed hclosed
    obtain ⟨hclosed₃, haccepted₃⟩ := h'.closed hclosed₂
    exact ⟨hclosed₃, haccepted₃.trans haccepted₂⟩
  drained hclosed hqueue := h'.drained (h.closed hclosed).1 (h.drained hclosed hqueue)

@[simp] theorem accepted_accept (m : Message ι) (c : Channel) (s : Shared ι) :
    (s.accept m c).accepted = s.accepted ++ [m] := by
  simp [accept, accepted, Event.accepted?]

/-- An open channel may accept a value. -/
theorem grows_accept (hopen : s.channel.closed = false) (m : Message ι) {c : Channel}
    (hcapacity : c.capacity = s.channel.capacity) : s.Grows (s.accept m c) where
  capacity_eq := hcapacity
  accepted := by simp
  taken := List.prefix_refl _
  closed h := by simp [hopen] at h
  drained h := by simp [hopen] at h

@[simp] theorem accepted_deliver (i : ι) (value : Value) (c : Channel) (s : Shared ι) :
    (s.deliver i value c).accepted = s.accepted := by
  simp [deliver, accepted, Event.accepted?]

/-- A delivery takes the oldest value from the queue and adds it to what was received. -/
theorem grows_deliver (i : ι) (value : Value) {rest : List Value}
    (hqueue : s.channel.queue = value :: rest) :
    s.Grows (s.deliver i value
      { s.channel with queue := rest, received := s.channel.received + 1 }) where
  capacity_eq := rfl
  accepted := by simp
  taken := List.prefix_append _ _
  closed h := ⟨h, accepted_deliver ..⟩
  drained _ h := by simp [hqueue] at h

theorem grows_close (hopen : s.channel.closed = false) :
    s.Grows { s with channel := { s.channel with closed := true } } where
  capacity_eq := rfl
  accepted := List.prefix_refl _
  taken := List.prefix_refl _
  closed h := by simp [hopen] at h
  drained h := by simp [hopen] at h

/-- Where the channel and the accepted calls stay, nothing is taken back. -/
theorem Grows.of_eq (hchannel : s'.channel = s.channel) (haccepted : s'.accepted = s.accepted)
    (htaken : s'.taken = s.taken) : s.Grows s' where
  capacity_eq := by rw [hchannel]
  accepted := haccepted ▸ List.prefix_refl _
  taken := htaken ▸ List.prefix_refl _
  closed h := ⟨by rw [hchannel, h], haccepted⟩
  drained _ h := by rw [hchannel, h]

/-! ## Agreement of the channel with what has happened -/

/-- What a report promises: it is true when it is made, and from then on. -/
def Vouches (s : Shared ι) : Event ι → Prop
  | .refused m fault => fault = .channelClosed ∧ s.channel.closed = true ∧ m ∉ s.accepted
  | .confirmed m closed =>
    m ∈ s.accepted ∧ (s.channel.capacity = 0 → closed = false → m ∈ s.taken)
  | .ended _ => s.channel.closed = true ∧ s.channel.queue = []
  | _ => True

/-- Where a call stands: its value has not been accepted, or its ticket is the place of its value
among the accepted ones. -/
def Stands (s : Shared ι) (i : ι) : Phase ι → Prop
  | .offering m => m.sender = i ∧ m.number < s.calls ∧ m ∉ s.accepted
  | .settling m ticket => m.sender = i ∧ 0 < ticket ∧ s.accepted[ticket - 1]? = some m
  | _ => True

structure Consistent (capacity : Nat) (s : Shared ι) : Prop where
  capacity_eq : s.channel.capacity = capacity
  queue_eq : s.channel.queue = s.line.map Message.value
  accepted_eq : s.accepted = s.taken ++ s.line
  received_eq : s.received = s.taken.map Message.value
  sent_eq : s.channel.sent = s.accepted.length
  taken_eq : s.channel.received = s.taken.length
  line_le : s.line.length ≤ max capacity 1
  nodup : s.accepted.Nodup
  numbered : ∀ m ∈ s.accepted, m.number < s.calls
  vouches : ∀ e ∈ s.history, s.Vouches e

/-- What vouches for an event goes on to vouch for it in every later state. -/
theorem Vouches.mono (h : s.Grows s') {e : Event ι} (he : s.Vouches e) : s'.Vouches e := by
  cases e with
  | refused m fault =>
    obtain ⟨hfault, hclosed, hm⟩ := he
    obtain ⟨hclosed', haccepted⟩ := h.closed hclosed
    exact ⟨hfault, hclosed', haccepted ▸ hm⟩
  | confirmed m closed =>
    obtain ⟨hm, htaken⟩ := he
    refine ⟨h.accepted.subset hm, fun hcapacity hopen => h.taken.subset ?_⟩
    exact htaken (h.capacity_eq ▸ hcapacity) hopen
  | ended i => exact ⟨(h.closed he.1).1, h.drained he.1 he.2⟩
  | _ => trivial

/-- A task stands where it stood while only others have messages accepted. -/
theorem Stands.mono {p : Phase ι} (h : s.Stands i p) (hcalls : s.calls ≤ s'.calls)
    {new : List (Message ι)} (haccepted : s'.accepted = s.accepted ++ new)
    (hnew : ∀ m ∈ new, m.sender ≠ i) : s'.Stands i p := by
  cases p with
  | offering m =>
    obtain ⟨hsender, hnumber, hm⟩ := h
    refine ⟨hsender, by omega, ?_⟩
    rw [haccepted, List.mem_append, not_or]
    exact ⟨hm, fun hmem => hnew m hmem hsender⟩
  | settling m ticket =>
    obtain ⟨hsender, hpos, hm⟩ := h
    refine ⟨hsender, hpos, ?_⟩
    rw [haccepted, List.getElem?_append_left (List.getElem?_eq_some_iff.mp hm).1, hm]
  | _ => trivial

theorem Stands.of_accepted_eq {p : Phase ι} (h : s.Stands i p) (hcalls : s.calls ≤ s'.calls)
    (haccepted : s'.accepted = s.accepted) : s'.Stands i p :=
  h.mono hcalls (haccepted.trans (List.append_nil _).symm) (by simp)

/-- The channel agrees with what has happened, and so do all calls. -/
structure Sound (capacity : Nat) (s : Shared ι) : Prop where
  consistent : s.Consistent capacity
  stands : ∀ i, s.Stands i (s.phase i)

namespace Consistent

/-- An event that moves no message can be recorded whenever the state vouches for it. -/
theorem record (h : s.Consistent capacity) {e : Event ι} (hquiet : e.accepted? = none)
    (hquiet' : e.received? = none) (he : s.Vouches e) : (s.record e).Consistent capacity := by
  have haccepted : (s.record e).accepted = s.accepted := by simp [accepted, hquiet]
  have hreceived : (s.record e).received = s.received := by simp [received, hquiet']
  have hgrows : s.Grows (s.record e) := .of_eq rfl haccepted rfl
  refine ⟨h.capacity_eq, h.queue_eq, haccepted.trans h.accepted_eq,
    hreceived.trans h.received_eq, ?_, h.taken_eq, h.line_le, ?_, ?_, ?_⟩
  · rw [haccepted]
    exact h.sent_eq
  · rw [haccepted]
    exact h.nodup
  · rw [haccepted]
    exact h.numbered
  · intro e' he'
    rcases List.mem_append.mp he' with hold | hnew
    · exact (h.vouches e' hold).mono hgrows
    · rw [List.mem_singleton.mp hnew]
      exact he.mono hgrows

/-- A task may enter a phase in which it can stand, as long as the others still stand in theirs. -/
theorem sound_enter [DecidableEq ι] (h : s.Consistent capacity)
    (hothers : ∀ j ≠ i, s.Stands j (s.phase j)) {p : Phase ι} (hi : s.Stands i p) :
    (s.enter i p).Sound capacity where
  consistent := ⟨h.capacity_eq, h.queue_eq, h.accepted_eq, h.received_eq, h.sent_eq, h.taken_eq,
    h.line_le, h.nodup, h.numbered, fun e he => (h.vouches e he).mono (.of_eq rfl rfl rfl)⟩
  stands j := by
    by_cases hj : j = i
    · rw [hj, enter_phase, Function.update_self]
      exact hi.of_accepted_eq (Nat.le_refl _) rfl
    · rw [enter_phase, Function.update_of_ne hj]
      exact (hothers j hj).of_accepted_eq (Nat.le_refl _) rfl

/-- A ticket tells whether the value of its own call has been taken. -/
theorem ticket_le_received_iff (h : s.Consistent capacity) (hpos : 0 < ticket)
    (hm : s.accepted[ticket - 1]? = some m) :
    ticket ≤ s.channel.received ↔ m ∈ s.taken := by
  rw [h.taken_eq]
  rw [h.accepted_eq] at hm
  constructor
  · intro hle
    rw [List.getElem?_append_left (by omega)] at hm
    exact List.mem_of_getElem? hm
  · intro hmem
    obtain ⟨k, hk⟩ := List.mem_iff_getElem?.mp hmem
    have hlt : k < s.taken.length := (List.getElem?_eq_some_iff.mp hk).1
    have hsame : (s.taken ++ s.line)[k]? = (s.taken ++ s.line)[ticket - 1]? := by
      rw [List.getElem?_append_left hlt, hk, hm]
    have hnodup : (s.taken ++ s.line).Nodup := h.accepted_eq ▸ h.nodup
    have hindex : k = ticket - 1 := (List.getElem?_inj (by simp; omega) hnodup).mp hsame
    omega

/-- An open channel with room accepts the value of a new call. -/
theorem accept (h : s.Consistent capacity) (hopen : s.channel.closed = false)
    (hroom : s.channel.queue.length < s.channel.limit) (hnumber : m.number < s.calls)
    (hm : m ∉ s.accepted) :
    (s.accept m { s.channel with
      queue := s.channel.queue ++ [m.value], sent := s.channel.sent + 1 }).Consistent capacity := by
  refine ⟨h.capacity_eq, ?_, ?_, ?_, ?_, h.taken_eq, ?_, ?_, ?_, ?_⟩
  · simp [Shared.accept, h.queue_eq]
  · rw [accepted_accept, h.accepted_eq]
    exact List.append_assoc ..
  · have hreceived := h.received_eq
    simpa [Shared.accept, received, List.filterMap_cons, Event.received?] using hreceived
  · simp [Shared.accept, h.sent_eq, accepted, Event.accepted?]
  · rw [h.queue_eq, List.length_map, limit, h.capacity_eq] at hroom
    simpa [Shared.accept] using Nat.succ_le_of_lt hroom
  · rw [accepted_accept]
    refine List.nodup_append.mpr ⟨h.nodup, by simp, ?_⟩
    rintro a ha b hb rfl
    exact hm (List.mem_singleton.mp hb ▸ ha)
  · rw [accepted_accept]
    intro m' hm'
    rcases List.mem_append.mp hm' with hold | hnew
    · exact h.numbered m' hold
    · rw [List.mem_singleton.mp hnew]
      exact hnumber
  · intro e he
    rcases List.mem_append.mp he with hold | hnew
    · exact (h.vouches e hold).mono (grows_accept hopen m (by rfl))
    · rw [List.mem_singleton.mp hnew]
      trivial

/-- The first value of the queue goes to a receiver. -/
theorem deliver (h : s.Consistent capacity) (i : ι) {value : Value} {rest : List Value}
    (hqueue : s.channel.queue = value :: rest) :
    (s.deliver i value { s.channel with
      queue := rest, received := s.channel.received + 1 }).Consistent capacity := by
  obtain ⟨m, line, hline, hvalue, hrest⟩ : ∃ m line, s.line = m :: line ∧ m.value = value ∧
      line.map Message.value = rest :=
    List.map_eq_cons_iff.mp (h.queue_eq.symm.trans hqueue)
  refine ⟨h.capacity_eq, ?_, ?_, ?_, ?_, ?_, ?_, ?_, ?_, ?_⟩
  · simp [Shared.deliver, hline, hrest]
  · rw [accepted_deliver, h.accepted_eq, hline]
    simp [Shared.deliver, hline]
  · have hreceived : (s.deliver i value { s.channel with
        queue := rest, received := s.channel.received + 1 }).received = s.received ++ [value] := by
      simp [Shared.deliver, received, Event.received?]
    rw [hreceived, h.received_eq]
    simp [Shared.deliver, hline, hvalue]
  · rw [accepted_deliver]
    exact h.sent_eq
  · simp [Shared.deliver, hline, h.taken_eq]
  · exact Nat.le_trans (List.drop_sublist 1 s.line).length_le h.line_le
  · rw [accepted_deliver]
    exact h.nodup
  · rw [accepted_deliver]
    exact h.numbered
  · intro e he
    rcases List.mem_append.mp he with hold | hnew
    · exact (h.vouches e hold).mono (grows_deliver i value hqueue)
    · rw [List.mem_singleton.mp hnew]
      trivial

theorem count (h : s.Consistent capacity) :
    ({ s with calls := s.calls + 1 } : Shared ι).Consistent capacity :=
  ⟨h.capacity_eq, h.queue_eq, h.accepted_eq, h.received_eq, h.sent_eq, h.taken_eq, h.line_le,
    h.nodup, fun m hm => Nat.lt_succ_of_lt (h.numbered m hm),
    fun e he => (h.vouches e he).mono (.of_eq rfl rfl rfl)⟩

theorem close (h : s.Consistent capacity) (hopen : s.channel.closed = false) :
    ({ s with channel := { s.channel with closed := true } } : Shared ι).Consistent capacity :=
  ⟨h.capacity_eq, h.queue_eq, h.accepted_eq, h.received_eq, h.sent_eq, h.taken_eq, h.line_le,
    h.nodup, h.numbered, fun e he => (h.vouches e he).mono (grows_close hopen)⟩

end Consistent

theorem sound_new (capacity : Nat) :
    ({ channel := { capacity := capacity } } : Shared ι).Sound capacity where
  consistent := ⟨rfl, rfl, rfl, rfl, rfl, rfl, by simp, by simp [accepted], by simp [accepted],
    by simp⟩
  stands _ := trivial

variable [DecidableEq ι]

/-! ## One action -/

theorem grows_finish (i : ι) {e : Event ι} (hquiet : e.accepted? = none) (s : Shared ι) :
    s.Grows (s.finish i e) :=
  .of_eq rfl (by simp [finish, accepted, hquiet]) rfl

theorem grows_settle (i : ι) (m : Message ι) (ticket : Nat) (s : Shared ι) :
    s.Grows (s.settle i m ticket) := by
  unfold settle
  split
  · exact grows_finish i rfl s
  · exact .of_eq rfl rfl rfl

theorem grows_offer (i : ι) (m : Message ι) (s : Shared ι) : s.Grows (s.offer i m) := by
  unfold offer
  obtain ⟨-, heq⟩ | ⟨-, -, heq⟩ | ⟨hopen, -, heq⟩ := s.channel.offer?_cases m.value
  · simp only [heq]
    exact grows_finish i rfl s
  · simp only [heq]
    exact .refl s
  · simp only [heq]
    exact (grows_accept hopen m (by rfl)).trans (grows_settle ..)

theorem grows_take (i : ι) (s : Shared ι) : s.Grows (s.take i) := by
  unfold take
  obtain ⟨value, rest, hqueue, heq⟩ | ⟨-, -, heq⟩ | ⟨-, -, heq⟩ := s.channel.take?_cases
  · simp only [heq]
    exact (grows_deliver i value hqueue).trans (.of_eq rfl rfl rfl)
  · simp only [heq]
    exact grows_finish i rfl s
  · simp only [heq]
    exact .refl s

theorem grows_shut (i : ι) (s : Shared ι) : s.Grows (s.shut i) := by
  unfold shut
  obtain ⟨-, heq⟩ | ⟨hopen, heq⟩ := s.channel.close_cases
  · simp only [heq]
    exact grows_finish i rfl s
  · simp only [heq]
    exact (grows_close hopen).trans (grows_finish i rfl _)

/-- No action takes back what was settled. -/
theorem grows_act (s : Shared ι) (a : Action ι) : s.Grows (s.act a) := by
  cases a with
  | call i operation =>
    simp only [act]
    split
    · cases operation <;> exact .of_eq rfl rfl rfl
    · exact .refl s
  | turn i =>
    simp only [act, turn]
    split
    · exact .refl s
    · exact grows_offer ..
    · exact grows_settle ..
    · exact grows_take ..
    · exact grows_shut ..

/-- A call that moves no message ends with its answer, which the state vouches for. -/
theorem sound_finish (h : s.Consistent capacity) (hothers : ∀ j ≠ i, s.Stands j (s.phase j))
    {e : Event ι} (hquiet : e.accepted? = none) (hquiet' : e.received? = none)
    (he : s.Vouches e) : (s.finish i e).Sound capacity := by
  refine (h.record hquiet hquiet' he).sound_enter (fun j hj => ?_) trivial
  exact (hothers j hj).of_accepted_eq (Nat.le_refl _) (by simp [accepted, hquiet])

/-- A sender goes on with a ticket; the others are where they were. -/
theorem sound_settle (h : s.Consistent capacity) (hothers : ∀ j ≠ i, s.Stands j (s.phase j))
    (hi : s.Stands i (.settling m ticket)) : (s.settle i m ticket).Sound capacity := by
  unfold settle
  split
  case isTrue hsettled =>
    obtain ⟨-, hpos, hm⟩ := hi
    refine sound_finish h hothers rfl rfl ⟨List.mem_of_getElem? hm, fun hcapacity hopen => ?_⟩
    have hle : ticket ≤ s.channel.received := by
      simpa [isSettled, hcapacity, hopen] using hsettled
    exact (h.ticket_le_received_iff hpos hm).mp hle
  case isFalse => exact h.sound_enter hothers hi

/-- An offer ends in an acceptance, a refusal or a wait, and is sound in each. -/
theorem sound_offer (h : s.Sound capacity) (hi : s.Stands i (.offering m)) :
    (s.offer i m).Sound capacity := by
  obtain ⟨hsender, hnumber, hm⟩ := hi
  unfold offer
  obtain ⟨hclosed, heq⟩ | ⟨-, -, heq⟩ | ⟨hopen, hroom, heq⟩ := s.channel.offer?_cases m.value
  · simp only [heq]
    exact sound_finish h.consistent (fun j _ => h.stands j) rfl rfl ⟨rfl, hclosed, hm⟩
  · simpa only [heq] using h
  · simp only [heq]
    refine sound_settle (h.consistent.accept hopen hroom hnumber hm) (fun j hj => ?_) ?_
    · refine (h.stands j).mono (Nat.le_refl _) (accepted_accept ..) ?_
      simpa [hsender] using Ne.symm hj
    · refine ⟨hsender, Nat.succ_pos _, ?_⟩
      simp [h.consistent.sent_eq]

theorem sound_take (h : s.Sound capacity) (i : ι) : (s.take i).Sound capacity := by
  unfold take
  obtain ⟨value, rest, hqueue, heq⟩ | ⟨hqueue, hclosed, heq⟩ | ⟨-, -, heq⟩ :=
    s.channel.take?_cases
  · simp only [heq]
    refine (h.consistent.deliver i hqueue).sound_enter (fun j _ => ?_) trivial
    exact (h.stands j).of_accepted_eq (Nat.le_refl _) (by simp)
  · simp only [heq]
    exact sound_finish h.consistent (fun j _ => h.stands j) rfl rfl ⟨hclosed, hqueue⟩
  · simpa only [heq] using h

theorem sound_shut (h : s.Sound capacity) (i : ι) : (s.shut i).Sound capacity := by
  unfold shut
  obtain ⟨-, heq⟩ | ⟨hopen, heq⟩ := s.channel.close_cases
  · simp only [heq]
    exact sound_finish h.consistent (fun j _ => h.stands j) rfl rfl trivial
  · simp only [heq]
    refine sound_finish (h.consistent.close hopen) (fun j _ => ?_) rfl rfl trivial
    exact (h.stands j).of_accepted_eq (Nat.le_refl _) rfl

/-- A new call of `send` has a number of its own. -/
theorem sound_begin (h : s.Sound capacity) (i : ι) (operation : Operation) :
    (s.begin i operation).Sound capacity := by
  cases operation with
  | send value =>
    have hfresh : (⟨i, s.calls, value⟩ : Message ι) ∉ s.accepted := fun hm =>
      Nat.lt_irrefl _ (h.consistent.numbered _ hm)
    refine h.consistent.count.sound_enter (fun j _ => ?_) ⟨rfl, Nat.lt_succ_self _, hfresh⟩
    exact (h.stands j).of_accepted_eq (Nat.le_succ _) rfl
  | recv => exact h.consistent.sound_enter (fun j _ => h.stands j) trivial
  | close => exact h.consistent.sound_enter (fun j _ => h.stands j) trivial

/-- One action of any task leads from a sound state to a sound state. -/
theorem sound_act (h : s.Sound capacity) (a : Action ι) : (s.act a).Sound capacity := by
  cases a with
  | call i operation =>
    simp only [act]
    split
    · exact sound_begin h i operation
    · exact h
  | turn i =>
    have hi := h.stands i
    simp only [act, turn]
    split
    case h_1 => exact h
    case h_2 m hphase => exact sound_offer h (hphase ▸ hi)
    case h_3 m ticket hphase =>
      exact sound_settle h.consistent (fun j _ => h.stands j) (hphase ▸ hi)
    case h_4 => exact sound_take h i
    case h_5 => exact sound_shut h i

end Shared

end RouteScript.Channel
