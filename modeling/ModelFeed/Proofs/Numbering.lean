import ModelFeed.Proofs.Answering
import ModelFeed.Proofs.ChangeLog
/-!
# The numbers of payloads

A model message carries a payload and a number of mutations. The payload is made from the store as it
is. The answer to a subscription or a lag notice carries the number of that store, but an update for
a change set carries the number of the set: it is behind the payload as soon as a newer set has been
published. And when a full view overtakes change sets that wait, their numbers follow a larger one.

`Service.numbers_of_sent` says that there is no other way for a number to be behind its payload, or to
follow a larger one. It rests on what a model message is made of (`Service.carries_of_sent`), and on the
numbers of a log, which grow from set to set and end with that of the store (`SharedModel.IsNumbered`).
-/

namespace ModelFeed

/-! ### Numbers in the log -/

namespace Numbered

variable {base : Nat} {sets : List ChangeSet} {set : ChangeSet}

theorem changes_ne_nil (numbered : Numbered base sets) (member : set ∈ sets) :
    set.changes ≠ [] := by
  induction sets generalizing base with
  | nil => cases member
  | cons first sets ih =>
    obtain ⟨full, -, later⟩ := numbered
    rcases List.mem_cons.mp member with rfl | member
    · exact full
    · exact ih later member

theorem base_lt (numbered : Numbered base sets) (member : set ∈ sets) : base < set.sequence := by
  induction sets generalizing base with
  | nil => cases member
  | cons first sets ih =>
    obtain ⟨full, counted, later⟩ := numbered
    have positive := List.length_pos_of_ne_nil full
    rcases List.mem_cons.mp member with rfl | member
    · omega
    · have above := ih later member
      omega

theorem pairwise (numbered : Numbered base sets) :
    sets.Pairwise fun set next => set.sequence < next.sequence := by
  induction sets generalizing base with
  | nil => exact .nil
  | cons first sets ih =>
    obtain ⟨-, -, later⟩ := numbered
    exact .cons (fun set => later.base_lt) (ih later)

theorem sequence_lt {i j : Nat} {next : ChangeSet} (numbered : Numbered base sets) (before : i < j)
    (found : sets[i]? = some set) (follows : sets[j]? = some next) :
    set.sequence < next.sequence := by
  obtain ⟨inside, rfl⟩ := List.getElem?_eq_some_iff.mp found
  obtain ⟨alsoInside, rfl⟩ := List.getElem?_eq_some_iff.mp follows
  exact List.pairwise_iff_getElem.mp numbered.pairwise i j inside alsoInside before

end Numbered

namespace SharedModel

/-- The sets are numbered from a base, and the store goes on from the last one. -/
structure IsNumbered (base : Nat) (model : SharedModel) : Prop where
  sets : Numbered base model.published
  count : model.store.sequence =
    base + (model.published.flatMap ChangeSet.changes).length

theorem isNumbered_writeAll (store : Store) (sessions : List (List Mutation)) :
    (writeAll { store } sessions).IsNumbered store.sequence := by
  rw [writeAll_eq]
  refine ⟨numbered_changeSets store sessions, ?_⟩
  rw [List.nil_append, Store.changes_changeSets, List.length_map]
  exact store.sequence_after sessions.flatten

theorem writeAll_writeAll (model : SharedModel) (sessions later : List (List Mutation)) :
    (model.writeAll sessions).writeAll later = model.writeAll (sessions ++ later) :=
  List.foldl_append.symm

theorem sequence_le_writeAll (model : SharedModel) (sessions : List (List Mutation)) :
    model.store.sequence ≤ (model.writeAll sessions).store.sequence := by
  rw [writeAll_eq, Store.sequence_after]
  exact Nat.le_add_right _ _

variable {base k : Nat} {model : SharedModel} {set : ChangeSet}

/-- A set has the number of the store if it is the last one, and a smaller number otherwise. -/
theorem IsNumbered.sequence_le (numbered : model.IsNumbered base)
    (found : model.published[k]? = some set) :
    set.sequence ≤ model.store.sequence ∧
      (set.sequence = model.store.sequence ↔ k + 1 = model.published.length) := by
  obtain ⟨sets, count⟩ := numbered
  have inside : k < model.published.length := (List.getElem?_eq_some_iff.mp found).1
  have parts : (model.published.flatMap ChangeSet.changes).length =
      ((model.published.take (k + 1)).flatMap ChangeSet.changes).length +
        ((model.published.drop (k + 1)).flatMap ChangeSet.changes).length := by
    rw [← List.length_append, ← List.flatMap_append, List.take_append_drop]
  have last : ((model.published.drop (k + 1)).flatMap ChangeSet.changes).length = 0 ↔
      k + 1 = model.published.length := by
    rw [List.length_eq_zero_iff, List.flatMap_eq_nil_iff]
    constructor
    · intro silent
      -- No set is empty, so none comes after.
      have nothing : model.published.drop (k + 1) = [] := by
        refine List.eq_nil_iff_forall_not_mem.mpr fun later member => ?_
        exact sets.changes_ne_nil (List.mem_of_mem_drop member) (silent later member)
      have short := List.drop_eq_nil_iff.mp nothing
      omega
    · intro ends later member
      rw [List.drop_eq_nil_of_le (by omega)] at member
      cases member
  rw [sets.sequence_eq found, count]
  omega

/-- A set has a smaller number than an earlier store, if it was in the log then and not the last. -/
theorem IsNumbered.sequence_lt_iff (numbered : model.IsNumbered base)
    {later : List (List Mutation)} (found : (model.writeAll later).published[k]? = some set) :
    set.sequence < model.store.sequence ↔ k + 1 < model.published.length := by
  rw [writeAll_eq] at found
  by_cases inside : k < model.published.length
  · rw [List.getElem?_append_left inside] at found
    have bound := numbered.sequence_le found
    omega
  · rw [List.getElem?_append_right (by omega)] at found
    have above := (numbered_changeSets model.store later).base_lt (List.mem_of_getElem? found)
    omega

/-- A delivery is a notice of what was dropped, or the set at the place of the reader. -/
theorem receive?_eq_some {position next : Nat} {delivery : Delivery}
    (h : model.receive? position = some (delivery, next)) :
    (position < model.oldest ∧ delivery = .lagged (model.oldest - position) ∧
        next = model.oldest) ∨
      ¬position < model.oldest ∧ ∃ set, model.published[position]? = some set ∧
        delivery = .changes set ∧ next = position + 1 := by
  unfold receive? at h
  split at h
  next lags =>
    cases h
    exact .inl ⟨lags, rfl, rfl⟩
  next current =>
    simp only [Option.map_eq_some_iff, Prod.mk.injEq] at h
    obtain ⟨set, found, rfl, rfl⟩ := h
    exact .inr ⟨current, set, found, rfl, rfl⟩

end SharedModel

/-! ### What model messages are made of -/

/-- The session that an event is. -/
def Event.session? : Event → Option (List Mutation)
  | .write mutations => some mutations
  | _ => none

namespace Service

/-- The place in the log of the change set that an event has the connection handle. -/
def handled? (s : Service) : Event → Option Nat
  | .receive =>
    if s.connection.position < s.model.oldest then none else some s.connection.position
  | _ => none

/-- What a model message carries that is sent for the set at a place of the log, or for none. -/
inductive Carries (s : Service) (subscription : Subscription) :
    Option Nat → UpdateMode → Nat → Json → Prop where
  | view : Carries s subscription none .full s.model.store.sequence
      (subscription.view s.model.store.root).toJson
  | changes {place : Nat} {set : ChangeSet} {part : Node}
      (found : s.model.published[place]? = some set)
      (updated : subscription.update? s.model.store.root set.changes = some part) :
      Carries s subscription (some place) subscription.mode set.sequence part.toJson

variable {s : Service} {event : Event} {mode : UpdateMode} {number : Nat} {payload : Json}

theorem model_run (s : Service) (events : List Event) :
    (s.run events).1.model = s.model.writeAll (events.filterMap Event.session?) := by
  induction events generalizing s with
  | nil => rfl
  | cons event events ih =>
    rw [run_cons, ih]
    cases event with
    | write mutations => rfl
    | frame frame =>
      simp only [step]
      split <;> rfl
    | receive =>
      simp only [step]
      split <;> rfl

/-- Frames do not move the place in the log. -/
theorem position_frame (s : Service) (frame : Frame) :
    (s.step (.frame frame)).1.connection.position = s.connection.position := by
  by_cases listening : s.connection.isOpen = true
  · rw [step_frame listening]
    obtain ⟨subscription, -, -, done⟩ | ⟨-, done, -⟩ :=
      Connection.onFrame_cases s.defaults s.model.store s.connection frame
    · rw [done]
    · rw [done]
  · simp [step, listening]

theorem position_le_step (s : Service) (event : Event) :
    s.connection.position ≤ (s.step event).1.connection.position := by
  cases event with
  | write mutations => exact Nat.le_refl _
  | frame frame => exact (s.position_frame frame).ge
  | receive =>
    by_cases listening : s.connection.isOpen = true
    · rw [step_receive listening]
      cases next : s.model.receive? s.connection.position with
      | none => simp [Connection.receive, next]
      | some delivered =>
        rw [Connection.receive_eq next]
        obtain ⟨lags, -, moved⟩ | ⟨-, set, -, -, moved⟩ := SharedModel.receive?_eq_some next
        · exact moved ▸ lags.le
        · exact moved ▸ Nat.le_succ _
    · simp [step, listening]

theorem position_le_run (s : Service) (events : List Event) :
    s.connection.position ≤ (s.run events).1.connection.position := by
  induction events generalizing s with
  | nil => exact Nat.le_refl _
  | cons event events ih =>
    rw [run_cons]
    exact (s.position_le_step event).trans (ih _)

theorem handled?_eq_some {place : Nat} (h : s.handled? event = some place) :
    place = s.connection.position := by
  unfold handled? at h
  split at h
  next =>
    split at h
    next => cases h
    next =>
      cases h
      rfl
  next => cases h

theorem position_of_handled {delivery : Delivery} {place next : Nat}
    (told : s.model.receive? s.connection.position = some (delivery, next))
    (handled : s.handled? .receive = some place) : next = place + 1 := by
  obtain ⟨lags, -, -⟩ | ⟨-, set, -, -, moved⟩ := SharedModel.receive?_eq_some told
  · rw [show s.handled? .receive = none from if_pos lags] at handled
    cases handled
  · rw [moved, handled?_eq_some handled]

/-- A delivery is answered by the full view if it is a lag notice, and else by the update for the set
at the place of the connection. -/
theorem carries_of_delivery {subscription : Subscription} {delivery : Delivery} {next : Nat}
    (told : s.model.receive? s.connection.position = some (delivery, next))
    (sent : Connection.onDelivery s.model.store subscription delivery =
      some (.update mode number payload)) :
    s.Carries subscription (s.handled? .receive) mode number payload := by
  obtain ⟨lags, rfl, -⟩ | ⟨current, set, found, rfl, -⟩ := SharedModel.receive?_eq_some told
  · rw [show s.handled? .receive = none from if_pos lags]
    cases sent
    exact .view
  · rw [show s.handled? .receive = some s.connection.position from if_neg current]
    obtain ⟨part, updated, same⟩ := Option.map_eq_some_iff.mp sent
    cases same
    exact .changes found updated

/-- A model message is the full view of the subscription in force, or its update for the set that is
handled; and the connection goes on behind that set. -/
theorem carries_of_sent (sent : .message (.update mode number payload) ∈ (s.step event).2) :
    (∃ subscription, (s.step event).1.connection.subscription = some subscription ∧
      s.Carries subscription (s.handled? event) mode number payload) ∧
    ∀ place, s.handled? event = some place →
      (s.step event).1.connection.position = place + 1 := by
  have listening : s.connection.isOpen = true := by
    -- A closed connection sends nothing.
    by_contra closed
    cases event <;> simp [step, closed] at sent
  cases event with
  | write mutations => cases sent
  | frame frame =>
    refine ⟨?_, fun place handled => by cases handled⟩
    rw [step_frame listening] at sent ⊢
    obtain ⟨subscription, -, -, done⟩ | ⟨-, -, silent⟩ :=
      Connection.onFrame_cases s.defaults s.model.store s.connection frame
    · rw [done] at sent ⊢
      cases List.mem_singleton.mp sent
      exact ⟨subscription, rfl, .view⟩
    · cases silent _ sent
  | receive =>
    rw [step_receive listening] at sent ⊢
    cases told : s.model.receive? s.connection.position with
    | none => simp [Connection.receive, told] at sent
    | some delivered =>
      rw [Connection.receive_eq told] at sent ⊢
      simp only [Connection.onDelivered, Option.mem_toList, Option.map_eq_some_iff,
        Option.bind_eq_some_iff, Sent.message.injEq] at sent
      obtain ⟨_, ⟨subscription, subscribed, answer⟩, rfl⟩ := sent
      exact ⟨⟨subscription, subscribed, carries_of_delivery told answer⟩,
        fun place => position_of_handled told⟩

namespace Carries

variable {base : Nat} {s s' : Service} {subscription subscription' : Subscription}
  {place place' : Option Nat} {mode mode' : UpdateMode} {number number' : Nat}
  {payload payload' : Json}

/-- The number of a message is that of its payload, unless it is for a set and others came after. -/
theorem number_le (carries : s.Carries subscription place mode number payload)
    (numbered : s.model.IsNumbered base) :
    number ≤ s.model.store.sequence ∧ (number = s.model.store.sequence ↔
      ∀ handled, place = some handled → handled + 1 = s.model.published.length) := by
  cases carries with
  | view => exact ⟨Nat.le_refl _, fun _ _ handled => (nomatch handled), fun _ => rfl⟩
  | changes found _ =>
    have bound := numbered.sequence_le found
    refine ⟨bound.1, bound.2.trans ⟨fun last handled same => ?_, fun last => last _ rfl⟩⟩
    cases same
    exact last

/-- Numbers decrease where a full view is followed by a set that waited when it was sent. -/
theorem number_lt_iff (first : s.Carries subscription place mode number payload)
    (second : s'.Carries subscription' place' mode' number' payload')
    (numbered : s.model.IsNumbered base) (numbered' : s'.model.IsNumbered base)
    {sessions : List (List Mutation)} (written : s'.model = s.model.writeAll sessions)
    (forward : ∀ handled handled', place = some handled → place' = some handled' →
      handled < handled') :
    number' < number ↔ place = none ∧
      ∃ handled, place' = some handled ∧ handled + 1 < s.model.published.length := by
  have grown : s.model.store.sequence ≤ s'.model.store.sequence := by
    rw [written]
    exact s.model.sequence_le_writeAll sessions
  have bound := (first.number_le numbered).1
  cases second with
  | view =>
    -- The store has only grown since the first message.
    constructor
    · intro less
      omega
    · rintro ⟨-, handled, unhandled, -⟩
      cases unhandled
  | @changes handled' set' _ found' _ =>
    cases first with
    | view =>
      -- The first message has the number of its store, so it is about where that store's log ended.
      have earlier := numbered.sequence_lt_iff (written ▸ found')
      simp only [Option.some.injEq, true_and, exists_eq_left']
      exact earlier
    | @changes handled set _ found _ =>
      -- The later set comes after the first one in the log.
      have ahead := forward handled handled' rfl rfl
      have inside := (List.getElem?_eq_some_iff.mp found).1
      have same : s'.model.published[handled]? = some set := by
        rw [written, SharedModel.writeAll_eq, List.getElem?_append_left inside]
        exact found
      have above := numbered'.sets.sequence_lt ahead same found'
      constructor
      · intro less
        omega
      · rintro ⟨unhandled, -⟩
        cases unhandled

end Carries

/-- **When numbers and payloads come apart.** A model message carries the full view and the number of
the store, or the update for a change set and the number of that set. The number is that of the store
which the payload was made from, unless the set handled is not the last one published. A later message
has a smaller number if and only if the earlier one is a full view that was sent while the set handled
later was already waiting, and not the last. -/
theorem numbers_of_sent (defaults : List Filter) (store : Store) (history : List (List Mutation))
    (front : List Event) (event : Event) {mode : UpdateMode} {number : Nat} {payload : Json} :
    let s := ((start defaults (SharedModel.writeAll { store } history)).run front).1
    .message (.update mode number payload) ∈ (s.step event).2 →
    -- What is sent
    (∃ subscription, (s.step event).1.connection.subscription = some subscription ∧
      s.Carries subscription (s.handled? event) mode number payload) ∧
    -- One message
    number ≤ s.model.store.sequence ∧
    (number = s.model.store.sequence ↔
      ∀ handled, s.handled? event = some handled → handled + 1 = s.model.published.length) ∧
    -- Two messages
    ∀ (middle : List Event) (later : Event) (mode' : UpdateMode) (number' : Nat) (payload' : Json),
      let s' := ((s.step event).1.run middle).1
      .message (.update mode' number' payload') ∈ (s'.step later).2 →
      (number' < number ↔ s.handled? event = none ∧
        ∃ handled, s'.handled? later = some handled ∧
          handled + 1 < s.model.published.length) := by
  intro s sent
  obtain ⟨⟨subscription, inForce, carries⟩, moved⟩ := carries_of_sent sent
  have model :
      s.model = SharedModel.writeAll { store } (history ++ front.filterMap Event.session?) :=
    (model_run _ front).trans (SharedModel.writeAll_writeAll _ _ _)
  have numbered : s.model.IsNumbered store.sequence := by
    rw [model]
    exact SharedModel.isNumbered_writeAll store _
  obtain ⟨bound, same⟩ := carries.number_le numbered
  refine ⟨⟨subscription, inForce, carries⟩, bound, same, ?_⟩
  intro middle later mode' number' payload' s' sent'
  obtain ⟨⟨_, -, carries'⟩, -⟩ := carries_of_sent sent'
  have written : s'.model = s.model.writeAll ((event :: middle).filterMap Event.session?) :=
    s.model_run (event :: middle)
  have numbered' : s'.model.IsNumbered store.sequence := by
    rw [written, model, SharedModel.writeAll_writeAll]
    exact SharedModel.isNumbered_writeAll store _
  refine carries.number_lt_iff carries' numbered numbered' written ?_
  -- The connection went on behind the set that it handled first, and never goes back.
  intro handled handled' first second
  have position := moved handled first
  have reached : (s.step event).1.connection.position ≤ s'.connection.position :=
    position_le_run _ middle
  have place := handled?_eq_some second
  omega

/-- An axis is added. -/
def axisPush : Event :=
  .write [.push [.member "move", .member "axes"] Machine.axis.new]

theorem step_letterRequest (listening : s.connection.isOpen = true) :
    s.step letterRequest =
      ({ s with connection := { s.connection with subscription := some letters } },
        [.message (Connection.resync s.model.store letters)]) := by
  rw [letterRequest, step_frame listening, Connection.onFrame_of_accepted]
  exact accepted_letterRequest s.defaults

/-- The letters have been asked for, and two axes been added since. -/
def overtakenClient : Service :=
  (letterClient.run [axisPush, axisPush]).1

theorem overtakenClient_receive : (overtakenClient.step .receive).2 =
    [.message (.update .full 1 (letters.view overtakenClient.model.store.root).toJson)] := by
  with_unfolding_all rfl

theorem overtakenClient_letterRequest : overtakenClient.step letterRequest = (overtakenClient,
    [.message (.update .full 2 (letters.view overtakenClient.model.store.root).toJson)]) := by
  have counted : overtakenClient.model.store.sequence = 2 := by decide +kernel
  have same : { overtakenClient with
      connection := { overtakenClient.connection with subscription := some letters } } =
        overtakenClient := by
    with_unfolding_all rfl
  have listening : overtakenClient.connection.isOpen = true := by decide +kernel
  rw [step_letterRequest listening, same, Connection.resync, ServerMessage.ofModel, counted]

theorem numbers_of_sent_of_letters :
    let s := ((start [] (SharedModel.writeAll { store := Store.blank } [])).run
      [letterRequest, axisPush, axisPush]).1
    let view := (letters.view s.model.store.root).toJson
    .message (.update .full 2 view) ∈ (s.step letterRequest).2 ∧ 2 = s.model.store.sequence ∧
      .message (.update .full 1 view) ∈ (((s.step letterRequest).1.run []).1.step .receive).2 ∧
      ∃ handled, ((s.step letterRequest).1.run []).1.handled? .receive = some handled ∧
        handled + 1 < s.model.published.length := by
  have facts := @numbers_of_sent [] Store.blank [] [letterRequest, axisPush, axisPush] letterRequest
    .full 2 (letters.view overtakenClient.model.store.root).toJson
  have reached : ((start [] (SharedModel.writeAll { store := Store.blank } [])).run
      [letterRequest, axisPush, axisPush]).1 = overtakenClient := run_letterRequest _
  rw [reached] at facts ⊢
  have view : .message (.update .full 2 (letters.view overtakenClient.model.store.root).toJson) ∈
      (overtakenClient.step letterRequest).2 := by
    rw [overtakenClient_letterRequest]
    exact List.mem_singleton_self _
  have part : .message (.update .full 1 (letters.view overtakenClient.model.store.root).toJson) ∈
      (((overtakenClient.step letterRequest).1.run []).1.step .receive).2 := by
    rw [overtakenClient_letterRequest]
    exact overtakenClient_receive ▸ List.mem_singleton_self _
  obtain ⟨-, -, number, overtaken⟩ := facts view
  have unhandled : ∀ handled, overtakenClient.handled? letterRequest = some handled →
      handled + 1 = overtakenClient.model.published.length := fun _ handled => nomatch handled
  exact ⟨view, number.mpr unhandled, part,
    ((overtaken [] .receive .full 1 _ part).mp (by decide)).2⟩

/-- The update for the first set carries the number 1, and both axes; and it follows the number 2 if
the letters are asked for once more before it. -/
theorem numbers_overtaken :
    let s := ((start [] { store := Store.blank }).run [letterRequest, axisPush, axisPush]).1
    let view := (letters.view s.model.store.root).toJson
    s.model.store.sequence = 2 ∧ (s.step .receive).2 = [.message (.update .full 1 view)] ∧
      (s.run [letterRequest, .receive]).2 =
        [.message (.update .full 2 view), .message (.update .full 1 view)] := by
  have reached : ((start [] { store := Store.blank }).run [letterRequest, axisPush, axisPush]).1 =
      overtakenClient := run_letterRequest _
  rw [reached]
  refine ⟨by decide +kernel, overtakenClient_receive, ?_⟩
  simp only [run, overtakenClient_letterRequest, overtakenClient_receive, List.append_nil,
    List.singleton_append]

end Service

end ModelFeed
