import Mathlib
import SymbolAtlas.Atlas

/-!
# What a feed delivers

A run of a feed is a list of steps: subscriptions begin and end, events are published, consumers
empty their queues.  A step acts on a queue only through its trace on that queue (`Step.on`), so a
run does too; that makes queues independent of each other.  What a queue hands out, followed by what
it still holds, is told from the run alone: the events that were published while its subscription
lasted and it had room.
-/

namespace SymbolAtlas

variable {ε : Type}

namespace Subscription

/-- What can happen to one queue. -/
inductive Deed (ε : Type) where
  /-- The subscription ends. -/
  | leave
  /-- An event is published. -/
  | offer (event : ε)
  /-- The consumer empties the queue. -/
  | drain
  /-- The consumer takes some events from the front. -/
  | take (count : Nat)

/-- The queue after something happened to it. -/
def after (s : Subscription ε) : Deed ε → Subscription ε
  | .leave => { s with active := false }
  | .offer event => s.receive event
  | .drain => { s with events := [] }
  | .take count => { s with events := s.events.drop count }

/-- What the queue hands out when something happens to it; nothing unless its consumer asks. -/
def gives (s : Subscription ε) : Deed ε → Option (List ε)
  | .leave => none
  | .offer _ => none
  | .drain => some s.events
  | .take count => some (s.events.take count)

/-- All that the queue hands out, one list for each time that its consumer asks. -/
def givesAll : Subscription ε → List (Deed ε) → List (List ε)
  | _, [] => []
  | s, d :: ds => (s.gives d).toList ++ (s.after d).givesAll ds

/-- There is room for one more event. -/
def HasRoom (capacity : Int) (held : List ε) : Prop :=
  capacity ≤ 0 ∨ held.length < capacity

instance (capacity : Int) (held : List ε) : Decidable (HasRoom capacity held) :=
  inferInstanceAs (Decidable (_ ∨ _))

theorem isFull_eq (s : Subscription ε) : s.isFull = !decide (HasRoom s.capacity s.events) := by
  rw [Bool.eq_iff_iff, isFull, Bool.and_eq_true, decide_eq_true_eq, decide_eq_true_eq,
    Bool.not_eq_true', decide_eq_false_iff_not, HasRoom, not_or, Int.not_le, Int.not_lt]

theorem drops_iff (s : Subscription ε) :
    s.drops = true ↔ s.active = true ∧ ¬ HasRoom s.capacity s.events := by
  rw [drops, isFull_eq, Bool.and_eq_true, Bool.not_eq_true', decide_eq_false_iff_not]

theorem receive_events (s : Subscription ε) (event : ε) :
    (s.receive event).events =
      s.events ++ if s.active ∧ HasRoom s.capacity s.events then [event] else [] := by
  rw [receive, isFull_eq]
  cases s.active <;> by_cases h : HasRoom s.capacity s.events <;> simp [h]

theorem after_capacity (s : Subscription ε) (d : Deed ε) : (s.after d).capacity = s.capacity := by
  cases d with
  | offer event =>
    rw [after, receive]
    split <;> rfl
  | leave | drain | take => rfl

/-- No more events than a positive capacity allows. -/
def Bounded (s : Subscription ε) : Prop :=
  0 < s.capacity → s.events.length ≤ s.capacity

theorem Bounded.after {s : Subscription ε} (h : s.Bounded) (d : Deed ε) : (s.after d).Bounded := by
  intro hpos
  rw [after_capacity] at hpos ⊢
  have hs := h hpos
  cases d with
  | leave => exact hs
  | offer event =>
    rw [Subscription.after, receive_events]
    split
    · next hroom =>
      have : (s.events.length : Int) < s.capacity := hroom.2.resolve_left (by omega)
      rw [List.length_append, List.length_singleton]
      omega
    · rwa [List.append_nil]
  | drain => exact hpos.le
  | take count =>
    rw [Subscription.after, List.length_drop]
    omega

/-- The queue after several things happened to it. -/
def afterAll (s : Subscription ε) (ds : List (Deed ε)) : Subscription ε :=
  ds.foldl after s

theorem afterAll_capacity (s : Subscription ε) (ds : List (Deed ε)) :
    (s.afterAll ds).capacity = s.capacity := by
  induction ds generalizing s with
  | nil => rfl
  | cons d ds ih => exact (ih (s.after d)).trans (s.after_capacity d)

theorem Bounded.afterAll {s : Subscription ε} (h : s.Bounded) (ds : List (Deed ε)) :
    (s.afterAll ds).Bounded := by
  induction ds generalizing s with
  | nil => exact h
  | cons d ds ih => exact ih (h.after d)

/-- The event that is offered, if the deed is an offer. -/
def Deed.event? : Deed ε → Option ε
  | .offer event => some event
  | .leave | .drain | .take _ => none

/-- A deed only moves events from the queue to its consumer, except for an event that enters. -/
theorem gives_append_after (s : Subscription ε) (d : Deed ε) :
    (s.gives d).toList.flatten ++ (s.after d).events
      = s.events ++ (if s.active ∧ HasRoom s.capacity s.events then d.event? else none).toList := by
  cases d with
  | offer event =>
    rw [after, receive_events]
    by_cases h : s.active ∧ HasRoom s.capacity s.events
    · rw [if_pos h, if_pos h]
      rfl
    · rw [if_neg h, if_neg h]
      rfl
  | leave | drain | take count => simp [gives, after, Deed.event?]

end Subscription

namespace Feed

open Subscription (Deed HasRoom)

/-! ## Runs -/

/-- A step of a feed and of its consumers; queues go by their numbers. -/
inductive Step (ε : Type) where
  /-- A subscription begins, with a capacity or with the usual one. -/
  | subscribe (capacity : Option Int)
  /-- A subscription ends. -/
  | unsubscribe (queue : Nat)
  /-- An event is published. -/
  | publish (event : ε)
  /-- A consumer empties its queue. -/
  | drain (queue : Nat)
  /-- A consumer takes some events from the front of its queue. -/
  | take (queue count : Nat)

/-- A feed without subscribers. -/
def opened (defaultCapacity : Int) : Feed ε where
  defaultCapacity := defaultCapacity

/-- Takes some events from the front of a queue; gives them. -/
def take (f : Feed ε) (queue count : Nat) : Feed ε × List ε :=
  ({ f with queues := f.queues.modify queue fun s => { s with events := s.events.drop count } },
    (f.held queue).take count)

/-- The feed after a step. -/
def perform (f : Feed ε) : Step ε → Feed ε
  | .subscribe capacity => (f.subscribe capacity).1
  | .unsubscribe queue => f.unsubscribe queue
  | .publish event => f.publish event
  | .drain queue => (f.drain queue).1
  | .take queue count => (f.take queue count).1

/-- The feed after a run. -/
def run (f : Feed ε) (steps : List (Step ε)) : Feed ε :=
  steps.foldl perform f

/-- What a step hands to the consumer of a queue. -/
def hands (f : Feed ε) (queue : Nat) : Step ε → Option (List ε)
  | .drain q => if q = queue then some (f.drain q).2 else none
  | .take q count => if q = queue then some (f.take q count).2 else none
  | .subscribe _ => none
  | .unsubscribe _ => none
  | .publish _ => none

/-- All that a run hands to the consumer of a queue, one list for each time that it asks. -/
def handsAll (queue : Nat) : Feed ε → List (Step ε) → List (List ε)
  | _, [] => []
  | f, step :: rest => (f.hands queue step).toList ++ handsAll queue (f.perform step) rest

@[simp] theorem run_nil (f : Feed ε) : f.run [] = f := rfl

@[simp] theorem run_cons (f : Feed ε) (step : Step ε) (rest : List (Step ε)) :
    f.run (step :: rest) = (f.perform step).run rest := rfl

theorem run_append (f : Feed ε) (before after : List (Step ε)) :
    f.run (before ++ after) = (f.run before).run after := by
  rw [run, List.foldl_append]
  rfl

theorem handsAll_append (queue : Nat) (f : Feed ε) (before after : List (Step ε)) :
    f.handsAll queue (before ++ after)
      = f.handsAll queue before ++ (f.run before).handsAll queue after := by
  induction before generalizing f with
  | nil => rfl
  | cons step rest ih =>
    rw [List.cons_append, handsAll, handsAll, ih, run_cons, List.append_assoc]

/-! ## Histories -/

/-- How many queues a run creates. -/
def created (steps : List (Step ε)) : Nat :=
  steps.countP fun
    | .subscribe _ => true
    | _ => false

/-- A step that ends the subscription of a queue. -/
def Step.ends (queue : Nat) : Step ε → Bool
  | .unsubscribe q => q = queue
  | _ => false

/-- The subscription of a queue ends during a run. -/
def ended (queue : Nat) (steps : List (Step ε)) : Bool :=
  steps.any (·.ends queue)

/-- What is published at a moment of a run. -/
def publishedAt (steps : List (Step ε)) (moment : Nat) : Option ε :=
  match steps[moment]? with
  | some (.publish event) => some event
  | _ => none

/-- The event that enters a queue at a moment of a run: an event is published, the subscription has
not ended before, and the queue has room. -/
def enteredAt (f : Feed ε) (queue : Nat) (capacity : Int) (steps : List (Step ε)) (moment : Nat) :
    Option ε :=
  let past := steps.take moment
  if !ended queue past ∧ HasRoom capacity ((f.run past).held queue) then publishedAt steps moment
  else none

/-- The events that enter a queue in a run, in order. -/
def entered (f : Feed ε) (queue : Nat) (capacity : Int) (steps : List (Step ε)) : List ε :=
  (List.range steps.length).filterMap (f.enteredAt queue capacity steps)

theorem publishedAt_append_left {steps : List (Step ε)} {moment : Nat} (h : moment < steps.length)
    (rest : List (Step ε)) : publishedAt (steps ++ rest) moment = publishedAt steps moment := by
  rw [publishedAt, List.getElem?_append_left h, publishedAt]

theorem publishedAt_snoc (steps : List (Step ε)) (step : Step ε) :
    publishedAt (steps ++ [step]) steps.length = publishedAt [step] 0 := by
  rw [publishedAt, publishedAt, List.getElem?_concat_length, List.getElem?_cons_zero]

theorem entered_snoc (f : Feed ε) (queue : Nat) (capacity : Int) (steps : List (Step ε))
    (step : Step ε) :
    f.entered queue capacity (steps ++ [step]) = f.entered queue capacity steps ++
      (if !ended queue steps ∧ HasRoom capacity ((f.run steps).held queue) then
        publishedAt [step] 0 else none).toList := by
  have hlast : f.enteredAt queue capacity (steps ++ [step]) steps.length
      = if !ended queue steps ∧ HasRoom capacity ((f.run steps).held queue) then
        publishedAt [step] 0 else none := by
    rw [enteredAt, List.take_left' rfl, publishedAt_snoc]
  rw [entered, List.length_append, List.length_singleton, List.range_succ, List.filterMap_append]
  congr 1
  · refine List.filterMap_congr fun moment hm => ?_
    have hlt : moment < steps.length := List.mem_range.1 hm
    rw [enteredAt, List.take_append_of_le_length hlt.le, publishedAt_append_left hlt, enteredAt]
  · rw [← hlast, List.filterMap_cons, List.filterMap_nil]
    cases f.enteredAt queue capacity (steps ++ [step]) steps.length <;> rfl

/-! ## One queue of a run -/

/-- What a step means to a queue; `none` for a step that concerns other queues only. -/
def Step.on (queue : Nat) : Step ε → Option (Deed ε)
  | .subscribe _ => none
  | .unsubscribe q => if q = queue then some .leave else none
  | .publish event => some (.offer event)
  | .drain q => if q = queue then some .drain else none
  | .take q count => if q = queue then some (.take count) else none

variable {f : Feed ε} {q : Nat} {s : Subscription ε}

theorem held_eq (h : f.queues[q]? = some s) : f.held q = s.events := by
  rw [held, h]

private theorem getElem?_modify_at {α : Type} {xs : Array α} {p i : Nat} {x : α} (g : α → α)
    (h : xs[i]? = some x) :
    (xs.modify p g)[i]? = some (if p = i then g x else x) := by
  rw [Array.getElem?_modify, h]
  split <;> rfl

/-- A step acts on a queue through what it means to it, whatever the other queues are. -/
theorem queues_perform (h : f.queues[q]? = some s) (step : Step ε) :
    (f.perform step).queues[q]? = some (((step.on q).map s.after).getD s) := by
  cases step with
  | subscribe capacity =>
    rw [perform, subscribe, Array.getElem?_push_lt (Array.getElem?_eq_some_iff.1 h).1]
    exact congrArg some (Array.getElem?_eq_some_iff.1 h).2
  | publish event =>
    rw [perform, publish, Array.getElem?_map, h]
    rfl
  | unsubscribe p =>
    rw [perform, unsubscribe, getElem?_modify_at _ h, Step.on]
    split <;> rfl
  | drain p =>
    rw [perform, drain, getElem?_modify_at _ h, Step.on]
    split <;> rfl
  | take p count =>
    rw [perform, take, getElem?_modify_at _ h, Step.on]
    split <;> rfl

theorem hands_eq (h : f.queues[q]? = some s) (step : Step ε) :
    f.hands q step = (step.on q).bind s.gives := by
  cases step with
  | subscribe capacity => rfl
  | publish event => rfl
  | unsubscribe p =>
    rw [Step.on]
    split <;> rfl
  | drain p =>
    rw [Step.on, hands]
    split
    · next hp => subst hp; exact congrArg some (held_eq h)
    · rfl
  | take p count =>
    rw [Step.on, hands]
    split
    · next hp => subst hp; exact congrArg (fun es => some (es.take count)) (held_eq h)
    · rfl

theorem queues_run (h : f.queues[q]? = some s) (steps : List (Step ε)) :
    (f.run steps).queues[q]? = some (s.afterAll (steps.filterMap (Step.on q))) := by
  induction steps generalizing f s with
  | nil => exact h
  | cons step rest ih =>
    rw [run_cons, ih (queues_perform h step), List.filterMap_cons]
    cases step.on q <;> rfl

theorem handsAll_eq (h : f.queues[q]? = some s) (steps : List (Step ε)) :
    f.handsAll q steps = s.givesAll (steps.filterMap (Step.on q)) := by
  induction steps generalizing f s with
  | nil => rfl
  | cons step rest ih =>
    rw [handsAll, ih (queues_perform h step), hands_eq h, List.filterMap_cons]
    cases step.on q <;> rfl

/-- The queue of a subscription that just began. -/
def fresh (capacity : Int) : Subscription ε where
  capacity := capacity

theorem size_perform (f : Feed ε) (step : Step ε) :
    (f.perform step).queues.size = f.queues.size + created [step] := by
  cases step <;>
    simp [perform, subscribe, unsubscribe, publish, drain, take, created]

theorem size_run (f : Feed ε) (steps : List (Step ε)) :
    (f.run steps).queues.size = f.queues.size + created steps := by
  induction steps generalizing f with
  | nil => rfl
  | cons step rest ih =>
    have hc : created ([step] ++ rest) = created [step] + created rest :=
      List.countP_append
    rw [List.singleton_append] at hc
    rw [run_cons, ih, size_perform, hc, Nat.add_assoc]

theorem defaultCapacity_run (f : Feed ε) (steps : List (Step ε)) :
    (f.run steps).defaultCapacity = f.defaultCapacity := by
  induction steps generalizing f with
  | nil => rfl
  | cons step rest ih =>
    rw [run_cons, ih]
    cases step <;> rfl

theorem size_run_opened (d : Int) (steps : List (Step ε)) :
    ((opened d).run steps).queues.size = created steps := by
  rw [size_run]
  exact Nat.zero_add _

/-- The feed in which a subscription just began, after a run without subscribers at its start. -/
def joined (defaultCapacity : Int) (before : List (Step ε)) (capacity : Option Int) : Feed ε :=
  (opened defaultCapacity).run (before ++ [.subscribe capacity])

theorem run_joined (d : Int) (before after : List (Step ε)) (capacity : Option Int) :
    (joined d before capacity).run after
      = (opened d).run (before ++ .subscribe capacity :: after) := by
  rw [joined, ← run_append, List.append_assoc]
  rfl

/-- The queue of a subscription has the number of the subscriptions before it. -/
theorem queues_joined (d : Int) (before : List (Step ε)) (capacity : Option Int) :
    (joined d before capacity).queues[created before]? = some (fresh (capacity.getD d)) := by
  rw [joined, run_append, ← size_run_opened d before]
  change (Array.push _ _)[_]? = _
  rw [Array.getElem?_push_size, defaultCapacity_run]
  rfl

/-! ## Exact delivery -/

theorem active_perform (h : f.queues[q]? = some s) (step : Step ε) {t : Subscription ε}
    (ht : (f.perform step).queues[q]? = some t) : t.active = (s.active && !step.ends q) := by
  rw [queues_perform h, Option.some_inj] at ht
  subst ht
  cases step with
  | subscribe capacity => exact (Bool.and_true _).symm
  | publish event =>
    rw [Step.on, Option.map_some, Option.getD_some, Subscription.after, Subscription.receive]
    split <;> exact (Bool.and_true _).symm
  | unsubscribe p => by_cases hp : p = q <;> simp [Step.on, Step.ends, hp, Subscription.after]
  | drain p => by_cases hp : p = q <;> simp [Step.on, Step.ends, hp, Subscription.after]
  | take p count => by_cases hp : p = q <;> simp [Step.on, Step.ends, hp, Subscription.after]

theorem active_run (h : f.queues[q]? = some s) (steps : List (Step ε)) {t : Subscription ε}
    (ht : (f.run steps).queues[q]? = some t) : t.active = (s.active && !ended q steps) := by
  induction steps generalizing f s with
  | nil =>
    obtain rfl : s = t := Option.some_inj.1 (h.symm.trans ht)
    exact (Bool.and_true _).symm
  | cons step rest ih =>
    have hstep := queues_perform h step
    have hcons : ended q (step :: rest) = (step.ends q || ended q rest) := List.any_cons
    rw [ih hstep ht, active_perform h step hstep, hcons, Bool.not_or, Bool.and_assoc]

theorem event?_on (q : Nat) (step : Step ε) :
    (step.on q).bind Deed.event? = publishedAt [step] 0 := by
  cases step with
  | subscribe capacity | publish event => rfl
  | unsubscribe p | drain p | take p count =>
    rw [Step.on]
    split <;> rfl

theorem hands_append_held (h : f.queues[q]? = some s) (step : Step ε) :
    (f.hands q step).toList.flatten ++ (f.perform step).held q
      = s.events ++
        (if s.active ∧ HasRoom s.capacity s.events then publishedAt [step] 0
          else none).toList := by
  rw [hands_eq h, held_eq (queues_perform h step), ← event?_on q step]
  cases step.on q with
  | none => simp
  | some d => exact s.gives_append_after d

/-- What a queue hands out and what it still holds are the events that entered it, for a queue that
starts empty. -/
theorem handsAll_append_held (h : f.queues[q]? = some s) (hactive : s.active = true)
    (hempty : s.events = []) (steps : List (Step ε)) :
    (f.handsAll q steps).flatten ++ (f.run steps).held q = f.entered q s.capacity steps := by
  -- Induction from the end: the last step meets the queue that the run before it left.
  induction steps using List.reverseRecOn with
  | nil => exact (held_eq h).trans hempty
  | append_singleton steps step ih =>
    have ht := queues_run h steps
    have hlast := hands_append_held ht step
    rw [Subscription.afterAll_capacity, active_run h steps ht, hactive, Bool.true_and,
      ← held_eq ht] at hlast
    have hhands : (f.run steps).handsAll q [step] = ((f.run steps).hands q step).toList :=
      List.append_nil _
    rw [entered_snoc, ← ih, handsAll_append, run_append, hhands, List.flatten_append,
      List.append_assoc, List.append_assoc, ← hlast]
    rfl

/-! ## Lost events -/

/-- At the end of a run a queue has a subscription and no room. -/
def Loses (defaultCapacity : Int) (steps : List (Step ε)) (queue : Nat) : Prop :=
  ∃ before capacity after, steps = before ++ .subscribe capacity :: after ∧
    created before = queue ∧ ended queue after = false ∧
    ¬ HasRoom (capacity.getD defaultCapacity) (((opened defaultCapacity).run steps).held queue)

/-- Each queue was created by a subscription. -/
theorem exists_subscribe {steps : List (Step ε)} {queue : Nat} (h : queue < created steps) :
    ∃ before capacity after, steps = before ++ .subscribe capacity :: after ∧
      created before = queue := by
  induction steps using List.reverseRecOn with
  | nil => exact absurd h (Nat.not_lt_zero _)
  | append_singleton steps step ih =>
    by_cases hlt : queue < created steps
    · obtain ⟨before, capacity, after, rfl, hq⟩ := ih hlt
      exact ⟨before, capacity, after ++ [step], by simp, hq⟩
    · rw [created, List.countP_append, List.countP_singleton] at h
      change queue < created steps + _ at h
      cases step with
      | subscribe capacity => exact ⟨steps, capacity, [], rfl, by simp at h; omega⟩
      | unsubscribe _ | publish _ | drain _ | take _ _ => simp at h; omega

theorem drops_iff_loses (d : Int) (steps : List (Step ε)) (queue : Nat) :
    (∃ s, ((opened d).run steps).queues[queue]? = some s ∧ s.drops = true)
      ↔ Loses d steps queue := by
  -- The queue that a run leaves, by the subscription that created it.
  have hleft : ∀ before capacity after, steps = before ++ .subscribe capacity :: after →
      created before = queue → ∃ s, ((opened d).run steps).queues[queue]? = some s ∧
        s.active = !ended queue after ∧ s.capacity = capacity.getD d := by
    rintro before capacity after rfl rfl
    have hfresh := queues_joined d before capacity
    have hs := queues_run hfresh after
    have hactive := active_run hfresh after hs
    rw [run_joined] at hs
    exact ⟨_, hs, hactive, Subscription.afterAll_capacity _ _⟩
  constructor
  · rintro ⟨s, hs, hdrops⟩
    have hlt : queue < created steps := by
      rw [← size_run_opened d]
      exact (Array.getElem?_eq_some_iff.1 hs).1
    obtain ⟨before, capacity, after, hsteps, hq⟩ := exists_subscribe hlt
    obtain ⟨s', hs', hactive, hcapacity⟩ := hleft before capacity after hsteps hq
    obtain rfl : s' = s := Option.some_inj.1 (hs'.symm.trans hs)
    obtain ⟨hact, hroom⟩ := s'.drops_iff.1 hdrops
    rw [hactive, Bool.not_eq_true'] at hact
    rw [hcapacity, ← held_eq hs] at hroom
    exact ⟨before, capacity, after, hsteps, hq, hact, hroom⟩
  · rintro ⟨before, capacity, after, hsteps, hq, hact, hroom⟩
    obtain ⟨s, hs, hactive, hcapacity⟩ := hleft before capacity after hsteps hq
    rw [held_eq hs, ← hcapacity] at hroom
    exact ⟨s, hs, s.drops_iff.2 ⟨by rw [hactive, hact]; rfl, hroom⟩⟩

private theorem countP_eq_length_range {α : Type} (p : α → Bool) (xs : Array α) :
    xs.countP p = ((List.range xs.size).filter fun i => xs[i]?.any p).length := by
  have hmap : (List.range xs.size).map (fun i => xs[i]?) = xs.toList.map some := by
    refine List.ext_getElem (by simp) fun i h₁ h₂ => ?_
    simp at h₁
    simp [h₁]
  rw [← List.countP_eq_length_filter]
  calc xs.countP p
      = (xs.toList.map some).countP (Option.any p) := by
        rw [List.countP_map, ← Array.countP_toList]
        rfl
    _ = (List.range xs.size).countP fun i => xs[i]?.any p := by
        rw [← hmap, List.countP_map]
        rfl

/-- An event that is published is lost on the queues that have a subscription and no room, on each
of them once. -/
theorem exists_losers (d : Int) (steps : List (Step ε)) :
    ∃ losers : List Nat, losers.Nodup ∧ (∀ queue, queue ∈ losers ↔ Loses d steps queue) ∧
      ((opened d).run steps).dropCount = losers.length := by
  refine ⟨_, List.nodup_range.filter _, fun queue => ?_, countP_eq_length_range _ _⟩
  rw [← drops_iff_loses, List.mem_filter, List.mem_range, Option.any_eq_true]
  constructor
  · rintro ⟨-, s, hs, hdrops⟩
    exact ⟨s, hs, hdrops⟩
  · rintro ⟨s, hs, hdrops⟩
    exact ⟨(Array.getElem?_eq_some_iff.1 hs).1, s, hs, hdrops⟩

/-! ## Delivery -/

/-- What the owner of a queue can rely on.  Its subscription began in a feed with a default
capacity, after the steps `before`; then the steps `after` were taken. -/
structure Delivers (defaultCapacity : Int) (before : List (Step ε)) (capacity : Option Int)
    (after : List (Step ε)) : Prop where
  /-- What was handed out and what is held still are the events that entered, in their order. -/
  received :
    ((joined defaultCapacity before capacity).handsAll (created before) after).flatten
        ++ ((joined defaultCapacity before capacity).run after).held (created before)
      = (joined defaultCapacity before capacity).entered (created before)
          (capacity.getD defaultCapacity) after
  /-- A positive capacity is respected at every moment. -/
  bounded : ∀ moment, 0 < capacity.getD defaultCapacity →
    (((joined defaultCapacity before capacity).run (after.take moment)).held
      (created before)).length ≤ capacity.getD defaultCapacity
  /-- Steps that concern other queues only make no difference: neither to what is handed out each
  time, nor to what is held. -/
  independent : ∀ defaultCapacity' before' capacity' after',
    capacity'.getD defaultCapacity' = capacity.getD defaultCapacity →
    after'.filterMap (Step.on (created before')) = after.filterMap (Step.on (created before)) →
    (joined defaultCapacity' before' capacity').handsAll (created before') after'
        = (joined defaultCapacity before capacity).handsAll (created before) after ∧
      ((joined defaultCapacity' before' capacity').run after').held (created before')
        = ((joined defaultCapacity before capacity).run after).held (created before)

theorem delivers (d : Int) (before : List (Step ε)) (capacity : Option Int)
    (after : List (Step ε)) : Delivers d before capacity after where
  received := handsAll_append_held (queues_joined d before capacity) rfl rfl after
  bounded := fun moment hpos => by
    have hrun := queues_run (queues_joined d before capacity) (after.take moment)
    have hfresh : (fresh (capacity.getD d) : Subscription ε).Bounded := fun h => h.le
    have hle := hfresh.afterAll ((after.take moment).filterMap (Step.on (created before)))
    rw [held_eq hrun]
    rw [Subscription.Bounded, Subscription.afterAll_capacity] at hle
    exact hle hpos
  independent := fun d' before' capacity' after' hcapacity hsteps => by
    have hq := queues_joined d before capacity
    have hq' := queues_joined d' before' capacity'
    rw [hcapacity] at hq'
    refine ⟨?_, ?_⟩
    · rw [handsAll_eq hq', handsAll_eq hq, hsteps]
    · rw [held_eq (queues_run hq' after'), held_eq (queues_run hq after), hsteps]

/-- In any run of a feed each queue that was created receives exactly what is published while it
has a subscription and room, within its bound and whatever happens to the others; and when an index
tells its subscribers of an event, there is one note on a lost event for each queue that has a
subscription and no room. -/
theorem delivery_exact (d : Int) (steps : List (Step Event)) :
    (∀ before capacity after, steps = before ++ .subscribe capacity :: after →
      Delivers d before capacity after) ∧
    ∀ (a : Atlas) (e : Event), a.feed = (opened d).run steps →
      (a.tell e).feed = (opened d).run (steps ++ [.publish e]) ∧
      ∃ losers : List Nat, losers.Nodup ∧ (∀ queue, queue ∈ losers ↔ Loses d steps queue) ∧
        (a.tell e).journal
          = a.journal ++ losers.map fun _ => .eventDropped e.kind.name e.name := by
  refine ⟨fun before capacity after _ => delivers d before capacity after, fun a e ha => ⟨?_, ?_⟩⟩
  · rw [run_append, ← ha]
    rfl
  · obtain ⟨losers, hnodup, hmem, hcount⟩ := exists_losers d steps
    refine ⟨losers, hnodup, hmem, ?_⟩
    change a.journal ++ List.replicate a.feed.dropCount _ = _
    rw [ha, hcount, List.map_const']

/-- Two subscribers, the second with room for one event only.  It receives what it would receive
alone, and one note tells of the event that finds it full. -/
theorem delivery_exact_twoQueues :
    let read : Event := { kind := .read, name := "a.php" }
    let parse : Event := { kind := .parse, name := "a.php" }
    let full : List (Step Event) := [.subscribe none, .subscribe (some 1), .publish read]
    let index : Atlas := { (default : Atlas) with feed := (opened 1000).run full }
    Delivers 1000 [.subscribe none] (some 1) [.publish read] ∧
    (joined 5 [] none).handsAll 0 [.publish read, .publish parse, .drain 0, .publish parse]
        = (joined 5 [.subscribe (some 2)] none).handsAll 1
            [.publish read, .unsubscribe 0, .publish parse, .drain 1, .drain 0, .publish parse] ∧
    ∃ losers : List Nat, losers.Nodup ∧ (∀ queue, queue ∈ losers ↔ Loses 1000 full queue) ∧
      (index.tell parse).journal = [] ++ losers.map fun _ => .eventDropped "parse" "a.php" := by
  intro read parse full index
  refine ⟨(delivery_exact 1000 full).1 [.subscribe none] (some 1) [.publish read] rfl, ?_,
    ((delivery_exact 1000 full).2 index parse rfl).2⟩
  have hdelivers := (delivery_exact 5 _).1 [.subscribe (some 2)] none
    [.publish read, .unsubscribe 0, .publish parse, .drain 1, .drain 0, .publish parse] rfl
  exact (hdelivers.independent 5 [] none
    [.publish read, .publish parse, .drain 0, .publish parse] rfl rfl).1

end Feed

end SymbolAtlas
