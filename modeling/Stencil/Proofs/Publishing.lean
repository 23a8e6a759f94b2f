import Mathlib.Data.List.Basic
import Mathlib.Data.List.Induction
import Mathlib.Data.List.Infix
import Stencil.LiveView

/-!
What a live view publishes.

A view is notified, flushed, refreshed and given other templates while its store changes.
All that it knows of the past is a flag. `LiveView.dirty_iff_stale` says what the flag
stands for, in terms of the events alone: the view has not published anything yet, or there
was a notice or another template since it last did.

`LiveView.published_spec` follows: what is published and when, and that a view which is not
dirty shows the present data, unless an update still waits for its notice.
-/

namespace Stencil.LiveView

/-! ## Runs -/

/-- What happens to a view and its store. -/
inductive Event
  | notify
  | flush
  | refresh
  | replace (shared : SharedTemplate)
  /-- The store changes in whatever way. The view is not told. -/
  | update (change : Store → Store)

/-- Whether an event is a reason to render again what is shown: a notice, or another
template than the one that is shown. -/
def Event.Alerts (shown : SharedTemplate) (event : Event) : Prop :=
  event = .notify ∨ ∃ new, event = .replace new ∧ new ≠ shown

/-- A view and the store that it shows. -/
structure Display (σ : Type) where
  view : LiveView σ
  store : Store

namespace Display

variable {σ : Type} [Sink σ]

def after (d : Display σ) : Event → Display σ
  | .notify => { d with view := d.view.notify }
  | .flush => { d with view := (d.view.flush d.store).2 }
  | .refresh => { d with view := (d.view.refresh d.store).2 }
  | .replace shared => { d with view := d.view.replace shared }
  | .update change => { d with store := change d.store }

def run (d : Display σ) (events : List Event) : Display σ := events.foldl after d

theorem run_append_singleton (d : Display σ) (events : List Event) (event : Event) :
    d.run (events ++ [event]) = (d.run events).after event := by
  rw [run, List.foldl_append]
  rfl

end Display

/-- The template that was given last. -/
def templateAfter (shared : SharedTemplate) (events : List Event) : SharedTemplate :=
  events.foldl (fun | _, .replace new => new | old, _ => old) shared

/-- The store after all updates. -/
def storeAfter (store : Store) (events : List Event) : Store :=
  events.foldl (fun | before, .update change => change before | before, _ => before) store

section Run

variable (shared : SharedTemplate) (options : Options) (store : Store) (events : List Event)

/-- A new view whose sink keeps every output, after a run. -/
def observed : Display (List Rendered) := Display.run ⟨.new shared options [], store⟩ events

/-- All outputs that a new view publishes in a run. -/
def published : List Rendered := (observed shared options store events).view.sink

/-- The present template with the present data. -/
def current : Rendered :=
  (templateAfter shared events).template.render (storeAfter store events) options

/-- Whether there is a reason to render: nothing has been published yet, or there was a
notice or another template since the last output. -/
def Stale : Prop :=
  published shared options store events = [] ∨
    ∃ front event back, events = front ++ event :: back ∧
      published shared options store events = published shared options store front ∧
      event.Alerts (templateAfter shared front)

/-- Whether an update still waits for its notice. -/
def Waiting : Prop :=
  ∃ front change back, events = front ++ .update change :: back ∧ .notify ∉ back

end Run

variable {shared : SharedTemplate} {options : Options} {store : Store} {events : List Event}

theorem observed_append_singleton (event : Event) :
    observed shared options store (events ++ [event]) =
      (observed shared options store events).after event :=
  Display.run_append_singleton _ events event

/-! ## The present template and data -/

theorem templateAfter_append_singleton (event : Event) :
    templateAfter shared (events ++ [event]) =
      match event with
      | .replace new => new
      | _ => templateAfter shared events := by
  rw [templateAfter, List.foldl_append]
  cases event <;> rfl

theorem storeAfter_append_singleton (event : Event) :
    storeAfter store (events ++ [event]) =
      match event with
      | .update change => change (storeAfter store events)
      | _ => storeAfter store events := by
  rw [storeAfter, List.foldl_append]
  cases event <;> rfl

theorem store_observed : (observed shared options store events).store = storeAfter store events := by
  induction events using List.reverseRecOn with
  | nil => rfl
  | append_singleton events event ih =>
    rw [observed_append_singleton, storeAfter_append_singleton, ← ih]
    cases event <;> rfl

/-! ## Single events -/

section Step

variable {σ : Type}

theorem shared_replace (v : LiveView σ) (new : SharedTemplate) : (v.replace new).shared = new := by
  unfold replace
  split
  · exact Eq.symm ‹_›
  · rfl

theorem dirty_replace_iff (v : LiveView σ) (new : SharedTemplate) :
    (v.replace new).dirty = true ↔ v.dirty = true ∨ new ≠ v.shared := by
  unfold replace
  split
  · rename_i same
    simp [same]
  · rename_i other
    simp [other]

variable [Sink σ]

/-- An event makes a view render, or it publishes nothing and at most adds a reason to
render. -/
theorem Display.after_cases (d : Display σ) (event : Event) :
    ((event = .refresh ∨ event = .flush ∧ d.view.dirty = true) ∧
      d.after event = { d with view := (d.view.refresh d.store).2 }) ∨
    ((event ≠ .refresh ∧ (event = .flush → d.view.dirty = false)) ∧
      (d.after event).view.sink = d.view.sink ∧
      (d.after event).view.renderCount = d.view.renderCount ∧
      ((d.after event).view.dirty = true ↔ d.view.dirty = true ∨ event.Alerts d.view.shared)) := by
  cases event with
  | notify =>
    right
    refine ⟨⟨nofun, nofun⟩, rfl, rfl, ?_⟩
    exact ⟨fun _ => .inr (.inl rfl), fun _ => rfl⟩
  | flush =>
    cases dirty : d.view.dirty with
    | true =>
      left
      refine ⟨.inr ⟨rfl, rfl⟩, ?_⟩
      rw [Display.after, flush, if_pos dirty]
    | false =>
      right
      have same : d.after .flush = d := by
        rw [Display.after, flush, dirty]
        rfl
      rw [same, dirty]
      refine ⟨⟨nofun, fun _ => rfl⟩, rfl, rfl, ?_⟩
      simp [Event.Alerts]
  | refresh =>
    left
    exact ⟨.inl rfl, rfl⟩
  | replace new =>
    right
    refine ⟨⟨nofun, nofun⟩, ?_, ?_, ?_⟩
    · rw [Display.after, replace]
      split <;> rfl
    · rw [Display.after, replace]
      split <;> rfl
    · rw [Display.after, dirty_replace_iff]
      simp [Event.Alerts]
  | update change =>
    right
    refine ⟨⟨nofun, nofun⟩, rfl, rfl, ?_⟩
    simp [Display.after, Event.Alerts]

end Step

/-! ## The observed run -/

theorem shared_observed :
    (observed shared options store events).view.shared = templateAfter shared events := by
  induction events using List.reverseRecOn with
  | nil => rfl
  | append_singleton events event ih =>
    rw [observed_append_singleton, templateAfter_append_singleton, ← ih]
    cases event with
    | replace new => exact shared_replace _ new
    | flush =>
      rw [Display.after, flush]
      split <;> rfl
    | _ => rfl

theorem options_observed : (observed shared options store events).view.options = options := by
  induction events using List.reverseRecOn with
  | nil => rfl
  | append_singleton events event ih =>
    rw [observed_append_singleton]
    refine Eq.trans ?_ ih
    cases event with
    | replace new =>
      rw [Display.after, replace]
      split <;> rfl
    | flush =>
      rw [Display.after, flush]
      split <;> rfl
    | _ => rfl

/-- A render publishes the present template with the present data. -/
theorem sink_refresh_observed :
    ((observed shared options store events).view.refresh
      (observed shared options store events).store).2.sink =
      published shared options store events ++ [current shared options store events] := by
  rw [refresh, store_observed, shared_observed, options_observed]
  rfl

/-- Whether an event makes the view publish. -/
def Publishes (shared : SharedTemplate) (options : Options) (store : Store) (events : List Event)
    (event : Event) : Prop :=
  event = .refresh ∨ event = .flush ∧ (observed shared options store events).view.dirty = true

/-- What one more event does: it publishes the present output, and no reason to render is
left, or it publishes nothing, and it may be a reason itself. -/
theorem observed_cases (shared : SharedTemplate) (options : Options) (store : Store)
    (events : List Event) (event : Event) :
    let d := observed shared options store events
    let next := observed shared options store (events ++ [event])
    (Publishes shared options store events event ∧
      published shared options store (events ++ [event]) =
        published shared options store events ++ [current shared options store events] ∧
      next.view.renderCount = d.view.renderCount + 1 ∧ next.view.dirty = false) ∨
    (¬ Publishes shared options store events event ∧
      published shared options store (events ++ [event]) = published shared options store events ∧
      next.view.renderCount = d.view.renderCount ∧
      (next.view.dirty = true ↔ d.view.dirty = true ∨ event.Alerts (templateAfter shared events))) := by
  intro d next
  have step : next = d.after event := observed_append_singleton event
  rcases d.after_cases event with ⟨publishes, rendered⟩ | ⟨⟨noRefresh, noFlush⟩, sink, count, dirty⟩
  · left
    rw [published, ← sink_refresh_observed]
    change _ ∧ next.view.sink = _ ∧ _
    rw [step, rendered]
    exact ⟨publishes, rfl, rfl, rfl⟩
  · right
    rw [published, published]
    change _ ∧ next.view.sink = d.view.sink ∧ _
    rw [step]
    refine ⟨?_, sink, count, ?_⟩
    · intro publishes
      rcases publishes with refreshed | ⟨flushed, isDirty⟩
      · exact noRefresh refreshed
      · exact Bool.false_ne_true ((noFlush flushed).symm.trans isDirty)
    · rw [dirty, shared_observed]

/-- What is published stays published. -/
theorem published_append (shared : SharedTemplate) (options : Options) (store : Store)
    (front back : List Event) :
    published shared options store front <+: published shared options store (front ++ back) := by
  induction back using List.reverseRecOn with
  | nil => rw [List.append_nil]
  | append_singleton back event ih =>
    rw [← List.append_assoc]
    rcases observed_cases shared options store (front ++ back) event with
      ⟨-, grown, -⟩ | ⟨-, same, -⟩
    · rw [grown]
      exact ih.trans (List.prefix_append _ _)
    · rw [same]
      exact ih

/-! ## What the flag stands for -/

/-- After an output there is no reason to render. -/
theorem not_stale_of_published {event : Event}
    (grown : published shared options store (events ++ [event]) =
      published shared options store events ++ [current shared options store events]) :
    ¬ Stale shared options store (events ++ [event]) := by
  intro stale
  rcases stale with none | ⟨front, reason, back, split, same, -⟩
  · rw [grown] at none
    exact List.append_ne_nil_of_right_ne_nil _ (List.cons_ne_nil _ _) none
  · -- The reason came before the output.
    obtain ⟨rest, rfl⟩ : front <+: events := by
      rcases List.eq_nil_or_concat' back with rfl | ⟨init, last, rfl⟩
      · rw [(List.append_inj' split rfl).1]
      · rw [← List.cons_append, ← List.append_assoc] at split
        rw [(List.append_inj' split rfl).1]
        exact List.prefix_append front _
    have shorter := (published_append shared options store front rest).length_le
    rw [← same, grown, List.length_append, List.length_singleton] at shorter
    exact absurd shorter (Nat.not_succ_le_self _)

/-- An event that publishes nothing adds at most itself to the reasons to render. -/
theorem stale_append_singleton_iff {event : Event}
    (silent : published shared options store (events ++ [event]) =
      published shared options store events) :
    Stale shared options store (events ++ [event]) ↔
      Stale shared options store events ∨ event.Alerts (templateAfter shared events) := by
  rw [Stale, Stale, silent]
  constructor
  · intro stale
    rcases stale with none | ⟨front, reason, back, split, same, alerts⟩
    · exact .inl (.inl none)
    · rcases List.eq_nil_or_concat' back with rfl | ⟨init, last, rfl⟩
      · obtain ⟨rfl, ⟨⟩⟩ := List.append_inj' split rfl
        exact .inr alerts
      · rw [← List.cons_append, ← List.append_assoc] at split
        obtain ⟨rfl, -⟩ := List.append_inj' split rfl
        exact .inl (.inr ⟨front, reason, init, rfl, same, alerts⟩)
  · intro reasons
    rcases reasons with (none | ⟨front, reason, back, rfl, same, alerts⟩) | alerts
    · exact .inl none
    · exact .inr ⟨front, reason, back ++ [event], List.append_assoc _ _ _, same, alerts⟩
    · exact .inr ⟨events, event, [], rfl, rfl, alerts⟩

/-- The flag of a view says whether there is a reason to render. -/
theorem dirty_iff_stale :
    (observed shared options store events).view.dirty = true ↔ Stale shared options store events := by
  induction events using List.reverseRecOn with
  | nil => exact ⟨fun _ => .inl rfl, fun _ => rfl⟩
  | append_singleton events event ih =>
    rcases observed_cases shared options store events event with
      ⟨-, grown, -, clean⟩ | ⟨-, silent, -, dirty⟩
    · rw [clean]
      exact ⟨nofun, fun stale => absurd stale (not_stale_of_published grown)⟩
    · rw [dirty, stale_append_singleton_iff silent, ih]

theorem renderCount_observed :
    (observed shared options store events).view.renderCount =
      (published shared options store events).length := by
  induction events using List.reverseRecOn with
  | nil => rfl
  | append_singleton events event ih =>
    rcases observed_cases shared options store events event with
      ⟨-, grown, count, -⟩ | ⟨-, silent, count, -⟩
    · rw [count, grown, ih, List.length_append, List.length_singleton]
    · rw [count, silent, ih]

/-! ## Present outputs -/

theorem waiting_append_singleton {event : Event} (waiting : Waiting events)
    (other : event ≠ .notify) : Waiting (events ++ [event]) := by
  obtain ⟨front, change, back, rfl, unnoticed⟩ := waiting
  refine ⟨front, change, back ++ [event], List.append_assoc _ _ _, ?_⟩
  rw [List.mem_append, List.mem_singleton, not_or]
  exact ⟨unnoticed, fun same => other same.symm⟩

/-- What is shown, and with which data, changes only with an event that leaves a reason to
render or waits for a notice. -/
theorem current_append_singleton {event : Event}
    (calm : ¬ event.Alerts (templateAfter shared events)) (settled : ¬ Waiting (events ++ [event])) :
    current shared options store (events ++ [event]) = current shared options store events := by
  rw [current, templateAfter_append_singleton, storeAfter_append_singleton]
  cases event with
  | replace new =>
    have same : new = templateAfter shared events := by
      by_contra other
      exact calm (.inr ⟨new, rfl, other⟩)
    rw [same]
    rfl
  | update change => exact absurd ⟨events, change, [], rfl, List.not_mem_nil⟩ settled
  | _ => rfl

/-- A view that is not dirty has published the present output last, unless an update waits
for its notice. -/
theorem getLast?_published (clean : (observed shared options store events).view.dirty = false)
    (settled : ¬ Waiting events) :
    (published shared options store events).getLast? = some (current shared options store events) := by
  induction events using List.reverseRecOn with
  | nil => cases clean
  | append_singleton events event ih =>
    rcases observed_cases shared options store events event with
      ⟨publishes, grown, -⟩ | ⟨-, silent, -, dirty⟩
    · have calm : ¬ event.Alerts (templateAfter shared events) := by
        intro alerts
        rcases publishes with rfl | ⟨rfl, -⟩ <;> rcases alerts with same | ⟨_, same, -⟩ <;> cases same
      rw [grown, List.getLast?_concat, current_append_singleton calm settled]
    · have quiet : ¬ _ := fun reason => Bool.false_ne_true (clean.symm.trans (dirty.2 reason))
      obtain ⟨before, calm⟩ := not_or.1 quiet
      have unnoticed : event ≠ .notify := fun same => calm (.inl same)
      have earlier := ih (Bool.eq_false_iff.2 before)
        fun waiting => settled (waiting_append_singleton waiting unnoticed)
      rw [silent, earlier, current_append_singleton calm settled]

/-! ## Any sink -/

section Sinks

variable {σ τ : Type}

/-- The same view with another sink. -/
def mapSink (f : σ → τ) (v : LiveView σ) : LiveView τ :=
  ⟨v.shared, v.options, f v.sink, v.dirty, v.renderCount⟩

variable [Sink σ] [Sink τ] {f : σ → τ}

/-- A view does not look at its sink. -/
theorem Display.after_mapSink
    (keeps : ∀ sink rendered, f (Sink.publish sink rendered) = Sink.publish (f sink) rendered)
    (d : Display σ) (event : Event) :
    Display.after ⟨d.view.mapSink f, d.store⟩ event =
      ⟨(d.after event).view.mapSink f, (d.after event).store⟩ := by
  have refreshed : ((d.view.mapSink f).refresh d.store).2 =
      (d.view.refresh d.store).2.mapSink f := by
    simp only [refresh, mapSink, keeps]
  cases event with
  | flush =>
    by_cases dirty : d.view.dirty = true
    · have mapped : (d.view.mapSink f).dirty = true := dirty
      simp only [Display.after, flush, if_pos dirty, if_pos mapped, refreshed]
    · have mapped : ¬ (d.view.mapSink f).dirty = true := dirty
      simp only [Display.after, flush, if_neg dirty, if_neg mapped]
  | refresh => simp only [Display.after, refreshed]
  | replace new =>
    by_cases same : new = d.view.shared <;> simp [Display.after, replace, mapSink, same]
  | _ => rfl

theorem run_eq_observed (sink : σ) :
    Display.run ⟨.new shared options sink, store⟩ events =
      ⟨(observed shared options store events).view.mapSink (·.foldl Sink.publish sink),
        (observed shared options store events).store⟩ := by
  induction events using List.reverseRecOn with
  | nil => rfl
  | append_singleton events event ih =>
    rw [Display.run_append_singleton, ih, observed_append_singleton]
    exact Display.after_mapSink (fun _ _ => List.foldl_append) _ event

end Sinks

/-- What a new view publishes, whatever its sink.

Its sink is given the outputs in order, and there are as many as it counts. A view that is
not dirty has published the present template with the present data last, unless an update
waits for its notice. A flush publishes the present output if there is a reason to, and
nothing otherwise; a refresh always publishes it; and no other event publishes anything. -/
theorem published_spec {σ : Type} [Sink σ] (shared : SharedTemplate) (options : Options) (sink : σ)
    (store : Store) (events : List Event) :
    let d := Display.run ⟨.new shared options sink, store⟩ events
    let outputs := published shared options store
    let output := current shared options store events
    (d.view.sink = (outputs events).foldl Sink.publish sink ∧
      d.view.renderCount = (outputs events).length) ∧
    (d.view.shared = templateAfter shared events ∧ d.store = storeAfter store events) ∧
    (d.view.dirty = false → ¬ Waiting events → (outputs events).getLast? = some output) ∧
    (Stale shared options store events →
      (d.view.flush d.store).1 = true ∧ outputs (events ++ [.flush]) = outputs events ++ [output]) ∧
    (¬ Stale shared options store events →
      (d.view.flush d.store).1 = false ∧ outputs (events ++ [.flush]) = outputs events) ∧
    ((d.view.refresh d.store).1 = output ∧
      outputs (events ++ [.refresh]) = outputs events ++ [output]) ∧
    (outputs [] = [] ∧ ∀ event, event ≠ .flush → event ≠ .refresh →
      outputs (events ++ [event]) = outputs events) := by
  intro d outputs output
  have run : d = ⟨(observed shared options store events).view.mapSink
      (·.foldl Sink.publish sink), (observed shared options store events).store⟩ :=
    run_eq_observed sink
  have step := observed_cases shared options store events
  rw [run]
  refine ⟨⟨rfl, renderCount_observed⟩, ⟨shared_observed, store_observed⟩, ?settled, ?stale, ?fresh,
    ?refreshed, rfl, ?silent⟩
  case settled => exact fun clean settled => getLast?_published clean settled
  case stale =>
    intro stale
    have dirty := dirty_iff_stale.2 stale
    have mapped : ((observed shared options store events).view.mapSink
      (·.foldl Sink.publish sink)).dirty = true := dirty
    refine ⟨by rw [flush, if_pos mapped], ?_⟩
    rcases step .flush with ⟨-, grown, -⟩ | ⟨silent, -⟩
    · exact grown
    · exact absurd (.inr ⟨rfl, dirty⟩) silent
  case fresh =>
    intro fresh
    have clean := mt dirty_iff_stale.1 fresh
    have mapped : ¬ ((observed shared options store events).view.mapSink
      (·.foldl Sink.publish sink)).dirty = true := clean
    refine ⟨by rw [flush, if_neg mapped], ?_⟩
    rcases step .flush with ⟨same | ⟨-, dirty⟩, -⟩ | ⟨-, silent, -⟩
    · cases same
    · exact absurd dirty clean
    · exact silent
  case refreshed =>
    refine ⟨?_, ?_⟩
    · simp only [refresh, mapSink, shared_observed, options_observed, store_observed]
      rfl
    · rcases step .refresh with ⟨-, grown, -⟩ | ⟨silent, -⟩
      · exact grown
      · exact absurd (.inl rfl) silent
  case silent =>
    intro event noFlush noRefresh
    rcases step event with ⟨same | ⟨same, -⟩, -⟩ | ⟨-, silent, -⟩
    · exact absurd same noRefresh
    · exact absurd same noFlush
    · exact silent

theorem foldl_publish_texts (texts : List String) (outputs : List Rendered) :
    outputs.foldl Sink.publish texts = texts ++ outputs.map (·.text) := by
  induction outputs generalizing texts with
  | nil => simp
  | cons output outputs ih =>
    rw [List.foldl_cons, ih]
    simp [Sink.publish]

/-- A sink of texts has the text of every output. -/
theorem texts_run :
    (Display.run ⟨.new shared options ([] : List String), store⟩ events).view.sink =
      (published shared options store events).map (·.text) := by
  rw [run_eq_observed]
  exact foldl_publish_texts [] _

end Stencil.LiveView
