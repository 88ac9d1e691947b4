import PropzaAmlak.CallCenter.Call
import PropzaAmlak.Tx.Histories

/-! Calls whose events arrive in any order, and more than once. -/

namespace CallCenter

open Ejar (CharField)

/-- What the webhooks receive for a call that is there: a status form of Twilio, or an
event of the general webhook with its recording. -/
inductive Event
  | status (form : StatusForm)
  | pbx (event : PbxEvent) (recordingUrl : CharField)
deriving DecidableEq

/-- The call after the event; `none` where it is not processed. -/
def receive (now : Nat) (call : Call) : Event → Option Call
  | .status form => (applyCallStatus now form call).toOption
  | .pbx .ringing _ => some call
  | .pbx event recordingUrl => pbxWrite now event recordingUrl call

inductive Kind
  | ringing | answered | final
deriving DecidableEq

namespace Event

def kind : Event → Option Kind
  | .status form =>
    match form.callStatus with
    | .ringing => some .ringing
    | .inProgress => some .answered
    | .other _ => none
    | _ => some .final
  | .pbx event _ =>
    match event with
    | .ringing => some .ringing
    | .answered => some .answered
    | .other _ => none
    | _ => some .final

/-- The general webhook does nothing when a call rings that it has already. -/
def Reopens (e : Event) : Prop := e.kind = some .answered ∨ ∃ form, e = .status form ∧ form.callStatus = .ringing

/-- The state a final event leads to. -/
def finalState (answered : Bool) : Event → CallState
  | .status form =>
    if form.callStatus = .completed ∧ (answered ∨ ∃ n ∈ form.seconds.bind intOfText, 0 < n) then .ended else .missed
  | .pbx event _ => if event = .voicemail then .voicemail else if answered then .ended else .missed

end Event

/-- `ended`, `missed` and `voicemail` -/
def Terminal (state : CallState) : Prop := state ≠ .ringing ∧ state ≠ .answered

/-- A call, and the time of what came last. -/
structure Line where
  call : Call
  clock : Nat

inductive Arrival
  | event (e : Event)
  | cron

/-- What arrives is taken up `wait` seconds after what came before it. -/
def act (s : Line) (a : Nat × Arrival) : Line :=
  let now := s.clock + a.1
  match a.2 with
  | .event e => ⟨(receive now s.call e).getD s.call, now⟩
  | .cron => ⟨s.call.closeStaleRinging 30 now, now⟩

/-- A call that has just been made. -/
structure Fresh (s : Line) : Prop where
  state : s.call.state = .ringing
  answer : s.call.answerDatetime = none
  stop : s.call.endDatetime = none

/-- The events of one call as they happen: it may ring, it may be answered, and it is over. -/
structure Story where
  before : List Event
  last : Event
  inOrder : (before.map Event.kind).Sublist [some .ringing, some .answered]
  final : last.kind = some .final

def Story.events (story : Story) : List Event := story.before ++ [story.last]

def Processed (s : Line) (e : Event) (arrivals : List (Nat × Arrival)) : Prop :=
  ∃ before wait, before ++ [(wait, .event e)] <+: arrivals ∧
    (receive ((Tx.after act s before).clock + wait) (Tx.after act s before).call e).isSome

/-- All the events of the story are processed, in any order and any number of times, and no
others arrive. -/
structure Delivers (story : Story) (s : Line) (arrivals : List (Nat × Arrival)) : Prop where
  only : ∀ wait e, (wait, Arrival.event e) ∈ arrivals → e ∈ story.events
  every : ∀ e ∈ story.events, Processed s e arrivals

/-- The laws of one arrival: a call that is over keeps its state, and the cron makes no
call missed that was answered. -/
structure Keeps (s : Line) (a : Nat × Arrival) : Prop where
  terminal : Terminal s.call.state → (act s a).call.state = s.call.state
  answered : a.2 = .cron → s.call.answerDatetime.isSome → s.call.state ≠ .missed → (act s a).call.state ≠ .missed

/-- The order of the events does not matter. -/
structure Orderless (story : Story) (s : Line) (arrivals : List (Nat × Arrival)) : Prop where
  law : Tx.EachStep act Keeps s arrivals
  times : Tx.Always act (fun s => ∀ answer stop, s.call.answerDatetime = some answer →
    s.call.endDatetime = some stop → answer ≤ stop) s arrivals
  converges : ∀ ordered, ordered.map Prod.snd = story.events.map .event → Delivers story s ordered →
    (Tx.after act s arrivals).call.state = (Tx.after act s ordered).call.state

/-- What may arrive: to a call that is over, nothing that reopens it and no final event
that leads to another state, and the cron not while a call that was answered rings for
too long. -/
def Fits (s : Line) (a : Nat × Arrival) : Prop :=
  match a.2 with
  | .event e => Terminal s.call.state → ¬e.Reopens ∧
      (e.kind = some .final → (receive (s.clock + a.1) s.call e).isSome →
        e.finalState s.call.answerDatetime.isSome = s.call.state)
  | .cron => s.call.answerDatetime.isSome → s.call.state = .ringing →
      ∀ start, s.call.startDatetime = some start → s.clock + a.1 < start + 1800

variable {now : Nat} {call call' : Call} {e : Event} {s : Line} {a : Nat × Arrival} {story : Story}
  {arrivals : List (Nat × Arrival)} {form : StatusForm}

theorem receive_none (hkind : e.kind = none) (h : receive now call e = some call') : call' = call := by
  cases e with
  | status form =>
    cases hstatus : form.callStatus with
    | other text =>
      simp [receive, applyCallStatus, hstatus, missedStatuses, Except.toOption] at h
      exact h.symm
    | _ => simp [Event.kind, hstatus] at hkind
  | pbx event url =>
    cases event with
    | other text => simp [receive, pbxWrite] at h
    | _ => simp [Event.kind] at hkind

theorem receive_ringing (hkind : e.kind = some .ringing) (h : receive now call e = some call') :
    call'.answerDatetime = call.answerDatetime ∧ call'.endDatetime = call.endDatetime ∧
      (¬e.Reopens ∧ call'.state = call.state ∨ e.Reopens ∧ call'.state = .ringing) := by
  cases e with
  | status form =>
    cases hstatus : form.callStatus with
    | ringing =>
      simp only [receive, applyCallStatus, hstatus, Except.toOption, Option.some.injEq] at h
      subst h
      exact ⟨rfl, rfl, .inr ⟨.inr ⟨form, rfl, hstatus⟩, rfl⟩⟩
    | _ => simp [Event.kind, hstatus] at hkind
  | pbx event url =>
    cases event with
    | ringing =>
      simp only [receive, Option.some.injEq] at h
      subst h
      have hnot : ¬(Event.pbx .ringing url).Reopens := by simp [Event.Reopens, Event.kind]
      exact ⟨rfl, rfl, .inl ⟨hnot, rfl⟩⟩
    | _ => simp [Event.kind] at hkind

theorem receive_answered (hkind : e.kind = some .answered) :
    receive now call e = some { call with state := .answered, answerDatetime := some now } := by
  cases e with
  | status form =>
    cases hstatus : form.callStatus with
    | inProgress => simp [receive, applyCallStatus, hstatus, Except.toOption]
    | _ => simp [Event.kind, hstatus] at hkind
  | pbx event url =>
    cases event with
    | answered => rfl
    | _ => simp [Event.kind] at hkind

theorem answeredAt_ok {answer : Option Nat} (h : answeredAt now form = .ok answer) :
    (answer.isSome ↔ ∃ n ∈ form.seconds.bind intOfText, 0 < n) ∧ ∀ t ∈ answer, t ≤ now := by
  unfold answeredAt at h
  cases hseconds : form.seconds with
  | none =>
    simp only [hseconds, Except.ok.injEq] at h
    subst h
    simp
  | some text =>
    cases hread : intOfText text with
    | none => simp [hseconds, hread] at h
    | some n =>
      simp only [hseconds, hread] at h
      by_cases hpos : n ≤ 0
      · rw [if_pos hpos] at h
        obtain rfl := Except.ok.inj h
        simp [hread, hpos]
      · by_cases hlate : (now : Int) < n
        · rw [if_neg hpos, if_pos hlate] at h
          simp at h
        · rw [if_neg hpos, if_neg hlate] at h
          obtain rfl := Except.ok.inj h
          simp [hread]
          omega

/-- What a final event leaves, if it is processed. -/
structure Closes (now : Nat) (e : Event) (call call' : Call) : Prop where
  state : call'.state = e.finalState call.answerDatetime.isSome
  stop : call'.endDatetime = some now
  answered : call.answerDatetime.isSome → call'.answerDatetime = call.answerDatetime
  answer : ∀ t, call'.answerDatetime = some t → call.answerDatetime = some t ∨ t ≤ now

theorem closes_complete (hstatus : form.callStatus = .completed) (h : complete now form call = .ok call') :
    Closes now (.status form) call call' := by
  unfold complete at h
  cases hanswer : call.answerDatetime with
  | some t =>
    simp only [hanswer, Option.isSome_some, if_true, pure_bind] at h
    obtain rfl := Except.ok.inj h
    exact ⟨by simp [Event.finalState, hstatus, hanswer], rfl, fun _ => hanswer.symm,
      fun t ht => .inl (hanswer.trans ht)⟩
  | none =>
    cases hat : answeredAt now form with
    | error fault => simp [hanswer, hat, bind, Except.bind] at h
    | ok answer =>
      obtain ⟨hsome, hpast⟩ := answeredAt_ok hat
      simp only [hanswer, hat, Option.isSome_none, Bool.false_eq_true, if_false, bind, Except.bind] at h
      obtain rfl := Except.ok.inj h
      refine ⟨?_, rfl, ?_, ?_⟩
      · simp only [Event.finalState, hstatus, hanswer, Option.isSome_none, Bool.false_eq_true, false_or, true_and,
          hsome]
      · intro hset
        simp [hanswer] at hset
      · intro t ht
        exact .inr (hpast t ht)

theorem receive_final (hkind : e.kind = some .final) (h : receive now call e = some call') :
    Closes now e call call' := by
  cases e with
  | status form =>
    cases hstatus : form.callStatus with
    | completed =>
      cases hcomplete : complete now form call with
      | error fault => simp [receive, applyCallStatus, hstatus, hcomplete, Except.toOption] at h
      | ok call'' =>
        simp only [receive, applyCallStatus, hstatus, hcomplete, Except.toOption, Option.some.injEq] at h
        subst h
        exact closes_complete hstatus hcomplete
    | ringing => simp [Event.kind, hstatus] at hkind
    | inProgress => simp [Event.kind, hstatus] at hkind
    | other text => simp [Event.kind, hstatus] at hkind
    | _ =>
      simp [receive, applyCallStatus, hstatus, missedStatuses, Except.toOption] at h
      subst h
      exact ⟨by simp [Event.finalState, hstatus], rfl, fun _ => rfl, fun t ht => .inl ht⟩
  | pbx event url =>
    cases event with
    | ended =>
      simp only [receive, pbxWrite, Option.some.injEq] at h
      subst h
      exact ⟨by simp [Event.finalState], rfl, fun _ => rfl, fun t ht => .inl ht⟩
    | voicemail =>
      simp only [receive, pbxWrite, Option.some.injEq] at h
      subst h
      exact ⟨by simp [Event.finalState], rfl, fun _ => rfl, fun t ht => .inl ht⟩
    | _ => simp [Event.kind] at hkind

theorem terminal_finalState (e : Event) (answered : Bool) : Terminal (e.finalState answered) := by
  cases e with
  | status form =>
    rw [Event.finalState]
    split <;> simp [Terminal]
  | pbx event url =>
    rw [Event.finalState]
    split
    · simp [Terminal]
    · split <;> simp [Terminal]

theorem receive_reopens (h : e.Reopens) :
    ∃ call', receive now call e = some call' ∧ ¬Terminal call'.state := by
  rcases h with hkind | ⟨form, rfl, hstatus⟩
  · exact ⟨_, receive_answered hkind, fun hterminal => hterminal.2 rfl⟩
  · refine ⟨{ call with state := .ringing }, ?_, fun hterminal => hterminal.1 rfl⟩
    simp [receive, applyCallStatus, hstatus, Except.toOption]

theorem closeStaleRinging_cases (timeout now : Nat) (call : Call) :
    call.closeStaleRinging timeout now = call ∧
        (call.state = .ringing → ∀ start, call.startDatetime = some start → now < start + 60 * timeout) ∨
      (call.state = .ringing ∧ ∃ start, call.startDatetime = some start ∧ start + 60 * timeout ≤ now) ∧
        call.closeStaleRinging timeout now = { call with state := .missed, endDatetime := some now } := by
  unfold Call.closeStaleRinging
  split
  · rename_i start hstate hstart
    split
    · rename_i hstale
      exact .inr ⟨⟨hstate, start, hstart, hstale⟩, rfl⟩
    · rename_i hstale
      refine .inl ⟨rfl, fun _ start' hstart' => ?_⟩
      obtain rfl := Option.some.inj (hstart.symm.trans hstart')
      omega
  · rename_i hnone
    exact .inl ⟨rfl, fun hstate start hstart => (hnone start hstate hstart).elim⟩

theorem act_unprocessed {wait : Nat} (h : receive (s.clock + wait) s.call e = none) :
    act s (wait, .event e) = ⟨s.call, s.clock + wait⟩ := by simp [act, h]

theorem act_processed {wait : Nat} (h : receive (s.clock + wait) s.call e = some call') :
    act s (wait, .event e) = ⟨call', s.clock + wait⟩ := by simp [act, h]

theorem keeps_event_iff (s : Line) (wait : Nat) (e : Event) : Fits s (wait, .event e) ↔ Keeps s (wait, .event e) := by
  cases hreceive : receive (s.clock + wait) s.call e with
  | none =>
    have hsame : (act s (wait, .event e)).call = s.call := by rw [act_unprocessed hreceive]
    have hnot : ¬e.Reopens := by
      intro hreopens
      have hopens : ∃ call', receive (s.clock + wait) s.call e = some call' ∧ ¬Terminal call'.state :=
        receive_reopens hreopens
      simp [hreceive] at hopens
    refine ⟨fun _ => ⟨fun _ => by rw [hsame], by simp⟩, fun _ _ => ⟨hnot, fun _ hsome => ?_⟩⟩
    simp [hreceive] at hsome
  | some call' =>
    have hnext : (act s (wait, .event e)).call = call' := by rw [act_processed hreceive]
    by_cases hreopens : e.Reopens
    · have hopens : ∃ call', receive (s.clock + wait) s.call e = some call' ∧ ¬Terminal call'.state :=
        receive_reopens hreopens
      simp only [hreceive, Option.some.injEq, exists_eq_left'] at hopens
      constructor
      · intro hfits
        exact ⟨fun hterminal => absurd hreopens (hfits hterminal).1, by simp⟩
      · intro hkeeps hterminal
        rw [← hkeeps.terminal hterminal, hnext] at hterminal
        exact absurd hterminal hopens
    · have hstate : e.kind ≠ some .final → call'.state = s.call.state := by
        intro hkind
        cases hk : e.kind with
        | none => rw [receive_none hk hreceive]
        | some kind =>
          cases kind with
          | ringing =>
            rcases (receive_ringing hk hreceive).2.2 with ⟨-, hsame⟩ | ⟨hopens, -⟩
            · exact hsame
            · exact absurd hopens hreopens
          | answered => exact absurd (.inl hk) hreopens
          | final => exact absurd hk hkind
      constructor
      · intro hfits
        refine ⟨fun hterminal => ?_, by simp⟩
        rw [hnext]
        by_cases hkind : e.kind = some .final
        · rw [(receive_final hkind hreceive).state]
          exact (hfits hterminal).2 hkind (by simp [hreceive])
        · exact hstate hkind
      · intro hkeeps hterminal
        refine ⟨hreopens, fun hkind _ => ?_⟩
        rw [← (receive_final hkind hreceive).state, ← hnext]
        exact hkeeps.terminal hterminal

theorem keeps_cron_iff (s : Line) (wait : Nat) : Fits s (wait, .cron) ↔ Keeps s (wait, .cron) := by
  rcases closeStaleRinging_cases 30 (s.clock + wait) s.call with ⟨hcall,
    hrecent⟩ | ⟨⟨hringing, start, hstart, hstale⟩, hcall⟩
  · have hsame : (act s (wait, .cron)).call = s.call := hcall
    refine ⟨fun _ => ⟨fun _ => by rw [hsame], fun _ _ hmissed => by rwa [hsame]⟩, fun _ _ => hrecent⟩
  · have hmissed : (act s (wait, .cron)).call.state = .missed := congrArg Call.state hcall
    constructor
    · intro hfits
      refine ⟨fun hterminal => absurd hringing hterminal.1, fun _ hanswer _ => ?_⟩
      have hrecent := hfits hanswer hringing start hstart
      omega
    · intro hkeeps hanswer _ _ _
      exact absurd hmissed (hkeeps.answered rfl hanswer (by simp [hringing]))

theorem fits_iff : Fits s a ↔ Keeps s a := by
  obtain ⟨wait, what⟩ := a
  cases what with
  | event e => exact keeps_event_iff s wait e
  | cron => exact keeps_cron_iff s wait

/-- A call is over when it has an end, and it ends after it was answered. -/
structure Timed (s : Line) : Prop where
  stop : ¬Terminal s.call.state → s.call.endDatetime = none
  answer : ∀ t, s.call.answerDatetime = some t → t ≤ s.clock
  order : ∀ answer stop, s.call.answerDatetime = some answer → s.call.endDatetime = some stop → answer ≤ stop

theorem Fresh.timed (h : Fresh s) : Timed s where
  stop _ := h.stop
  answer t ht := by simp [h.answer] at ht
  order answer stop hanswer := by simp [h.answer] at hanswer

theorem Timed.later {wait : Nat} (h : Timed s) : Timed ⟨s.call, s.clock + wait⟩ where
  stop := h.stop
  answer t ht := Nat.le_add_right_of_le (h.answer t ht)
  order := h.order

theorem Timed.act (h : Timed s) (hfits : Fits s a) : Timed (act s a) := by
  obtain ⟨wait, what⟩ := a
  have hlater : Timed ⟨s.call, s.clock + wait⟩ := h.later
  cases what with
  | cron =>
    rcases closeStaleRinging_cases 30 (s.clock + wait) s.call with ⟨hcall, -⟩ | ⟨-, hcall⟩
    · rw [CallCenter.act, hcall]
      exact hlater
    · rw [CallCenter.act, hcall]
      refine ⟨fun hopen => absurd ⟨by simp, by simp⟩ hopen, hlater.answer, ?_⟩
      rintro answer stop hanswer ⟨⟩
      exact hlater.answer answer hanswer
  | event e =>
    cases hreceive : receive (s.clock + wait) s.call e with
    | none =>
      rw [act_unprocessed hreceive]
      exact hlater
    | some call' =>
      have hopen : e.Reopens → ¬Terminal s.call.state := fun hreopens hterminal => (hfits hterminal).1 hreopens
      rw [act_processed hreceive]
      cases hk : e.kind with
      | none =>
        rw [receive_none hk hreceive]
        exact hlater
      | some kind =>
        cases kind with
        | ringing =>
          obtain ⟨hanswer, hstop, hstate⟩ := receive_ringing hk hreceive
          refine ⟨?_, ?_, ?_⟩
          · intro hnot
            rw [hstop]
            rcases hstate with ⟨-, hsame⟩ | ⟨hreopens, -⟩
            · rw [hsame] at hnot
              exact h.stop hnot
            · exact h.stop (hopen hreopens)
          · rw [hanswer]
            exact hlater.answer
          · rw [hanswer, hstop]
            exact h.order
        | answered =>
          have hnone := h.stop (hopen (.inl hk))
          rw [receive_answered hk] at hreceive
          obtain rfl := Option.some.inj hreceive
          refine ⟨fun _ => hnone, ?_, ?_⟩
          · rintro t ⟨⟩
            exact Nat.le_refl _
          · intro answer stop _ hstop
            simp [hnone] at hstop
        | final =>
          have hcloses := receive_final hk hreceive
          have hpast : ∀ t, call'.answerDatetime = some t → t ≤ s.clock + wait := by
            intro t ht
            rcases hcloses.answer t ht with hold | hnew
            · exact hlater.answer t hold
            · exact hnew
          refine ⟨?_, hpast, ?_⟩
          · intro hnot
            rw [hcloses.state] at hnot
            exact absurd (terminal_finalState e _) hnot
          · intro answer stop hanswer hstop
            rw [hcloses.stop] at hstop
            obtain rfl := Option.some.inj hstop
            exact hpast answer hanswer

theorem processed_concat : Processed s e (arrivals ++ [a]) ↔ Processed s e arrivals ∨
    a.2 = .event e ∧ (receive ((Tx.after act s arrivals).clock + a.1) (Tx.after act s arrivals).call e).isSome := by
  constructor
  · rintro ⟨before, wait, hprefix, hsome⟩
    rcases List.prefix_concat_iff.mp hprefix with heq | hprefix
    · obtain ⟨rfl, ha⟩ := List.append_inj' heq rfl
      obtain rfl : (wait, Arrival.event e) = a := by simpa using ha
      exact .inr ⟨rfl, hsome⟩
    · exact .inl ⟨before, wait, hprefix, hsome⟩
  · rintro (⟨before, wait, hprefix, hsome⟩ | ⟨hwhat, hsome⟩)
    · exact ⟨before, wait, hprefix.trans (List.prefix_append _ _), hsome⟩
    · refine ⟨arrivals, a.1, ?_, hsome⟩
      rw [← hwhat]

def AnsweredIn (s : Line) (arrivals : List (Nat × Arrival)) : Prop :=
  ∃ e, e.kind = some .answered ∧ Processed s e arrivals

/-- How far the story is known from the call: before its final event, whether it was
answered; after it, the state it ends in. -/
structure Tells (last : Event) (s : Line) (arrivals : List (Nat × Arrival)) : Prop where
  answered : ¬Processed s last arrivals → ((Tx.after act s arrivals).call.answerDatetime.isSome ↔ AnsweredIn s arrivals)
  finished : Processed s last arrivals → Terminal (Tx.after act s arrivals).call.state
  state : Processed s last arrivals → ∀ answered : Bool, (answered ↔ AnsweredIn s arrivals) →
    (Tx.after act s arrivals).call.state = last.finalState answered

theorem kind_of_mem_before (h : e ∈ story.before) : e.kind = some .ringing ∨ e.kind = some .answered := by
  have hmem := story.inOrder.subset (List.mem_map_of_mem h)
  simpa using hmem

theorem Story.kind_of_mem (h : e ∈ story.events) (hne : e ≠ story.last) :
    e.kind = some .ringing ∨ e.kind = some .answered := by
  simp only [Story.events, List.mem_append, List.mem_singleton, hne, or_false] at h
  exact kind_of_mem_before h

theorem answeredIn_concat_of (h : ∀ e, a.2 = .event e → e.kind ≠ some .answered) :
    AnsweredIn s (arrivals ++ [a]) ↔ AnsweredIn s arrivals := by
  constructor
  · rintro ⟨e, hkind, hprocessed⟩
    rcases processed_concat.mp hprocessed with hprocessed | ⟨hwhat, -⟩
    · exact ⟨e, hkind, hprocessed⟩
    · exact absurd hkind (h e hwhat)
  · rintro ⟨e, hkind, hprocessed⟩
    exact ⟨e, hkind, processed_concat.mpr (.inl hprocessed)⟩

/-- What neither ends the call nor says that it was answered. -/
theorem Tells.concat_of_quiet {last : Event} (h : Tells last s arrivals)
    (hlast : Processed s last (arrivals ++ [a]) ↔ Processed s last arrivals)
    (hanswered : AnsweredIn s (arrivals ++ [a]) ↔ AnsweredIn s arrivals)
    (hanswer : (act (Tx.after act s arrivals) a).call.answerDatetime = (Tx.after act s arrivals).call.answerDatetime)
    (hstate : Terminal (Tx.after act s arrivals).call.state →
      (act (Tx.after act s arrivals) a).call.state = (Tx.after act s arrivals).call.state) :
    Tells last s (arrivals ++ [a]) := by
  constructor
  · rw [hlast, hanswered, Tx.after_concat, hanswer]
    exact h.answered
  · intro hover
    have hterminal := h.finished (hlast.mp hover)
    rwa [Tx.after_concat, hstate hterminal]
  · intro hover
    rw [hanswered, Tx.after_concat, hstate (h.finished (hlast.mp hover))]
    exact h.state (hlast.mp hover)

theorem Tells.concat_answered (h : Tells story.last s arrivals) {wait : Nat} (hkind : e.kind = some .answered)
    (hfits : Fits (Tx.after act s arrivals) (wait, .event e)) : Tells story.last s
      (arrivals ++ [(wait, .event e)]) := by
  have hreceive : receive ((Tx.after act s arrivals).clock + wait) (Tx.after act s arrivals).call e = some _ :=
    receive_answered hkind
  have hopen : ¬Processed s story.last arrivals := fun hover => (hfits (h.finished hover)).1 (.inl hkind)
  have hne : e ≠ story.last := by
    rintro rfl
    simp [story.final] at hkind
  have hlast : ¬Processed s story.last (arrivals ++ [(wait, .event e)]) := by
    rw [processed_concat]
    simp [hopen, hne]
  have hanswered : AnsweredIn s (arrivals ++ [(wait, .event e)]) := by
    refine ⟨e, hkind, processed_concat.mpr (.inr ⟨rfl, ?_⟩)⟩
    rw [hreceive]
    rfl
  refine ⟨fun _ => ?_, fun hover => absurd hover hlast, fun hover => absurd hover hlast⟩
  rw [Tx.after_concat, act_processed hreceive]
  simp [hanswered]

theorem Tells.concat_final {last : Event} (h : Tells last s arrivals) {wait : Nat} (hkind : last.kind = some .final)
    (hfits : Fits (Tx.after act s arrivals) (wait, .event last))
    (hreceive : receive ((Tx.after act s arrivals).clock + wait) (Tx.after act s arrivals).call last = some call') :
    Tells last s (arrivals ++ [(wait, .event last)]) := by
  have hcloses := receive_final hkind hreceive
  have hlast : Processed s last (arrivals ++ [(wait, .event last)]) :=
    processed_concat.mpr (.inr ⟨rfl, by rw [hreceive]; rfl⟩)
  have hsame : AnsweredIn s (arrivals ++ [(wait, .event last)]) ↔ AnsweredIn s arrivals := by
    refine answeredIn_concat_of ?_
    rintro _ ⟨⟩
    simp [hkind]
  have hnext : (Tx.after act s (arrivals ++ [(wait, .event last)])).call = call' := by
    rw [Tx.after_concat, act_processed hreceive]
  refine ⟨fun hnot => absurd hlast hnot, fun _ => ?_, fun _ answered hanswered => ?_⟩
  · rw [hnext, hcloses.state]
    exact terminal_finalState last _
  · rw [hnext, hcloses.state]
    by_cases hover : Processed s last arrivals
    · have hterminal := h.finished hover
      rw [(hfits hterminal).2 hkind (by simp [hreceive]), h.state hover answered (hanswered.trans hsame)]
    · rw [Bool.eq_iff_iff.mpr ((h.answered hover).trans (hsame.symm.trans hanswered.symm))]

theorem Tells.concat (h : Tells story.last s arrivals) (hfits : Fits (Tx.after act s arrivals) a)
    (honly : ∀ e, a.2 = .event e → e ∈ story.events) : Tells story.last s (arrivals ++ [a]) := by
  have hkeeps := (fits_iff.mp hfits).terminal
  obtain ⟨wait, what⟩ := a
  cases what with
  | cron =>
    refine h.concat_of_quiet (by simp [processed_concat]) (answeredIn_concat_of (by simp)) ?_ hkeeps
    rcases closeStaleRinging_cases 30 ((Tx.after act s arrivals).clock + wait) (Tx.after act s arrivals).call with
      ⟨hcall, -⟩ | ⟨-, hcall⟩
    · rw [act, hcall]
    · rw [act, hcall]
  | event e =>
    cases hreceive : receive ((Tx.after act s arrivals).clock + wait) (Tx.after act s arrivals).call e with
    | none =>
      refine h.concat_of_quiet ?_ ?_ (by rw [act_unprocessed hreceive]) hkeeps
      · rw [processed_concat]
        refine or_iff_left ?_
        rintro ⟨hwhat, hsome⟩
        obtain rfl := Arrival.event.inj hwhat
        simp [hreceive] at hsome
      · refine answeredIn_concat_of ?_
        rintro _ ⟨⟩ hkind
        simp [receive_answered hkind] at hreceive
    | some call' =>
      by_cases he : e = story.last
      · subst he
        exact h.concat_final story.final hfits hreceive
      · rcases Story.kind_of_mem (honly e rfl) he with hkind | hkind
        · refine h.concat_of_quiet ?_ ?_ ?_ hkeeps
          · simp [processed_concat, he]
          · refine answeredIn_concat_of ?_
            rintro _ ⟨⟩
            simp [hkind]
          · rw [act_processed hreceive, (receive_ringing hkind hreceive).1]
        · exact h.concat_answered hkind hfits

theorem tells_of_fits (hfresh : Fresh s) (hfits : Tx.EachStep act Fits s arrivals)
    (honly : ∀ wait e, (wait, Arrival.event e) ∈ arrivals → e ∈ story.events) : Tells story.last s arrivals := by
  have hnil : ∀ e, ¬Processed s e [] := by
    rintro e ⟨before, wait, hprefix, -⟩
    simp at hprefix
  induction arrivals using List.reverseRecOn with
  | nil =>
    refine ⟨fun _ => ?_, fun h => absurd h (hnil _), fun h => absurd h (hnil _)⟩
    simp [hfresh.answer, AnsweredIn, hnil]
  | append_singleton arrivals a ih =>
    obtain ⟨hbefore, hlast⟩ := Tx.eachStep_concat.mp hfits
    have htells := ih hbefore fun wait e he => honly wait e (List.mem_append_left _ he)
    refine htells.concat hlast fun e he => honly a.1 e ?_
    rw [← he]
    simp

theorem mem_of_processed (h : Processed s e arrivals) : ∃ wait, (wait, Arrival.event e) ∈ arrivals := by
  obtain ⟨before, wait, hprefix, -⟩ := h
  exact ⟨wait, hprefix.subset (by simp)⟩

theorem answeredIn_iff (h : Delivers story s arrivals) :
    AnsweredIn s arrivals ↔ ∃ e ∈ story.events, e.kind = some .answered := by
  constructor
  · rintro ⟨e, hkind, hprocessed⟩
    obtain ⟨wait, hmem⟩ := mem_of_processed hprocessed
    exact ⟨e, h.only wait e hmem, hkind⟩
  · rintro ⟨e, hmem, hkind⟩
    exact ⟨e, hkind, h.every e hmem⟩

theorem open_of_before (hfresh : Fresh s) (h : ∀ a ∈ arrivals, ∃ e ∈ story.before, a.2 = .event e) :
    ¬Terminal (Tx.after act s arrivals).call.state := by
  induction arrivals using List.reverseRecOn with
  | nil => exact fun hterminal => hterminal.1 hfresh.state
  | append_singleton arrivals a ih =>
    have hopen := ih fun b hb => h b (List.mem_append_left _ hb)
    obtain ⟨e, hmem, hwhat⟩ := h a (by simp)
    obtain ⟨wait, what⟩ := a
    obtain rfl : what = .event e := hwhat
    rw [Tx.after_concat]
    cases hreceive : receive ((Tx.after act s arrivals).clock + wait) (Tx.after act s arrivals).call e with
    | none => rwa [act_unprocessed hreceive]
    | some call' =>
      rw [act_processed hreceive]
      rcases kind_of_mem_before hmem with hkind | hkind
      · rcases (receive_ringing hkind hreceive).2.2 with ⟨-, hstate⟩ | ⟨-, hstate⟩
        · rwa [hstate]
        · exact fun hterminal => hterminal.1 hstate
      · rw [receive_answered hkind] at hreceive
        obtain rfl := Option.some.inj hreceive
        exact fun hterminal => hterminal.2 rfl

theorem fits_of_open {wait : Nat} (h : ¬Terminal s.call.state) : Fits s (wait, .event e) :=
  fun hterminal => absurd hterminal h

theorem eachStep_ordered (hfresh : Fresh s) {ordered : List (Nat × Arrival)}
    (horder : ordered.map Prod.snd = story.events.map .event) : Tx.EachStep act Fits s ordered := by
  intro before a hprefix
  have hmap : before.map Prod.snd ++ [a.2] <+: story.before.map Arrival.event ++ [Arrival.event story.last] := by
    have h := hprefix.map Prod.snd
    rwa [horder, List.map_append, Story.events, List.map_append] at h
  have hbefore : before.map Prod.snd <+: story.before.map Arrival.event := by
    rcases List.prefix_concat_iff.mp hmap with heq | hshort
    · exact (List.append_inj' heq rfl).1 ▸ List.prefix_rfl
    · exact (List.prefix_append _ _).trans hshort
  have hopen : ¬Terminal (Tx.after act s before).call.state := by
    have hevents : ∀ b ∈ before, ∃ e ∈ story.before, b.2 = .event e := by
      intro b hb
      obtain ⟨e, he, hb⟩ := List.mem_map.mp (hbefore.subset (List.mem_map_of_mem hb))
      exact ⟨e, he, hb.symm⟩
    exact open_of_before hfresh hevents
  have hevent : ∃ e, a.2 = .event e := by
    have hmem := hmap.subset (List.mem_append_right _ (List.mem_singleton_self a.2))
    simp only [List.mem_append, List.mem_map, List.mem_singleton] at hmem
    rcases hmem with ⟨e, -, he⟩ | he
    · exact ⟨e, he.symm⟩
    · exact ⟨_, he⟩
  obtain ⟨e, he⟩ := hevent
  obtain ⟨wait, what⟩ := a
  obtain rfl : what = .event e := he
  exact fits_of_open hopen

/-- However the events of a fresh call arrive: the order does not matter exactly if
nothing arrives late that changes a call that is over, and the cron finds no call that
was answered and is said to ring again. -/
theorem orderless_iff (story : Story) (s : Line) (arrivals : List (Nat × Arrival)) (hfresh : Fresh s)
    (hdelivers : Delivers story s arrivals) : Orderless story s arrivals ↔ Tx.EachStep act Fits s arrivals := by
  constructor
  · intro h before a hprefix
    exact fits_iff.mpr (h.law before a hprefix)
  · intro hfits
    refine ⟨fun before a hprefix => fits_iff.mp (hfits before a hprefix), ?_, ?_⟩
    · have htimed : Tx.Always act Timed s arrivals := Tx.always_of_allowed hfresh.timed (fun _ _ h => h.act) hfits
      exact fun before hprefix => (htimed before hprefix).order
    · intro ordered horder hordered
      have htells : Tells story.last s arrivals := tells_of_fits hfresh hfits hdelivers.only
      have hstraight : Tells story.last s ordered := tells_of_fits hfresh (eachStep_ordered hfresh horder) hordered.only
      have hmem : story.last ∈ story.events := by simp [Story.events]
      have hsame : AnsweredIn s ordered ↔ AnsweredIn s arrivals :=
        (answeredIn_iff hordered).trans (answeredIn_iff hdelivers).symm
      obtain ⟨answered, hanswered⟩ : ∃ b : Bool, b = true ↔ AnsweredIn s arrivals := by
        classical exact ⟨decide (AnsweredIn s arrivals), decide_eq_true_iff⟩
      rw [htells.state (hdelivers.every _ hmem) answered hanswered,
        hstraight.state (hordered.every _ hmem) answered (hanswered.trans hsame.symm)]

def ringingCall : Line := ⟨{ name := "CALL/0001", callUid := some "CA1", startDatetime := some 1000000 }, 1000000⟩

def inProgress : Event := .status { callStatus := .inProgress }

/-- A call of a minute. -/
def completed : Event := .status { callStatus := .completed, callDuration := some "60" }

theorem inProgress_inOrder : ([inProgress].map Event.kind).Sublist [some .ringing, some .answered] := by decide

theorem completed_final : completed.kind = some .final := rfl

def answeredStory : Story := ⟨[inProgress], completed, inProgress_inOrder, completed_final⟩

theorem ringingCall_fresh : Fresh ringingCall := ⟨rfl, rfl, rfl⟩

theorem delivers_twice : Delivers answeredStory ringingCall
    [(5, .event inProgress), (60, .event completed), (0, .cron), (9, .event completed)] := by
  constructor
  · intro wait e he
    simp only [List.mem_cons, Prod.mk.injEq, Arrival.event.injEq, reduceCtorEq, and_false, List.not_mem_nil, or_false,
      false_or] at he
    rcases he with ⟨-, rfl⟩ | ⟨-, rfl⟩ | ⟨-, rfl⟩ <;> simp [answeredStory, Story.events]
  · intro e he
    simp only [answeredStory, Story.events, List.mem_append, List.mem_singleton] at he
    rcases he with rfl | rfl
    · exact ⟨[], 5, ⟨_, rfl⟩, by decide⟩
    · exact ⟨[(5, .event inProgress)], 60, ⟨_, rfl⟩, by decide⟩

theorem orderless_answeredStory : Orderless answeredStory ringingCall
      [(5, .event inProgress), (60, .event completed), (0, .cron), (9, .event completed)] ↔
    Tx.EachStep act Fits ringingCall
      [(5, .event inProgress), (60, .event completed), (0, .cron), (9, .event completed)] :=
  orderless_iff answeredStory ringingCall _ ringingCall_fresh delivers_twice

theorem delivers_late : Delivers answeredStory ringingCall [(65, .event completed), (1, .event inProgress)] := by
  constructor
  · intro wait e he
    simp only [List.mem_cons, Prod.mk.injEq, Arrival.event.injEq, List.not_mem_nil, or_false] at he
    rcases he with ⟨-, rfl⟩ | ⟨-, rfl⟩ <;> simp [answeredStory, Story.events]
  · intro e he
    simp only [answeredStory, Story.events, List.mem_append, List.mem_singleton] at he
    rcases he with rfl | rfl
    · exact ⟨[(65, .event completed)], 1, ⟨_, rfl⟩, by decide⟩
    · exact ⟨[], 65, ⟨_, rfl⟩, by decide⟩

/-- A call that is over is answered again when `in-progress` comes late. -/
theorem late_answer_reopens : ¬∀ (story : Story) (s : Line) (arrivals : List (Nat × Arrival)), Fresh s →
    Delivers story s arrivals → Orderless story s arrivals := by
  intro h
  have hlaw := (h answeredStory ringingCall _ ringingCall_fresh delivers_late).law [(65, .event completed)]
    (1, .event inProgress) List.prefix_rfl
  have hstate := hlaw.terminal ⟨by decide, by decide⟩
  exact absurd hstate (by decide)

end CallCenter
