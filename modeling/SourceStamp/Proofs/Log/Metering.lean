import SourceStamp.Log.Usage
import SourceStamp.Proofs.Log.Meters

/-!
# Timers and counters along a run

A family of loggers shares its timers and counters, and each label has its own: what a call answers
depends on what was done before in its family under its label.

- `Event`, `Recording`: what was done so far, in all families, and `Usage.run`: code that is
  recorded. `Usage.plain_run`: recording changes nothing.
- `countsIn`, `lastStart?`: what the acts of a label in a family come to.
- `Event.Accords`: what an answer should be after what was done before.
- `LoggerCall.isSound_record`: a call keeps meters and history together, and its answer is as it
  should be.
- `Usage.run_accords`: so does all code.
-/

namespace SourceStamp

/-! ## Recorded runs -/

/-- What was done with the timer or the counter of a label. -/
inductive Act where
  /-- The timer was started. -/
  | started (timer : Timer)
  /-- The timer was stopped, at a time and with an answer. -/
  | stopped (now : Ticks) (answer : Except LogError (Option Measurement))
  /-- A part that ran under the timer is over; the timer of the label that runs then. -/
  | measured (running : Option Timer)
  /-- Something was counted, with an answer. -/
  | counted (answer : Except LogError Nat)
  /-- The counter was set back. -/
  | reset

/-- Something that a member of a family did. -/
structure Event (F : Families) where
  /-- The member. -/
  member : F.Member
  /-- The label. -/
  label : Text
  /-- What was done. -/
  act : Act

/-- What loggers act on, with what was done so far, the last event first. -/
structure Recording (F : Families) where
  /-- What loggers act on. -/
  logging : Logging
  /-- What was done. -/
  history : List (Event F)

variable {F : Families} {ρ : Type}

/-- Takes note of an event. -/
def Recording.note (r : Recording F) (e : Event F) : Recording F :=
  { r with history := e :: r.history }

/-- The outcome of something that is recorded, and the recording after it. -/
abbrev Recorded (F : Families) (α : Type) := Except LogError α × Recording F

namespace Recorded

variable {α β : Type}

/-- Goes on after a result. -/
def andThen (x : Recorded F α) (next : α → Recording F → Recorded F β) : Recorded F β :=
  match x with
  | (.ok a, r) => next a r
  | (.error e, r) => (.error e, r)

/-- Goes on after a failure. -/
def orElse (x : Recorded F α) (handler : LogError → Recording F → Recorded F α) : Recorded F α :=
  match x with
  | (.ok a, r) => (.ok a, r)
  | (.error e, r) => handler e r

end Recorded

/-- What a call does with a label, if it does anything, by the clock and its answer. -/
def LoggerCall.event? (now : Ticks) : (c : LoggerCall F) → Except LogError c.Answer →
    Option (Event F)
  | start m label metadata, _ => some ⟨m, label, .started ⟨now, metadata⟩⟩
  | stop m label, answer => some ⟨m, label, .stopped now answer⟩
  | count m label, answer => some ⟨m, label, .counted answer⟩
  | reset m label, _ => some ⟨m, label, .reset⟩
  | pass .., _ | child .., _ | log .., _ => none

/-- Makes a call and takes note of it. -/
def LoggerCall.record (c : LoggerCall F) (r : Recording F) : Recorded F c.Answer :=
  let (answer, logging) := c.exec.run r.logging
  (answer, ⟨logging, (c.event? r.logging.clock answer).toList ++ r.history⟩)

/-- Runs a part under a timer, and takes note of the start, the stop and the end. -/
def Families.Member.measure (m : F.Member) (label : Text) (body : Recording F → Recorded F ρ)
    (r : Recording F) : Recorded F ρ :=
  let started := ((LoggerCall.start m label .null).record r).2
  let (outcome, ended) := body started
  let (answer, stopped) := (LoggerCall.stop m label).record ended
  let last := stopped.note ⟨m, label, .measured ((stopped.logging.meters m.family).timer? label)⟩
  match answer with
  | .ok _ => (outcome, last)
  | .error e => (.error e, last)

/-- What code does, with notes of it. -/
def Usage.run : Usage F ρ → Recording F → Recorded F ρ
  | done result, r => (.ok result, r)
  | raise e, r => (.error e, r)
  | call c next, r => (c.record r).andThen fun answer r => (next answer).run r
  | measure m label body next, r =>
    (m.measure label (fun r => body.run r) r).andThen fun result r => (next result).run r
  | attempt body handler next, r =>
    ((body.run r).orElse fun e r => (handler e).run r).andThen fun result r => (next result).run r

/-! ## Recording changes nothing -/

namespace Recorded

variable {α β : Type} {x : Recorded F α} {c : LogM α} {g : Logging}

/-- The outcome without the history. -/
def plain (x : Recorded F α) : Except LogError α × Logging := (x.1, x.2.logging)

theorem plain_andThen {next : α → Recording F → Recorded F β} {f : α → LogM β}
    (hx : x.plain = c.run g) (hnext : ∀ a r, (next a r).plain = (f a).run r.logging) :
    (x.andThen next).plain = (c >>= f).run g := by
  rw [run_bind, ← hx]
  rcases x with ⟨_ | a, r⟩
  · rfl
  · exact hnext a r

theorem plain_orElse {handler : LogError → Recording F → Recorded F α} {f : LogError → LogM α}
    (hx : x.plain = c.run g) (hhandler : ∀ e r, (handler e r).plain = (f e).run r.logging) :
    (x.orElse handler).plain = (tryCatch c f).run g := by
  rw [LogM.run_tryCatch, ← hx]
  rcases x with ⟨e | _, r⟩
  · exact hhandler e r
  · rfl

end Recorded

open Recorded (plain_andThen plain_orElse)

theorem LoggerCall.plain_record (c : LoggerCall F) (r : Recording F) :
    (c.record r).plain = c.exec.run r.logging := rfl

theorem Families.Member.plain_measure {m : F.Member} {label : Text}
    {body : Recording F → Recorded F ρ} {c : LogM ρ}
    (hbody : ∀ r, (body r).plain = c.run r.logging) (r : Recording F) :
    (m.measure label body r).plain = (m.logger.measure label c).run r.logging := by
  let started := ((LoggerCall.start m label .null).record r).2
  have hstarted : ((m.logger.startTimer label .null).run r.logging).2 = started.logging := rfl
  rw [Logger.measure_run, hstarted, ← hbody started, Families.Member.measure]
  rcases body started with ⟨outcome, ended⟩
  rcases hstop : (LoggerCall.stop m label).record ended with ⟨answer, stopped⟩
  have hstopped : (m.logger.stopTimer label).run ended.logging = (answer, stopped.logging) :=
    congrArg Recorded.plain hstop
  dsimp only [Recorded.plain]
  rw [hstop, hstopped]
  cases answer <;> rfl

/-- **Recording changes nothing**: recorded code answers and acts as it does unrecorded. -/
theorem Usage.plain_run (code : Usage F ρ) (r : Recording F) :
    (code.run r).plain = code.exec.run r.logging := by
  induction code generalizing r with
  | done result => rfl
  | raise e => rfl
  | call c next ih => exact plain_andThen (c.plain_record r) ih
  | measure m label body next ihbody ih =>
    exact plain_andThen (Families.Member.plain_measure ihbody r) ih
  | attempt body handler next ihbody ihhandler ih =>
    exact plain_andThen (plain_orElse (ihbody r) ihhandler) ih

/-! ## What answers should be -/

/-- How often was counted since the counter was set back; the last act comes first. -/
def countsIn : List Act → Nat
  | [] | .reset :: _ => 0
  | .counted _ :: before => countsIn before + 1
  | .started _ :: before | .stopped .. :: before | .measured _ :: before => countsIn before

/-- The last timer that was started since the timer was stopped; the last act comes first. -/
def lastStart? : List Act → Option Timer
  | [] | .stopped .. :: _ => none
  | .started timer :: _ => some timer
  | .measured _ :: before | .counted _ :: before | .reset :: before => lastStart? before

/-- What was done in a family under a label. -/
def actsOf (history : List (Event F)) (family : Nat) (label : Text) : List Act :=
  (history.filter fun e => e.member.family = family ∧ e.label = label).map Event.act

/-- What the answer of an act should be after the acts before it: counting gives the next number,
and stopping gives the measurement of the last timer if timers run and one was started. An answer is
given if the line that the act logs can be told, and a count if moreover it can be written. When a
part under the timer is over, the timer does not run. -/
def Act.Accords (l : Logger) (s : Settings) (label : Text) (before : List Act) : Act → Prop
  | started _ | reset => True
  | counted answer =>
    Settles (Text.isWritable (countsIn before + 1) = true ∧ l.CanTell s .debug) answer
      (countsIn before + 1)
  | stopped now answer =>
    if s.performance then
      match lastStart? before with
      | some t => Settles (l.CanTell s .debug) answer (some ⟨label, t.started, now, t.metadata⟩)
      | none => Settles (l.CanTell s .warn) answer none
    else answer = .ok none
  | measured running => running = none

/-- The settings of a family, where it has its own or `active` is in force. -/
def Families.settingsIn (F : Families) (active : Settings) (n : Nat) : Settings :=
  (F.root n).settings.getD active

/-- What was done before in the family under the label tells what the answer should be. -/
def Event.Accords (active : Settings) (earlier : List (Event F)) (e : Event F) : Prop :=
  e.act.Accords e.member.logger (F.settingsIn active e.member.family) e.label
    (actsOf earlier e.member.family e.label)

theorem actsOf_cons (e : Event F) (history : List (Event F)) (family : Nat) (label : Text) :
    actsOf (e :: history) family label =
      if e.member.family = family ∧ e.label = label then e.act :: actsOf history family label
      else actsOf history family label := by
  by_cases h : e.member.family = family ∧ e.label = label
  · rw [if_pos h, actsOf, List.filter_cons_of_pos (by simp [h])]
    rfl
  · rw [if_neg h, actsOf, List.filter_cons_of_neg (by simpa using h)]
    rfl

theorem actsOf_cons_self (m : F.Member) (label : Text) (act : Act) (history : List (Event F)) :
    actsOf (⟨m, label, act⟩ :: history) m.family label =
      act :: actsOf history m.family label := by
  rw [actsOf_cons, if_pos ⟨rfl, rfl⟩]

/-! ## Meters and history -/

/-- What an act does with the meters of its family. Timers run if the family measures times. -/
def Act.change (performance : Bool) (label : Text) (m : Meters) : Act → Meters
  | started timer => if performance then m.start label timer.started timer.metadata else m
  | stopped .. => if performance then m.stop label else m
  | counted _ => m.increment label
  | reset => m.resetCount label
  | measured _ => m

/-- The meters know of a label what its acts come to. -/
structure Meters.Reflects (m : Meters) (performance : Bool) (label : Text) (acts : List Act) :
    Prop where
  count : m.count label = countsIn acts
  timer? : m.timer? label = if performance then lastStart? acts else none

namespace Meters.Reflects

variable {m : Meters} {performance : Bool} {label other : Text} {acts : List Act}

theorem empty : Meters.empty.Reflects performance label [] := ⟨rfl, by cases performance <;> rfl⟩

/-- An act concerns its own label and no other. -/
theorem change (h : m.Reflects performance other acts) (act : Act) :
    (act.change performance label m).Reflects performance other
      (if label = other then act :: acts else acts) := by
  obtain ⟨hcount, htimer⟩ := h
  by_cases hother : label = other
  · subst hother
    rw [if_pos rfl]
    constructor
    · cases act <;> cases performance <;>
        simp [Act.change, countsIn, count_increment, count_resetCount, hcount]
    · cases act <;> cases performance <;>
        simp_all [Act.change, lastStart?, timer?_start, timer?_stop]
  · rw [if_neg hother]
    constructor
    · cases act <;> cases performance <;>
        simp [Act.change, count_increment, count_resetCount, hcount, Ne.symm hother]
    · cases act <;> cases performance <;>
        simp_all [Act.change, timer?_start, timer?_stop, Ne.symm hother]

end Meters.Reflects

/-! ## Along a run -/

theorem Logger.Descends.settings_eq {ancestor l : Logger} (h : ancestor.Descends l) :
    l.settings = ancestor.settings := by
  induction h with
  | refl => rfl
  | withContext _ _ ih => exact ih

/-- All members of a family have its settings. -/
theorem Families.Member.settingsIn_eq (m : F.Member) (g : Logging) :
    m.logger.settingsIn g = F.settingsIn g.active m.family := by
  rw [Logger.settingsIn, m.descends.settings_eq]
  rfl

/-- The meters are as the history tells, and so were all answers. -/
structure Recording.IsSound (active : Settings) (r : Recording F) : Prop where
  inForce : r.logging.active = active
  reflects : ∀ n label, (r.logging.meters n).Reflects (F.settingsIn active n).performance label
    (actsOf r.history n label)
  accords : ∀ later e earlier, r.history = later ++ e :: earlier → e.Accords active earlier

namespace Recording.IsSound

variable {active : Settings} {r : Recording F}

theorem start (F : Families) (active : Settings) :
    (⟨.start active, []⟩ : Recording F).IsSound active where
  inForce := rfl
  reflects _ _ := .empty
  accords later e earlier h := by simp at h

theorem of_meters_eq (h : r.IsSound active) {logging : Logging}
    (hactive : logging.active = r.logging.active) (hmeters : logging.meters = r.logging.meters) :
    (⟨logging, r.history⟩ : Recording F).IsSound active where
  inForce := hactive.trans h.inForce
  reflects n label := by
    rw [hmeters]
    exact h.reflects n label
  accords := h.accords

/-- An event with the answer that it should have, which changes the meters as it should. -/
theorem extend (h : r.IsSound active) {e : Event F} {logging : Logging}
    (hactive : logging.active = r.logging.active)
    (hmeters : logging.meters = (r.logging.updateMeters e.member.family fun m =>
      e.act.change (F.settingsIn active e.member.family).performance e.label m).meters)
    (haccords : e.Accords active r.history) :
    (⟨logging, e :: r.history⟩ : Recording F).IsSound active where
  inForce := hactive.trans h.inForce
  reflects n label := by
    show (logging.meters n).Reflects _ label (actsOf (e :: r.history) n label)
    rw [hmeters, actsOf_cons]
    by_cases hn : e.member.family = n
    · subst hn
      simpa [Logging.updateMeters] using (h.reflects e.member.family label).change e.act
    · simpa [Logging.updateMeters, hn, Ne.symm hn] using h.reflects n label
  accords later e' earlier hsplit := by
    cases later with
    | nil =>
      obtain ⟨rfl, rfl⟩ := List.cons.inj hsplit
      exact haccords
    | cons last later => exact h.accords later e' earlier (List.cons.inj hsplit).2

/-- A call that is an event with the answer that it should have. -/
theorem record (h : r.IsSound active) {c : LoggerCall F} {answer : Except LogError c.Answer}
    {logging : Logging} (hrun : c.exec.run r.logging = (answer, logging)) {e : Event F}
    (hevent : c.event? r.logging.clock answer = some e)
    (hactive : logging.active = r.logging.active)
    (hmeters : logging.meters = (r.logging.updateMeters e.member.family fun m =>
      e.act.change (F.settingsIn active e.member.family).performance e.label m).meters)
    (haccords : e.Accords active r.history) :
    (c.record r).2.IsSound active := by
  rw [LoggerCall.record, hrun]
  dsimp only
  rw [hevent]
  exact h.extend hactive hmeters haccords

theorem settingsIn_eq (h : r.IsSound active) (m : F.Member) :
    m.logger.settingsIn r.logging = F.settingsIn active m.family := by
  rw [m.settingsIn_eq, h.inForce]

variable {α β : Type} {x : Recorded F α}

theorem andThen {next : α → Recording F → Recorded F β} (hx : x.2.IsSound active)
    (hnext : ∀ a r, r.IsSound active → (next a r).2.IsSound active) :
    (x.andThen next).2.IsSound active := by
  rcases x with ⟨_ | a, r⟩
  · exact hx
  · exact hnext a r hx

theorem orElse {handler : LogError → Recording F → Recorded F α} (hx : x.2.IsSound active)
    (hhandler : ∀ e r, r.IsSound active → (handler e r).2.IsSound active) :
    (x.orElse handler).2.IsSound active := by
  rcases x with ⟨e | _, r⟩
  · exact hhandler e r hx
  · exact hx

end Recording.IsSound

namespace LoggerCall

variable {active : Settings} {r : Recording F} (h : r.IsSound active) (m : F.Member) (label : Text)

include h

theorem isSound_start (metadata : Value) :
    ((start m label metadata).record r).2.IsSound active := by
  have hrun := m.logger.startTimer_run r.logging label metadata
  rw [h.settingsIn_eq] at hrun
  exact h.record hrun rfl rfl rfl trivial

variable (hplain : (F.settingsIn active m.family).IsPlain)

include hplain

theorem isSound_stop : ((stop m label).record r).2.IsSound active := by
  rw [← h.settingsIn_eq m] at hplain
  obtain ⟨answer, logging, hrun, hactive, hmeters, hanswer⟩ := Logger.stopTimer_run hplain label
  rw [h.settingsIn_eq] at hmeters hanswer
  refine h.record hrun rfl hactive hmeters ?_
  show if (F.settingsIn active m.family).performance then _ else _
  have htimer := (h.reflects m.family label).timer?
  by_cases hperformance : (F.settingsIn active m.family).performance
  · rw [if_pos hperformance] at hanswer htimer ⊢
    rw [Meters.measurement?, show m.logger.family = m.family from rfl, htimer] at hanswer
    cases hlast : lastStart? (actsOf r.history m.family label) <;>
      · rw [hlast] at hanswer
        exact hanswer
  · rw [if_neg hperformance] at hanswer ⊢
    exact hanswer

/-- No timer runs under a label when it was stopped. -/
theorem timer?_record_stop :
    (((stop m label).record r).2.logging.meters m.family).timer? label = none := by
  have hacts : ∃ now answer, actsOf ((stop m label).record r).2.history m.family label =
      .stopped now answer :: actsOf r.history m.family label := ⟨_, _, actsOf_cons_self ..⟩
  obtain ⟨now, answer, hacts⟩ := hacts
  rw [((isSound_stop h m label hplain).reflects m.family label).timer?, hacts]
  split <;> rfl

theorem isSound_count : ((count m label).record r).2.IsSound active := by
  rw [← h.settingsIn_eq m] at hplain
  obtain ⟨answer, emission, hrun, hsettles⟩ := Logger.count_run hplain label
  rw [h.settingsIn_eq, show m.logger.family = m.family from rfl,
    (h.reflects m.family label).count] at hsettles
  exact h.record hrun rfl rfl rfl hsettles

end LoggerCall

section Runs

variable {active : Settings} (hplain : ∀ n, (F.settingsIn active n).IsPlain)

include hplain

/-- A call keeps meters and history together, and its answer is as it should be. -/
theorem LoggerCall.isSound_record {r : Recording F} (h : r.IsSound active) (c : LoggerCall F) :
    (c.record r).2.IsSound active := by
  cases c with
  | pass ticks => exact h.of_meters_eq rfl rfl
  | child m c => exact h
  | log m level message data metadata => exact h.of_meters_eq rfl rfl
  | start m label metadata => exact isSound_start h m label metadata
  | stop m label => exact isSound_stop h m label (hplain m.family)
  | count m label => exact isSound_count h m label (hplain m.family)
  | reset m label => exact h.record rfl rfl rfl rfl trivial

/-- So does a part under a timer, and nothing runs under the label when it is over. -/
theorem Families.Member.isSound_measure {m : F.Member} {label : Text}
    {body : Recording F → Recorded F ρ}
    (hbody : ∀ r, r.IsSound active → (body r).2.IsSound active) {r : Recording F}
    (h : r.IsSound active) : (m.measure label body r).2.IsSound active := by
  have hstarted := LoggerCall.isSound_record hplain h (.start m label .null)
  have hended := hbody _ hstarted
  have hstopped := LoggerCall.isSound_stop hended m label (hplain m.family)
  have htimer := LoggerCall.timer?_record_stop hended m label (hplain m.family)
  have hlast := hstopped.extend (e := ⟨m, label, .measured _⟩) rfl
    (congrArg Logging.meters (Logging.updateMeters_id _ _)).symm htimer
  rw [measure]
  dsimp only
  split <;> exact hlast

/-- All code keeps meters and history together, by induction on the code. -/
theorem Usage.isSound_run (code : Usage F ρ) {r : Recording F} (h : r.IsSound active) :
    (code.run r).2.IsSound active := by
  induction code generalizing r with
  | done result => exact h
  | raise e => exact h
  | call c next ih =>
    exact (c.isSound_record hplain h).andThen fun answer r hr => ih answer hr
  | measure m label body next ihbody ih =>
    exact (Families.Member.isSound_measure hplain (fun r hr => ihbody hr) h).andThen
      fun result r hr => ih result hr
  | attempt body handler next ihbody ihhandler ih =>
    exact ((ihbody h).orElse fun e r hr => ihhandler e hr).andThen fun result r hr => ih result hr

/-- **Timers and counters are shared in a family and kept apart by label**: whatever code does with
the loggers of any families, what it was answered at each step is what the acts of the same family
under the same label came to before, and nothing runs under a label when a part that was measured
under it is over, however it ended. The history is that of the code itself. -/
theorem Usage.run_accords (code : Usage F ρ) :
    let x := code.run ⟨.start active, []⟩
    code.exec.run (.start active) = (x.1, x.2.logging) ∧
      ∀ later e earlier, x.2.history = later ++ e :: earlier → e.Accords active earlier :=
  ⟨(code.plain_run ⟨.start active, []⟩).symm, (code.isSound_run hplain (.start F active)).accords⟩

end Runs

/-- Families of loggers that log everything. The stamp in the context of the first family has a line
that looks numeric and is not. -/
def superscriptFamilies : Families where
  root n :=
    { context :=
        if n = 0 then
          .ofMetadata [(sourceKey, .object [("fileName".toList, .text "a".toList),
            ("lineNumber".toList, .text "²".toList)])]
        else .empty
      settings := some { Settings.base with level := .debug }
      stack := ⟨.given none, .standard .sample⟩
      family := n }
  family_root _ := rfl

/-- Code that counts under one label with a logger, one derived from it, and one of the first
family. -/
def countThrice : Usage superscriptFamilies Nat :=
  let m := superscriptFamilies.first 1
  .call (.count m "L".toList) fun _ =>
    .call (.child m (.ofTags ["a".toList])) fun derived =>
      .call (.count derived "L".toList) fun n =>
        .attempt (.call (.count (superscriptFamilies.first 0) "L".toList) .done)
          (fun _ => .done n) .done

/-- A family counts on, and the call of another family fails at the stamp. -/
theorem Usage.run_accords_superscript :
    let x := countThrice.run ⟨.start .base, []⟩
    x.1 = .ok 2 ∧
      x.2.history.map Event.act =
        [.counted (.error (.numeral ⟨⟩)), .counted (.ok 2), .counted (.ok 1)] ∧
      ∀ later e earlier, x.2.history = later ++ e :: earlier → e.Accords .base earlier :=
  ⟨rfl, rfl, (Usage.run_accords (fun _ => ⟨rfl, rfl⟩) countThrice).2⟩

/-- A part that stops the timer that it runs under. -/
def stopInside : Usage superscriptFamilies Unit :=
  let m := superscriptFamilies.first 1
  .measure m "L".toList
    (.call (.pass 3) fun _ => .call (.stop m "L".toList) fun _ => .done ()) .done

/-- The part gets the measurement, and its end finds no timer. -/
example : (stopInside.run ⟨.start .base, []⟩).2.history.map Event.act =
    [.measured none, .stopped ⟨3⟩ (.ok none),
      .stopped ⟨3⟩ (.ok (some ⟨"L".toList, ⟨0⟩, ⟨3⟩, .null⟩)), .started ⟨⟨0⟩, .null⟩] := rfl

end SourceStamp
