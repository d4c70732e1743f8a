import Chip8.Proofs.Frame

/-!
# What the display shows

A host shows the screen after the ticks that drew, and only then.  That is enough: a cycle that does not report a
drawing has left the screen alone (`Machine.screen_cycle`), so the frame that was handed over last is never stale
(`Machine.getLastD_frames`).
-/

namespace Chip8

/-- Whether the command leaves it to the ticks to run instructions, and the program in memory. -/
def Command.presents : Command → Bool
  | step | load _ | loadRom _ | reset => false
  | _ => true

/-- The frame that was handed to the display. -/
def Reply.frame? : Reply → Option Screen
  | stepped _ shown => shown
  | _ => none

namespace Machine

/-- The frames that a session hands to the display, from first to last. -/
def frames (machine : Machine) (commands : List Command) : List Screen :=
  (machine.performAll commands).filterMap (·.answer.frame?)

/-! ### Cycles and ticks -/

/-- A cycle that does not report a drawing leaves the screen alone. -/
theorem screen_cycle {machine : Machine} (h : machine.cycle.answer ≠ .ok .drawn) :
    machine.cycle.machine.screen = machine.screen := by
  have hc := machine.cycle_cases
  generalize machine.cycle = report at hc h ⊢
  cases hc with
  | outside | unsupported | failed => rfl
  | @completed _ _ effect fetches decodes executes =>
    by_contra hne
    have hdrawn : effect.outcome = .drawn := ((framed_of_execute executes).screen hne).2
    exact h (congrArg Except.ok hdrawn)

theorem screen_elapse (machine : Machine) : machine.elapse.screen = machine.screen := by
  rw [elapse_eq]

theorem screen_tick {machine : Machine} {events : List KeyEvent} (h : (machine.tick events).answer ≠ .ok .drawn) :
    (machine.tick events).machine.screen = machine.screen := by
  have hc : (machine.heeded (.tick events)).cycle.machine.screen = machine.screen := screen_cycle h
  change (if _ then _ else _ : Machine).screen = machine.screen
  split
  · rw [screen_elapse]
    exact hc
  · exact hc

theorem shown_eq_some {report : Report (Except Fault Outcome)} (h : report.answer = .ok .drawn) :
    report.shown = some report.machine.screen := by
  rw [Report.shown, h]

theorem isSome_shown_iff {report : Report (Except Fault Outcome)} :
    report.shown.isSome ↔ report.answer = .ok .drawn := by
  unfold Report.shown
  split
  · next ha => exact iff_of_true rfl ha
  · next hn => exact iff_of_false Bool.noConfusion hn

theorem shown_eq_none {report : Report (Except Fault Outcome)} (h : report.answer ≠ .ok .drawn) :
    report.shown = none :=
  Option.not_isSome_iff_eq_none.1 (mt isSome_shown_iff.1 h)

theorem frame?_tick (machine : Machine) (events : List KeyEvent) :
    (machine.perform (.tick events)).answer.frame? = (machine.tick events).shown := by
  rw [perform]
  cases ha : (machine.tick events).answer with
  | ok outcome => simp only [Report.toReply, ha, Reply.frame?]
  | error fault =>
    have hn : (machine.tick events).shown = none := shown_eq_none (by simp [ha])
    simp only [Report.toReply, ha, Reply.frame?, hn]

/-! ### Sessions -/

/-- The frame of a command, if it has one, and else the screen of before is the screen after it. -/
theorem getD_frame?_perform {command : Command} (h : command.presents) (machine : Machine) :
    (machine.perform command).answer.frame?.getD machine.screen = (machine.perform command).machine.screen := by
  cases command with
  | tick events =>
    rw [frame?_tick, machine_perform_tick]
    by_cases hd : (machine.tick events).answer = .ok .drawn
    · rw [shown_eq_some hd]
      rfl
    · rw [shown_eq_none hd]
      exact (screen_tick hd).symm
  | step | load _ | loadRom _ | reset => cases h
  | setKey event =>
    rw [machine_perform_setKey, perform]
    cases machine.keypad.apply event <;> rfl
  | tickTimers | setKeys _ | enqueue _ | supply _ => rfl

theorem frames_cons (machine : Machine) (command : Command) (rest : List Command) :
    machine.frames (command :: rest) =
      (machine.perform command).answer.frame?.toList ++ (machine.perform command).machine.frames rest := by
  rw [frames, performAll, List.filterMap_cons]
  cases (machine.perform command).answer.frame? <;> rfl

theorem frames_append (machine : Machine) (commands others : List Command) :
    machine.frames (commands ++ others) = machine.frames commands ++ (machine.after commands).frames others := by
  induction commands generalizing machine with
  | nil => rfl
  | cons command rest ih =>
    rw [List.cons_append, frames_cons, frames_cons, ih, List.append_assoc]
    rfl

/-- The frame handed over last is the screen. -/
theorem getLastD_frames {machine : Machine} {commands : List Command} (h : ∀ command ∈ commands, command.presents) :
    (machine.frames commands).getLastD machine.screen = (machine.after commands).screen := by
  induction commands generalizing machine with
  | nil => rfl
  | cons command rest ih =>
    obtain ⟨hfirst, hrest⟩ := List.forall_mem_cons.1 h
    have hscreen := getD_frame?_perform hfirst machine
    have hlast : (frames _ rest).getLastD (machine.perform command).machine.screen = _ := ih hrest
    rw [frames_cons]
    cases hf : (machine.perform command).answer.frame? with
    | none =>
      rw [hf] at hscreen
      rw [← hscreen] at hlast
      exact hlast
    | some frame =>
      rw [hf] at hscreen
      rw [← hscreen] at hlast
      rw [Option.toList_some, List.singleton_append, List.getLastD_cons]
      exact hlast

/-- A display that shows the screen of the machine is never stale in a session of ticks and of commands that run no
instruction: what it was handed last is the screen.  A tick hands over one frame if it drew, the screen that it left,
and none otherwise, in particular if it failed. -/
theorem presented_session (machine : Machine) :
    (∀ commands : List Command, (∀ command ∈ commands, command.presents) →
      (machine.frames commands).getLastD machine.screen = (machine.after commands).screen) ∧
    ∀ commands events,
      let before := machine.after commands
      ((before.tick events).answer = .ok .drawn →
        machine.frames (commands ++ [.tick events]) =
          machine.frames commands ++ [(before.perform (.tick events)).machine.screen]) ∧
      ((before.tick events).answer ≠ .ok .drawn →
        machine.frames (commands ++ [.tick events]) = machine.frames commands) ∧
      ∀ fault, (before.tick events).answer = .error fault →
        machine.frames (commands ++ [.tick events]) = machine.frames commands ∧
        (before.perform (.tick events)).machine.screen = before.screen := by
  refine ⟨fun commands h => getLastD_frames h, ?_⟩
  intro commands events before
  have hframes : machine.frames (commands ++ [.tick events]) =
      machine.frames commands ++ (before.tick events).shown.toList := by
    rw [frames_append, frames_cons, frame?_tick]
    exact congrArg (machine.frames commands ++ ·) (List.append_nil _)
  have hnone : (before.tick events).answer ≠ .ok .drawn →
      machine.frames (commands ++ [.tick events]) = machine.frames commands := by
    intro hn
    rw [hframes, shown_eq_none hn]
    exact List.append_nil _
  refine ⟨fun hd => ?_, hnone, fun fault hf => ?_⟩
  · rw [hframes, shown_eq_some hd, machine_perform_tick]
    rfl
  · have hn : (before.tick events).answer ≠ .ok .drawn := by simp [hf]
    refine ⟨hnone hn, ?_⟩
    rw [machine_perform_tick]
    exact screen_tick hn

/-- The first row of a glyph is drawn between two ticks that show nothing, the second of which fails. -/
theorem presented_session_glyph :
    let machine := ((create .perStep {}).machine.perform (.load [0xA0, 0x50, 0xD0, 0x01, 0x00, 0xEE])).machine
    let commands : List Command := [.tick [], .setKey ⟨16, true⟩, .tick [⟨3, true⟩], .tickTimers, .tick []]
    (machine.frames commands).getLastD machine.screen = (machine.after commands).screen ∧
      machine.frames ([.tick [], .tick []] ++ [.tick []]) =
        [((machine.after [.tick []]).perform (.tick [])).machine.screen] := by
  intro machine commands
  have hp : ∀ command ∈ commands, command.presents := by simp [commands, Command.presents]
  have hplain : ¬((machine.after []).tick []).shown.isSome := by decide +kernel
  have hdrawn : ((machine.after [.tick []]).tick []).shown.isSome := by decide +kernel
  have hfailed : ¬((machine.after [.tick [], .tick []]).tick []).answer.isOk := by decide +kernel
  clear_value machine
  obtain ⟨hlast, hticks⟩ := presented_session machine
  have hnone : machine.frames [.tick []] = [] := (hticks [] []).2.1 (mt isSome_shown_iff.2 hplain)
  have hone := (hticks [.tick []] []).1 (isSome_shown_iff.1 hdrawn)
  rw [hnone, List.nil_append] at hone
  refine ⟨hlast commands hp, ?_⟩
  cases hf : ((machine.after [.tick [], .tick []]).tick []).answer with
  | ok outcome =>
    rw [hf] at hfailed
    exact absurd rfl hfailed
  | error fault => exact ((hticks [.tick [], .tick []] []).2.2 fault hf).1.trans hone

end Machine

end Chip8
