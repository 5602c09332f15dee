import ScriptHost.Proofs.AnsweringHosts
import ScriptHost.Proofs.CommandTexts

/-!
Running the text of a command again. If the stages of a command say all about themselves, then
a script with the text of the command does the same with every host.
-/

namespace ScriptHost

namespace Command

variable {c : Command}

theorem visibleText_of_spelled (h : ∀ s ∈ c.stages, s.Spelled) : c.visibleText = c.text := by
  unfold visibleText
  rw [List.filter_eq_self.mpr fun s hs => by rw [(h s hs).not_rendering, Bool.not_false]]

theorem text_ofScript (text : String) : (ofScript text).text = text := by
  simp [ofScript, Command.text, Stage.fullText]

theorem visibleText_ofScript (text : String) : (ofScript text).visibleText = text := by
  have hscript : (ofScript text).visibleText = (ofScript text).text := rfl
  rw [hscript, text_ofScript]

end Command

variable {c : Command}

/-- The engine begins a command and its text in the same way, but for where errors would go. -/
theorem Engine.invoke_text (hne : c.stages ≠ []) (h : ∀ s ∈ c.stages, s.Spelled) (e : Engine)
    (frame : FrameInfo) (addToHistory outermost : Bool) :
    e.invoke frame (.ofScript c.text) addToHistory outermost =
      ((e.invoke frame c addToHistory outermost).1,
        (e.invoke frame c addToHistory outermost).2.extended [] false) := by
  simp only [invoke, Command.visibleText_ofScript, Command.visibleText_of_spelled h,
    Command.jobs_ofScript_text hne h, Invocation.extended, List.append_nil]
  rfl

/-- A command and its text do the same: they come to the same results, with the same calls of
the host, and leave the same engine and the same host. -/
theorem Host.invokes_text_iff {σ : Type} (H : Host σ) (hne : c.stages ≠ [])
    (h : ∀ s ∈ c.stages, s.Spelled) (e : Engine) (s : σ) (frame : FrameInfo)
    (addToHistory outermost : Bool) (o : Ending σ) :
    H.Invokes e s frame (.ofScript c.text) addToHistory outermost o ↔
      H.Invokes e s frame c addToHistory outermost o := by
  have hplain : (e.invoke frame c addToHistory outermost).2.Plain :=
    Invocation.plain_invoke (Command.render_not_mem_jobs fun s hs => (h s hs).not_rendering)
      frame addToHistory outermost
  unfold Invokes
  rw [Engine.invoke_text hne h]
  constructor
  · intro hends
    have hmerged : ((e.invoke frame c addToHistory outermost).2.extended [] false).Plain :=
      ⟨by simpa [Invocation.extended] using hplain.todo, hplain.phase⟩
    have hback := hends.merged hmerged c.mergesErrors
    simpa [Invocation.extended, Engine.invoke] using hback
  · intro hends
    exact hends.merged hplain false

/-- An error, and an output from the second of two commands in one script. -/
theorem Host.invokes_text_of_two_stages :
    let c : Command := ⟨[
      { text := "Write-Error", merge := true, parameters := [.positional (.str "oops")] },
      { text := "get-depth | echo", script := true, parameters := [.positional (.int 2)] }]⟩
    let text := "Write-Error oops | get-depth | echo 2"
    (c.stages ≠ [] ∧ ∀ s ∈ c.stages, s.Spelled) ∧
      ∃ o, (ofReplies atOnce).Invokes {} () {} (.ofScript c.text) true true o ∧
        o.engine.history = [text] ∧
        o.engine.journal = [⟨.started text, 0, .normal⟩, ⟨.finished text, 0, .normal⟩] := by
  intro c text
  have hne : c.stages ≠ [] := List.cons_ne_nil _ _
  have hoops : Text.IsWord "oops" := by decide
  have hname : Text.IsWord "Write-Error" := by decide
  have hspelled : ∀ s ∈ c.stages, s.Spelled := by
    intro s hs
    simp only [c, List.mem_cons, List.not_mem_nil, or_false] at hs
    rcases hs with rfl | rfl
    · refine ⟨?_, by simp, fun _ => ⟨hname, by decide⟩⟩
      simp only [List.mem_singleton, forall_eq]
      exact ⟨hoops, by decide⟩
    · exact ⟨by simp [Parameter.Spelled], fun _ => .inr ⟨" echo", by decide, by decide⟩, by simp⟩
  have hrun : ((ending? atOnce 7 ⟨(Engine.invoke {} {} c true true).1, (),
      (Engine.invoke {} {} c true true).2⟩).map fun o => (o.engine.history, o.engine.journal)) =
      some ([text], [⟨.started text, 0, .normal⟩, ⟨.finished text, 0, .normal⟩]) := by
    decide +kernel
  obtain ⟨o, hends, hengine⟩ := Option.map_eq_some_iff.mp hrun
  have hinvokes := (Host.invokes_text_iff (ofReplies atOnce) hne hspelled {} () {} true true o).mpr
    (ends_of_ending? hends)
  exact ⟨⟨hne, hspelled⟩, o, hinvokes, congrArg Prod.fst hengine, congrArg Prod.snd hengine⟩

end ScriptHost
