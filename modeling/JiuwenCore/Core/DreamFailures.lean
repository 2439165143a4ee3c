import JiuwenCore.Core.Dream

/-!
# Failing model calls in a pass

A call of the model throws, or returns a response that reports the failure in `finishReason`.
A pass takes the `content` of such a response like any other, and where the pass comes to its
end it moves the cursor.
-/

namespace JiuwenCore.Dream

open HistoryStore (HistoryEntry readCursor_range readCursor_printInt)
open Models

/-- The call throws, or its response says that it failed. -/
def Failed : Except Str ModelResponse → Prop
  | .error _ => True
  | .ok response => response.finishReason = lit "error"

instance (answer : Except Str ModelResponse) : Decidable (Failed answer) := by
  cases answer <;> unfold Failed <;> infer_instance

variable {σ : Type} {config : DreamConfig} {tools : FileTools σ} {answers : Answers}
  {findings : List DreamFinding} {systemPrompt now : Str} {files : σ} {d : DreamStore}

/-! ## When Phase 2 returns -/

/-- From iteration `j` on Phase 2 makes `n` more calls, which all return, and returns. -/
inductive EndsFrom (config : DreamConfig) (answers : Answers) : Nat → Nat → Prop
  | limit {j : Nat} : ¬ Continues config j → EndsFrom config answers j 0
  | settled {j : Nat} {response : ModelResponse} : Continues config j →
      answers (j + 1) = .ok response → Settles response → EndsFrom config answers j 1
  | another {j n : Nat} {response : ModelResponse} : Continues config j →
      answers (j + 1) = .ok response → ¬ Settles response → EndsFrom config answers (j + 1) n →
      EndsFrom config answers j (n + 1)

theorem phase2Loop_of_endsFrom {j n : Nat} (h : EndsFrom config answers j n) (st : Phase2State σ)
    (prompts : List Prompt) : ∃ fuel ended,
      phase2Loop config tools answers findings systemPrompt fuel j st prompts = some ended ∧
        ended.outcome.isOk = true ∧ ended.prompts.length = prompts.length + n := by
  induction h generalizing st prompts with
  | limit hlimit =>
      refine ⟨1, { outcome := .ok false, files := st.files, prompts := prompts }, ?_, rfl, rfl⟩
      rw [phase2Loop, if_neg hlimit]
  | @settled j response hcontinues hanswer hsettles =>
      let prompt : Prompt :=
        { system := systemPrompt
          user := buildPhase2Prompt config findings st.scratchpad st.cache }
      refine ⟨1, { outcome := .ok true, files := st.files, prompts := prompts ++ [prompt] }, ?_, rfl,
        List.length_append⟩
      simp only [phase2Loop, if_pos hcontinues, hanswer, if_pos hsettles, prompt]
  | @another j n response hcontinues hanswer hsettles _ ih =>
      obtain ⟨fuel, ended, hloop, hok, hlength⟩ := ih
        ((extractAllToolCalls response.content).foldl (runCall config tools j) st)
        (prompts ++ [{ system := systemPrompt
                       user := buildPhase2Prompt config findings st.scratchpad st.cache }])
      refine ⟨fuel + 1, ended, ?_, hok, ?_⟩
      · simp only [phase2Loop, if_pos hcontinues, hanswer, if_neg hsettles]
        exact hloop
      · rw [hlength, List.length_append, List.length_singleton]
        omega

theorem endsFrom_of_phase2Loop {fuel j : Nat} {st : Phase2State σ} {prompts : List Prompt}
    {ended : PhaseEnd σ}
    (h : phase2Loop config tools answers findings systemPrompt fuel j st prompts = some ended)
    (hok : ended.outcome.isOk = true) :
    ∃ n, ended.prompts.length = prompts.length + n ∧ EndsFrom config answers j n := by
  induction fuel generalizing j st prompts with
  | zero => cases h
  | succ fuel ih =>
      rw [phase2Loop] at h
      split at h
      · rename_i hcontinues
        dsimp only at h
        split at h
        · cases h
          cases hok
        · rename_i response hanswer
          split at h
          · rename_i hsettles
            cases h
            exact ⟨1, List.length_append, .settled hcontinues hanswer hsettles⟩
          · rename_i hsettles
            obtain ⟨n, hlength, hends⟩ := ih h
            refine ⟨n + 1, ?_, .another hcontinues hanswer hsettles hends⟩
            rw [hlength, List.length_append, List.length_singleton]
            omega
      · rename_i hlimit
        cases h
        exact ⟨0, rfl, .limit hlimit⟩

/-- With a limit Phase 2 comes to an end, whatever the model answers. -/
theorem phase2Loop_total (hlimit : 0 ≤ config.maxIterations) {fuel j : Nat} (hpos : 0 < fuel)
    (hfuel : config.maxIterations.toInt < fuel + j) (st : Phase2State σ) (prompts : List Prompt) :
    (phase2Loop config tools answers findings systemPrompt fuel j st prompts).isSome = true := by
  induction fuel generalizing j st prompts with
  | zero => cases hpos
  | succ fuel ih =>
      rw [phase2Loop]
      split
      · rename_i hcontinues
        have hj : (j : Int) < config.maxIterations.toInt := by
          rcases hcontinues with hunlimited | hj
          · exact absurd hlimit (Int32.not_le.mpr hunlimited)
          · exact hj
        dsimp only
        split
        · rfl
        · split
          · rfl
          · push_cast at hfuel
            apply ih
            · omega
            · push_cast
              omega
      · rfl

/-! ## When a pass comes to its end -/

/-- The pass makes `n` calls, which all return, and comes to the point where it moves the
cursor. -/
def Completes (config : DreamConfig) (answers : Answers) (n : Nat) : Prop :=
  ∃ response, answers 0 = .ok response ∧
    (parseFindings response.content = [] ∧ n = 1 ∨
      parseFindings response.content ≠ [] ∧ ∃ k, n = k + 1 ∧ EndsFrom config answers 0 k)

theorem batchOf_nil : batchOf config [] = [] := by
  rw [batchOf, List.take_nil]

/-- The batch of a pass and its last entry, where the pass is defined and has something to do. -/
theorem batch_last (h : batchOf config d.unprocessed ≠ []) :
    d.unprocessed ≠ [] ∧ ∃ last, (batchOf config d.unprocessed).getLast? = some last ∧
      last ∈ d.unprocessed := by
  constructor
  · intro hnone
    rw [hnone] at h
    exact h batchOf_nil
  · refine ⟨_, List.getLast?_eq_some_getLast h, ?_⟩
    exact List.mem_of_mem_take (List.getLast_mem h)

theorem mem_unprocessed {entry : HistoryEntry} (h : entry ∈ d.unprocessed) :
    entry ∈ d.history.readAllEntries ∧ d.getLastDreamCursor < entry.cursor := by
  obtain ⟨hmem, hcursor⟩ := List.mem_filter.mp h
  refine ⟨hmem, ?_⟩
  have hle := of_decide_eq_true hcursor
  omega

theorem getLastDreamCursor_set {cursor : Int} (hmin : -2 ^ 31 ≤ cursor) (hmax : cursor < 2 ^ 31) :
    (d.setLastDreamCursor cursor).getLastDreamCursor = cursor :=
  readCursor_printInt hmin hmax

/-- A pass leaves the store alone, or it has completed and moved the cursor. -/
theorem run_spec {last : HistoryEntry}
    (hlast : (batchOf config d.unprocessed).getLast? = some last) (hsome : d.unprocessed ≠ [])
    {fuel : Nat} {ended : PassEnd σ}
    (h : run config tools answers now fuel files d = some ended) :
    ended.store = d ∨
      ended.store = d.setLastDreamCursor last.cursor ∧
        Completes config answers ended.prompts.length := by
  simp only [run, if_neg hsome, hlast] at h
  split at h
  · cases h
    exact .inl rfl
  · rename_i response hanswer
    split at h
    · rename_i hfindings
      cases h
      exact .inr ⟨rfl, response, hanswer, .inl ⟨hfindings, rfl⟩⟩
    · rename_i hfindings
      obtain ⟨phase2, hphase2, rfl⟩ := Option.map_eq_some_iff.mp h
      by_cases hok : phase2.outcome.isOk = true
      · right
        obtain ⟨n, hlength, hends⟩ := endsFrom_of_phase2Loop hphase2 hok
        refine ⟨if_pos hok, response, hanswer, .inr ⟨hfindings, n, ?_, hends⟩⟩
        rw [hlength, List.length_singleton]
        omega
      · exact .inl (if_neg hok)

/-- Where it completes, it does so after enough iterations, and has moved the cursor. -/
theorem run_of_completes {last : HistoryEntry}
    (hlast : (batchOf config d.unprocessed).getLast? = some last) (hsome : d.unprocessed ≠ [])
    {n : Nat} (h : Completes config answers n) : ∃ fuel ended,
      run config tools answers now fuel files d = some ended ∧ ended.prompts.length = n ∧
        ended.store = d.setLastDreamCursor last.cursor := by
  obtain ⟨response, hanswer, ⟨hfindings, rfl⟩ | ⟨hfindings, k, rfl, hends⟩⟩ := h
  · refine ⟨0, { outcome := .ok false
                 store := d.setLastDreamCursor last.cursor
                 files := files
                 prompts := [phase1Prompt config tools now
                   (historyText config (batchOf config d.unprocessed)) files] }, ?_, rfl, rfl⟩
    simp only [run, if_neg hsome, hlast, hanswer, if_pos hfindings]
  · have hphase2 : ∀ st prompts, ∃ fuel ended, phase2Loop config tools answers
        (parseFindings response.content) (loadDreamPhase2Prompt config tools files)
          fuel 0 st prompts = some ended ∧
            ended.outcome.isOk = true ∧ ended.prompts.length = prompts.length + k :=
      phase2Loop_of_endsFrom hends
    obtain ⟨fuel, ended, hloop, hok, hlength⟩ := hphase2
      { files := files, cache := loadFiles config tools files }
      [phase1Prompt config tools now (historyText config (batchOf config d.unprocessed)) files]
    refine ⟨fuel, { outcome := ended.outcome
                    store := d.setLastDreamCursor last.cursor
                    files := ended.files
                    prompts := ended.prompts }, ?_, ?_, rfl⟩
    · simp only [run, if_neg hsome, hlast, hanswer, if_neg hfindings, phase2Execution, hloop,
        Option.map_some, hok, if_true]
    · rw [hlength, List.length_singleton]
      omega

/-! ## What a failed call leaves -/

/-- If call number `i` is made and fails, the pass leaves the cursor where it was, and the next
pass reads what this one has read. -/
def KeepsOnFailure (config : DreamConfig) (tools : FileTools σ) (answers : Answers) (now : Str)
    (files : σ) (d : DreamStore) (i : Nat) : Prop :=
  ∀ fuel ended, run config tools answers now fuel files d = some ended →
    i < ended.prompts.length → Failed (answers i) →
      ended.store.getLastDreamCursor = d.getLastDreamCursor ∧
        ended.store.unprocessed = d.unprocessed

/-- Call number 0 is that of Phase 1. -/
theorem keeps_on_failure_iff (config : DreamConfig) (tools : FileTools σ) (answers : Answers)
    (now : Str) (files : σ) (d : DreamStore)
    (hint : ∀ entry ∈ d.history.readAllEntries, entry.cursor < 2 ^ 31) (i : Nat) :
    KeepsOnFailure config tools answers now files d i ↔
      (batchOf config d.unprocessed = [] ∨
        ∀ n, Completes config answers n → i < n → ¬ Failed (answers i)) := by
  by_cases hbatch : batchOf config d.unprocessed = []
  · refine iff_of_true ?_ (.inl hbatch)
    intro fuel ended hrun hmade
    simp only [run, hbatch, List.getLast?_nil] at hrun
    split at hrun
    · cases hrun
      exact absurd hmade (Nat.not_lt_zero _)
    · cases hrun
  · obtain ⟨hsome, last, hlast, hmem⟩ := batch_last hbatch
    obtain ⟨hall, hbehind⟩ := mem_unprocessed hmem
    have hmoved : (d.setLastDreamCursor last.cursor).getLastDreamCursor ≠ d.getLastDreamCursor := by
      have hrange := readCursor_range d.dreamCursorFile
      have hmin : -2 ^ 31 ≤ last.cursor := le_of_lt (lt_of_le_of_lt hrange.1 hbehind)
      rw [getLastDreamCursor_set hmin (hint last hall)]
      omega
    constructor
    · intro hkeeps
      right
      intro n hcompletes hmade hfailed
      obtain ⟨fuel, ended, hrun, hlength, hstore⟩ := run_of_completes hlast hsome hcompletes
      have hcursor := (hkeeps fuel ended hrun (hlength ▸ hmade) hfailed).1
      rw [hstore] at hcursor
      exact hmoved hcursor
    · intro hok fuel ended hrun hmade hfailed
      rcases run_spec hlast hsome hrun with hstore | ⟨_, hcompletes⟩
      · rw [hstore]
        exact ⟨rfl, rfl⟩
      · rcases hok with hnone | hok
        · exact absurd hnone hbatch
        · exact absurd hfailed (hok _ hcompletes hmade)

/-! ## A response that reports a failure -/

/-- A workspace without files. -/
def noFiles : FileTools Unit where
  loadFile := fun _ _ => []
  readFile := fun _ _ => (.error [], ())
  writeFile := fun _ _ => (.error [], ())
  editFile := fun _ _ => (.error [], ())

/-- One event, not processed yet. -/
def oneEvent : DreamStore where
  history := { lines := [[.whole
    { cursor := 1, timestamp := lit "t", sessionId := lit "s1", role := Role.user
      content := lit "hi", toolCallId := [], toolName := [], payloadRef := [] }]]
               cursorFile := some (lit "1") }

/-- Every call returns the response of a request that was answered with HTTP status 500. -/
def failingAnswers : Answers :=
  fun _ => .ok (respond [] false { statusCode := 500 } {})

theorem oneEvent_ints : ∀ entry ∈ oneEvent.history.readAllEntries, entry.cursor < 2 ^ 31 := by
  decide +kernel

/-- The text of the error holds no finding, so the event counts as processed. -/
theorem failed_call_moves_cursor : ¬ ∀ (answers : Answers) (d : DreamStore),
    (∀ entry ∈ d.history.readAllEntries, entry.cursor < 2 ^ 31) →
      KeepsOnFailure {} noFiles answers (lit "t") () d 0 := by
  intro h
  have hkeeps := h failingAnswers oneEvent oneEvent_ints
  have hcursor : ((run {} noFiles failingAnswers (lit "t") 0 () oneEvent).any fun ended =>
      decide (0 < ended.prompts.length ∧
        ended.store.getLastDreamCursor ≠ oneEvent.getLastDreamCursor)) = true := by
    decide +kernel
  obtain ⟨ended, hrun, hended⟩ := (Option.any_eq_true _ _).mp hcursor
  obtain ⟨hmade, hmoved⟩ := of_decide_eq_true hended
  exact hmoved (hkeeps 0 ended hrun hmade (by decide +kernel)).1

/-- A call that throws leaves the event to the next pass. -/
theorem thrown_call_keeps_event :
    KeepsOnFailure {} noFiles (fun _ => .error (lit "timeout")) (lit "t") () oneEvent 0 := by
  apply (keeps_on_failure_iff {} noFiles (fun _ => .error (lit "timeout")) (lit "t") () oneEvent
    oneEvent_ints 0).mpr
  right
  rintro n ⟨response, hanswer, _⟩
  cases hanswer

end JiuwenCore.Dream
