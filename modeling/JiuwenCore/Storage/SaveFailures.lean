import JiuwenCore.Storage.JsonStorage

/-!
# A save that fails

What `SaveMessage` makes of the stored history for every content of the file and every
way its file operations may end. A file that cannot be read counts as an empty history
and is replaced, and a stream that could not write everything is not noticed.
-/

namespace JiuwenCore.JsonStorage

open ContextEngine Session

variable (lib : JsonLib)

/-- The history that is stored: a missing file is an empty one, and a text that is no
array is none at all. -/
def storedRows (file : Option Str) : Option (List Json) :=
  match file with
  | none => some []
  | some text => parseRows lib text

/-- What a save may do: add the row and say so, or leave the history as it is. A history
that cannot be read is left as it is only with its file. -/
def SaveSound (msg : Message) (before : HistoryFiles) (result : Bool × HistoryFiles) : Prop :=
  (result.1 = true ∧ ∃ rows, storedRows lib before.filePath = some rows ∧
      storedRows lib result.2.filePath = some (rows ++ [encodeMessage msg])) ∨
    result.2.filePath = before.filePath ∨
    ∃ rows, storedRows lib before.filePath = some rows ∧
      storedRows lib result.2.filePath = some rows

/-- The save ends before the file is replaced. -/
def StopsEarly (io : SaveOutcome) (msg : Message) (file : Option Str) : Prop :=
  isValidMessage msg = false ∨ io.existsThrows = true ∨
    (file.isSome = true ∧ io.opens = true ∧ io.reads = none) ∨ io.tmpOpens = false ∨
    ¬ Utf8Message msg ∨ io.renames = false

instance (io : SaveOutcome) (msg : Message) (file : Option Str) :
    Decidable (StopsEarly io msg file) := inferInstanceAs (Decidable (_ ∨ _))

/-- The save does no harm: the rows it adds to are the rows of the file, or these are
already what it writes; what is not written whole is what the file holds. -/
def SaveFits (io : SaveOutcome) (msg : Message) (file : Option Str) : Prop :=
  StopsEarly io msg file ∨
    ∃ rows text, readRows lib io file = some rows ∧
      lib.dumpIndented 2 (.arr (rows ++ [encodeMessage msg])) = some text ∧
      if io.writes.apply text = text then
        storedRows lib file = some rows ∨
          storedRows lib file = some (rows ++ [encodeMessage msg])
      else file = some (io.writes.apply text)

variable {lib}

/-! ## What the save adds to -/

theorem readRows_sound (h : lib.Faithful) {io : SaveOutcome} {file : Option Str}
    {rows : List Json} (hrows : readRows lib io file = some rows) :
    ∀ row ∈ rows, row.regular = true ∧ row.Utf8Only := by
  unfold readRows at hrows
  split at hrows
  · cases hrows
    nofun
  · split at hrows
    · obtain ⟨transfer, _, rfl⟩ := Option.map_eq_some_iff.mp hrows
      exact rowsOf_sound h _
    · cases hrows
      nofun

theorem readRows_eq_none {io : SaveOutcome} {file : Option Str} :
    readRows lib io file = none ↔ file.isSome = true ∧ io.opens = true ∧ io.reads = none := by
  unfold readRows
  cases file with
  | none => simp
  | some text => cases io.opens <;> simp

theorem saveMessage_early (h : lib.Faithful) {io : SaveOutcome} {msg : Message}
    {files : HistoryFiles} (hstop : StopsEarly io msg files.filePath) :
    (saveMessage lib io msg files).2.filePath = files.filePath := by
  unfold saveMessage
  split
  · rename_i hvalid
    split
    · rfl
    · rename_i hexists
      split
      · rfl
      · rename_i rows hrows
        unfold writeRows
        split
        · rename_i hopen
          split
          · rfl
          · rename_i text htext
            split
            · rename_i hrenames
              have hutf8 : Utf8Message msg :=
                (dumped_iff h (fun row hrow => (readRows_sound h hrows row hrow).2) msg).mp
                  (by rw [htext]; rfl)
              rcases hstop with hstop | hstop | hstop | hstop | hstop | hstop
              · rw [hvalid] at hstop
                cases hstop
              · exact absurd hstop hexists
              · rw [readRows_eq_none.mpr hstop] at hrows
                cases hrows
              · rw [hopen] at hstop
                cases hstop
              · exact absurd hutf8 hstop
              · rw [hrenames] at hstop
                cases hstop
            · rfl
        · rfl
  · rfl

theorem saveMessage_late (h : lib.Faithful) {io : SaveOutcome} {msg : Message}
    {files : HistoryFiles} (hstop : ¬ StopsEarly io msg files.filePath) :
    ∃ rows text, readRows lib io files.filePath = some rows ∧
      lib.dumpIndented 2 (.arr (rows ++ [encodeMessage msg])) = some text ∧
      saveMessage lib io msg files =
        (true, { filePath := some (io.writes.apply text), tmpPath := none }) := by
  simp only [StopsEarly, not_or, Bool.not_eq_false, Bool.not_eq_true, not_not] at hstop
  obtain ⟨hvalid, hexists, hread, hopen, hutf8, hrenames⟩ := hstop
  rw [← @readRows_eq_none lib] at hread
  obtain ⟨rows, hrows⟩ := Option.ne_none_iff_exists'.mp hread
  have hdumped :=
    (dumped_iff h (fun row hrow => (readRows_sound h hrows row hrow).2) msg).mpr hutf8
  obtain ⟨text, htext⟩ := Option.isSome_iff_exists.mp hdumped
  refine ⟨rows, text, hrows, htext, ?_⟩
  simp [saveMessage, writeRows, hvalid, hexists, hrows, hopen, htext, hrenames]

/-! ## What is in the file afterwards -/

/-- What is not written whole is no history. -/
theorem storedRows_short (h : lib.Faithful) {rows : List Json} {text : Str} {writes : Transfer}
    (htext : lib.dumpIndented 2 (.arr rows) = some text) (hshort : writes.apply text ≠ text) :
    storedRows lib (some (writes.apply text)) = none := by
  cases writes with
  | whole => exact absurd rfl hshort
  | upTo n =>
      have hlt : n < text.length := by
        by_contra hle
        exact hshort (List.take_of_length_le (Nat.le_of_not_lt hle))
      simp only [storedRows, parseRows, Transfer.apply, h.truncated 2 rows text n htext hlt]

theorem storedRows_whole (h : lib.Faithful) {io : SaveOutcome} {msg : Message}
    {file : Option Str} {rows : List Json} {text : Str}
    (hrows : readRows lib io file = some rows)
    (htext : lib.dumpIndented 2 (.arr (rows ++ [encodeMessage msg])) = some text) :
    storedRows lib (some text) = some (rows ++ [encodeMessage msg]) := by
  refine parseRows_dumped h ?_ htext
  rw [List.forall_mem_append, List.forall_mem_singleton]
  exact ⟨fun row hrow => (readRows_sound h hrows row hrow).1, regular_encodeMessage msg⟩

/-- For every content of the file and every way its operations end, the save adds the
message or changes nothing exactly if it fits. -/
theorem saveSound_iff (h : lib.Faithful) (io : SaveOutcome) (msg : Message)
    (files : HistoryFiles) :
    SaveSound lib msg files (saveMessage lib io msg files) ↔ SaveFits lib io msg files.filePath := by
  by_cases hstop : StopsEarly io msg files.filePath
  · exact iff_of_true (Or.inr (Or.inl (saveMessage_early h hstop))) (Or.inl hstop)
  · obtain ⟨rows, text, hrows, htext, hsave⟩ := saveMessage_late h hstop
    have hfits : SaveFits lib io msg files.filePath ↔
        if io.writes.apply text = text then
          storedRows lib files.filePath = some rows ∨
            storedRows lib files.filePath = some (rows ++ [encodeMessage msg])
        else files.filePath = some (io.writes.apply text) := by
      constructor
      · rintro (hearly | ⟨rows', text', hrows', htext', hfit⟩)
        · exact absurd hearly hstop
        · obtain rfl : rows = rows' := Option.some.inj (hrows.symm.trans hrows')
          obtain rfl : text = text' := Option.some.inj (htext.symm.trans htext')
          exact hfit
      · exact fun hfit => Or.inr ⟨rows, text, hrows, htext, hfit⟩
    rw [hfits, hsave]
    by_cases hwhole : io.writes.apply text = text
    · have hafter := storedRows_whole h hrows htext
      have hlonger : rows ++ [encodeMessage msg] ≠ rows := by simp
      simp only [SaveSound, hwhole, if_true, hafter, Option.some.injEq, true_and]
      constructor
      · rintro (⟨old, hold, hnew⟩ | hsame | ⟨old, hold, hnew⟩)
        · rw [List.append_cancel_right hnew]
          exact Or.inl hold
        · rw [← hsame]
          exact Or.inr hafter
        · rw [hnew]
          exact Or.inr hold
      · rintro (hold | hold)
        · exact Or.inl ⟨rows, hold, rfl⟩
        · exact Or.inr (Or.inr ⟨_, hold, rfl⟩)
    · have hafter := storedRows_short h htext hwhole
      simp only [SaveSound, hwhole, if_false, hafter]
      constructor
      · rintro (⟨_, old, _, hnew⟩ | hsame | ⟨old, _, hnew⟩)
        · cases hnew
        · exact hsame.symm
        · cases hnew
      · exact fun hsame => Or.inr (Or.inl hsame.symm)

/-- A file that is cut in the middle is replaced by a history of one message. -/
theorem saveMessage_replaces_corrupt :
    ¬ SaveSound readerLib { role := Role.user, content := lit "hi" }
      { filePath := some (lit "[1,") }
      (saveMessage readerLib {} { role := Role.user, content := lit "hi" }
        { filePath := some (lit "[1,") }) := by
  have hcorrupt : storedRows readerLib (some (lit "[1,")) = none := by
    rw [storedRows, parseRows, show readerLib.parse (lit "[1,") = none from by decide]
  rintro (⟨_, rows, hrows, _⟩ | hsame | ⟨rows, hrows, _⟩)
  · rw [hcorrupt] at hrows
    cases hrows
  · revert hsame
    decide
  · rw [hcorrupt] at hrows
    cases hrows

theorem saveSound_missing :
    SaveSound readerLib { role := Role.user, content := lit "hi" } {}
      (saveMessage readerLib {} { role := Role.user, content := lit "hi" } {}) :=
  (saveSound_iff readerLib_faithful {} _ {}).mpr
    (Or.inr ⟨[], _, rfl, rfl, Eq.mpr (if_pos rfl) (Or.inl rfl)⟩)

end JiuwenCore.JsonStorage
