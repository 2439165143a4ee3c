import JiuwenCore.Context.Erasure
import JiuwenCore.Context.SignedSums

/-!
# The bounds of the window

Whether the iterators stay inside their vectors, the sums inside `int`, and the window keeps
something.
-/

namespace JiuwenCore.CheckedWindow

open ContextEngine hiding calculateMessageTokens calculateMessagesTokens closeSegment segmentsFrom
  buildMessageSegments truncateSummary compressSegment admitSegments truncateFront
  applyContextLimits
open Pieces (pieces_flatten pieces_inner pieces_ne_nil)

/-! ## The newest segment -/

/-- The segments the loop walks over, newest first. -/
def walked (sanitized : List Message) : List MessageSegment :=
  ((ContextEngine.buildMessageSegments sanitized).take
    (toInt (ContextEngine.buildMessageSegments sanitized).length).toNat).reverse

theorem walked_range (sanitized : List Message) :
    ∀ s ∈ walked sanitized, s.start < s.stop ∧ s.stop ≤ sanitized.length := by
  intro s hs
  exact buildMessageSegments_range sanitized s (List.mem_of_mem_take (List.mem_reverse.mp hs))

theorem walked_eq {sanitized : List Message} (h : sanitized.length < 2 ^ 31) :
    walked sanitized = (ContextEngine.buildMessageSegments sanitized).reverse := by
  have hlength := buildMessageSegments_length sanitized
  rw [walked, toInt_of_lt (by omega), Int.toNat_natCast, List.take_length]

/-- The history from the newest segment on: a user message, if there is one, and what is not. -/
structure Newest (sanitized : List Message) (first : Message) (newer : List Message) : Prop where
  suffix : ∃ front, sanitized = front ++ first :: newer
  user : (∃ m ∈ sanitized, m.isUser) → first.isUser
  later : ∀ m ∈ newer, ¬m.isUser

theorem newest_slice {sanitized : List Message} {segment : MessageSegment}
    {older : List MessageSegment}
    (h : (ContextEngine.buildMessageSegments sanitized).reverse = segment :: older) :
    ∃ first newer, segment.slice sanitized = first :: newer ∧ Newest sanitized first newer := by
  have hsegments : ContextEngine.buildMessageSegments sanitized = older.reverse ++ [segment] := by
    rw [← List.reverse_reverse (ContextEngine.buildMessageSegments sanitized), h,
      List.reverse_cons]
  have hslices := buildMessageSegments_slices sanitized
  rw [hsegments, List.map_append, List.map_singleton] at hslices
  have hmem : segment.slice sanitized ∈ Pieces.pieces userMark sanitized := by
    rw [← hslices]
    simp
  have hflatten := pieces_flatten userMark sanitized
  rw [← hslices, List.flatten_append, List.flatten_singleton] at hflatten
  cases hslice : segment.slice sanitized with
  | nil => exact absurd hslice (pieces_ne_nil userMark sanitized _ hmem)
  | cons first newer =>
      rw [hslice] at hmem hflatten
      refine ⟨first, newer, rfl, ⟨_, hflatten.symm⟩, fun huser => ?_, fun m hm huser => ?_⟩
      · obtain ⟨_, _, query, tail, hreverse, hquery, huser', -⟩ := newest_segment huser
        rw [h] at hreverse
        cases hreverse
        rw [hslice] at hquery
        cases hquery
        exact huser'
      · have hmark := pieces_inner userMark sanitized _ hmem m hm
        rw [(userMark_iff m).mpr huser] at hmark
        cases hmark

theorem sanitize_ne_nil {messages : List Message} (h : messages ≠ []) :
    sanitize messages ≠ [] := by
  cases messages with
  | nil => exact absurd rfl h
  | cons msg rest =>
      obtain ⟨content, tail, hhead⟩ := mergeInto_head msg rest
      rw [sanitize, hhead]
      exact List.cons_ne_nil _ tail

/-- What the walk selects, by the messages of the newest segment. -/
theorem Selected.newest {config : ContextConfig} {sanitized : List Message}
    {selected : List (List Message)} (hne : sanitized ≠ []) (hlength : sanitized.length < 2 ^ 31)
    (h : Selected config sanitized (walked sanitized) selected) :
    ∃ first newer, Newest sanitized first newer ∧
      ((∃ older, selected.reverse.flatten = older ++ first :: newer ∧
        ((first :: newer).length : Int) ≤ config.maxMessages.toInt) ∨
      (selected.reverse.flatten = openingUser (first :: newer) ∧
        ∀ m ∈ first :: newer, ¬Summarised m) ∨
      ∃ content, selected.reverse.flatten =
        openingUser (first :: newer) ++ [summaryMessage content] ∧
          ∃ m ∈ first :: newer, Summarised m) := by
  rw [walked_eq hlength] at h
  cases hsegments : (ContextEngine.buildMessageSegments sanitized).reverse with
  | nil =>
      have hslices := buildMessageSegments_slices sanitized
      have hflatten := pieces_flatten userMark sanitized
      rw [List.reverse_eq_nil_iff.mp hsegments, List.map_nil] at hslices
      rw [← hslices] at hflatten
      exact absurd hflatten.symm hne
  | cons segment older =>
      obtain ⟨first, newer, hslice, hnewest⟩ := newest_slice hsegments
      have hpart : toInt (first :: newer).length = (first :: newer).length := by
        have hsub := (slice_sublist sanitized segment.start segment.stop).length_le
        rw [← MessageSegment.slice, hslice] at hsub
        exact toInt_of_lt (by omega)
      refine ⟨first, newer, hnewest, ?_⟩
      rw [hsegments, Selected, hslice, hpart] at h
      rcases h with ⟨more, rfl, hfits⟩ | hcompressed
      · exact .inl ⟨more.reverse.flatten, by simp, hfits⟩
      · generalize selected.reverse.flatten = c at hcompressed
        cases hcompressed with
        | whole hfits => exact .inl ⟨[], rfl, hpart ▸ hfits⟩
        | opening hnone => exact .inr (.inl ⟨rfl, hnone⟩)
        | summary content hsome => exact .inr (.inr ⟨content, rfl, hsome⟩)

theorem openingUser_of_user {first : Message} (h : first.isUser) (newer : List Message) :
    openingUser (first :: newer) = [first] := if_pos h

/-- A summary behind an opening user message is what the newest segment leaves over. -/
theorem Newest.leftover {sanitized newer : List Message} {first : Message}
    (h : Newest sanitized first newer) (huser : first.isUser) :
    Leftover sanitized ↔ ∃ m ∈ first :: newer, Summarised m := by
  obtain ⟨front, hfront⟩ := h.suffix
  rw [leftover_iff, hfront, foldl_query huser h.later]
  simp [not_summarised_of_user huser]

theorem Leftover.user {messages : List Message} (h : Leftover messages) :
    ∃ m ∈ messages, m.isUser := by
  obtain ⟨older, query, newer, rfl, hquery, -⟩ := h
  exact ⟨query, by simp, hquery⟩

/-- With a negative limit, the newest segment leaves two messages when there is a summary behind
the user message, and otherwise one at most. -/
theorem Selected.length_neg {config : ContextConfig} {sanitized : List Message}
    {selected : List (List Message)} (hmax : config.maxMessages.toInt < 0) (hne : sanitized ≠ [])
    (hlength : sanitized.length < 2 ^ 31)
    (h : Selected config sanitized (walked sanitized) selected) :
    (Leftover sanitized → selected.reverse.flatten.length = 2) ∧
      (¬Leftover sanitized → selected.reverse.flatten.length ≤ 1 ∧
        ∀ m ∈ sanitized, m.isUser →
          ∃ query, query.isUser ∧ selected.reverse.flatten = [query]) := by
  obtain ⟨first, newer, hnewest, ⟨older, -, hfits⟩ | ⟨heq, hnone⟩ | ⟨content, heq, hsome⟩⟩ :=
    h.newest hne hlength
  · omega
  · rw [heq]
    refine ⟨fun hleft => ?_, fun _ => ⟨?_, fun m hm huser => ?_⟩⟩
    · obtain ⟨m, hm, hsummarised⟩ := (hnewest.leftover (hnewest.user hleft.user)).mp hleft
      exact absurd hsummarised (hnone m hm)
    · rcases openingUser_cases (first :: newer) with hnil | ⟨_, _, _, _, hone⟩
      · simp [hnil]
      · simp [hone]
    · have hfirst := hnewest.user ⟨m, hm, huser⟩
      exact ⟨first, hfirst, openingUser_of_user hfirst newer⟩
  · rw [heq]
    refine ⟨fun hleft => ?_, fun hnot => ⟨?_, fun m hm huser => ?_⟩⟩
    · simp [openingUser_of_user (hnewest.user hleft.user)]
    · have hfirst : ¬first.isUser := fun huser => hnot ((hnewest.leftover huser).mpr hsome)
      simp [openingUser, hfirst]
    · exact absurd ((hnewest.leftover (hnewest.user ⟨m, hm, huser⟩)).mpr hsome) hnot

/-- With a limit that is not negative, something among the newest messages that the pairing
passes keep is selected last. -/
theorem Selected.keeps {config : ContextConfig} {sanitized : List Message}
    {selected : List (List Message)} (hlength : sanitized.length < 2 ^ 31)
    (huser : ∃ m ∈ sanitized, m.isUser)
    (h : Selected config sanitized (walked sanitized) selected) :
    ∃ older newest m, selected.reverse.flatten = older ++ newest ∧
      newest.length ≤ max config.maxMessages.toInt.toNat 1 ∧ m ∈ newest ∧ ¬m.opensCalls ∧
        ¬m.isTool := by
  have hne : sanitized ≠ [] := by
    rintro rfl
    simp at huser
  obtain ⟨first, newer, hnewest, hcases⟩ := h.newest hne hlength
  have hfirst := hnewest.user huser
  have hopens : ¬first.opensCalls := fun h => Role.user_ne_assistant (hfirst.symm.trans h.1)
  have htool : ¬first.isTool := fun h => Role.user_ne_tool (hfirst.symm.trans h)
  rcases hcases with ⟨older, heq, hfits⟩ | ⟨heq, -⟩ | ⟨content, heq, -⟩
  · exact ⟨older, first :: newer, first, heq, by omega, List.mem_cons_self, hopens, htool⟩
  · rw [openingUser_of_user hfirst] at heq
    exact ⟨[], [first], first, heq, Nat.le_max_right _ _, List.mem_cons_self, hopens, htool⟩
  · rw [openingUser_of_user hfirst] at heq
    exact ⟨[first], [summaryMessage content], summaryMessage content, heq, Nat.le_max_right _ _,
      List.mem_cons_self, fun h => h.2 rfl, Role.assistant_ne_tool⟩

/-! ## The run -/

section Run

variable {sum : Int → Checks Int} {exc : Fault → Prop}
variable (hsum : ∀ n, Ends (sum n) (fun _ => True) exc)

include hsum

/-- A run ends as its erasure does, whatever the walk selects. -/
theorem applyContextLimits_ends {config : ContextConfig} {messages : List Message}
    {post : List Message → Prop} {exc' : Fault → Prop} (hexc : ∀ e, exc e → exc' e)
    (hnil : messages = [] → post [])
    (herase : ∀ selected,
      Selected config (sanitize messages) (walked (sanitize messages)) selected →
      Ends (truncateFront config selected.reverse.flatten)
        (fun result => post (dropUnpairedToolMessages result).1) exc') :
    Ends (applyContextLimits sum config messages) post exc' := by
  have hsum' : ∀ n, Ends (sum n) (fun _ => True) exc' :=
    fun n => (hsum n).mono (fun _ h => h) hexc
  unfold applyContextLimits
  split
  · rename_i h
    exact hnil h
  · refine (buildMessageSegments_ends fun part _ => calculateMessagesTokens_ends hsum' part).bind
      fun segments hsegments => ?_
    rw [hsegments]
    refine (admitSegments_ends hsum' config (sanitize messages) 0 (walked (sanitize messages))
      (walked_range _)).bind fun selected hselected => ?_
    refine (herase selected hselected).bind fun result hresult => ?_
    exact (calculateMessagesTokens_ends hsum' _).bind fun _ _ => hresult

/-- With a limit that is not negative every range is inside its vector. -/
theorem ranged_of_nonneg {config : ContextConfig} (hmax : 0 ≤ config.maxMessages.toInt)
    (messages : List Message) :
    Ends (applyContextLimits sum config messages) (fun _ => True) exc := by
  refine applyContextLimits_ends hsum (fun _ h => h) (fun _ => trivial) fun selected _ => ?_
  rw [truncateFront_nonneg hmax]
  trivial

theorem ranged_of_not_leftover {config : ContextConfig} {messages : List Message}
    (hmax : config.maxMessages.toInt < 0) (hlength : messages.length < 2 ^ 31)
    (hleft : ¬Leftover messages) :
    Ends (applyContextLimits sum config messages)
      (fun window => (∃ m ∈ messages, m.isUser) → window ≠ []) exc := by
  by_cases hnil : messages = []
  · subst hnil
    exact fun h => by simp at h
  have hsanitized := Nat.lt_of_le_of_lt (sanitize_length messages) hlength
  rw [← leftover_sanitize] at hleft
  refine applyContextLimits_ends hsum (fun _ h => h) (fun h => absurd h hnil)
    fun selected hselected => ?_
  obtain ⟨hshort, hquery⟩ :=
    (hselected.length_neg hmax (sanitize_ne_nil hnil) hsanitized).2 hleft
  rw [truncateFront_short hshort, ends_ok]
  intro huser
  obtain ⟨m, hm, hmuser⟩ := sanitize_user huser
  obtain ⟨query, hisUser, heq⟩ := hquery m hm hmuser
  rw [heq]
  exact List.ne_nil_of_mem (dropUnpaired_user List.mem_cons_self hisUser)

theorem nonempty_of_nonneg {config : ContextConfig} {messages : List Message}
    (hmax : 0 ≤ config.maxMessages.toInt) (hlength : messages.length < 2 ^ 31)
    (huser : ∃ m ∈ messages, m.isUser) :
    Ends (applyContextLimits sum config messages) (· ≠ []) exc := by
  have hsanitized := Nat.lt_of_le_of_lt (sanitize_length messages) hlength
  refine applyContextLimits_ends hsum (fun _ h => h) ?_ fun selected hselected => ?_
  · rintro rfl
    simp at huser
  · obtain ⟨older, newest, m, heq, hfits, hm, hopens, htool⟩ :=
      hselected.keeps hsanitized (sanitize_user huser)
    rw [heq]
    refine (truncateFront_keeps hmax older hfits hm).mono (fun result hresult => ?_)
      fun _ h => h.elim
    exact List.ne_nil_of_mem (mem_dropUnpaired hresult hopens htool)

/-- With a negative limit and something left over, the erasure goes beyond the end. -/
theorem range_of_leftover {config : ContextConfig} {messages : List Message}
    (hexc : ∀ e, ¬exc e) (hmax : config.maxMessages.toInt < 0) (hlength : messages.length < 2 ^ 31)
    (hleft : Leftover messages) : applyContextLimits sum config messages = .error .range := by
  have hnil : messages ≠ [] := by
    rintro rfl
    obtain ⟨m, hm, -⟩ := hleft.user
    cases hm
  have hsanitized := Nat.lt_of_le_of_lt (sanitize_length messages) hlength
  rw [← leftover_sanitize] at hleft
  have hends : Ends (applyContextLimits sum config messages) (fun _ => False) (· = .range) := by
    refine applyContextLimits_ends hsum (fun e h => absurd h (hexc e)) hnil
      fun selected hselected => ?_
    rw [truncateFront_neg hmax
      ((hselected.length_neg hmax (sanitize_ne_nil hnil) hsanitized).1 hleft)]
    rfl
  cases hrun : applyContextLimits sum config messages with
  | ok window =>
      rw [hrun] at hends
      exact hends.elim
  | error e =>
      rw [hrun] at hends
      rw [show e = Fault.range from hends]

end Run

/-! ## Sums -/

theorem messagesCharge_flatten (parts : List (List Message)) :
    (parts.map messagesCharge).sum = messagesCharge parts.flatten := by
  induction parts with
  | nil => rfl
  | cons part parts ih =>
      rw [List.map_cons, List.sum_cons, ih, List.flatten_cons, messagesCharge_append]

/-- The segments cost what the history costs. -/
theorem segments_charge (sanitized : List Message) :
    ((ContextEngine.buildMessageSegments sanitized).reverse.map fun s =>
      messagesCharge (s.slice sanitized)).sum = messagesCharge sanitized := by
  have hslices := buildMessageSegments_slices sanitized
  have hparts := messagesCharge_flatten (Pieces.pieces userMark sanitized)
  rw [pieces_flatten, ← hslices, List.map_map] at hparts
  rw [List.map_reverse, List.sum_reverse]
  exact hparts

/-- Below `2 ^ 31` bytes the sums are exact, and the run is the selection of the exact numbers
with its front erased. -/
theorem applyContextLimits_signed (config : ContextConfig) {messages : List Message}
    (hroles : ∀ m ∈ messages, m.role ≠ []) (hbytes : historyBytes messages < 2 ^ 31) :
    applyContextLimits signed config messages =
      (truncateFront config (selectMessages config (sanitize messages))).map fun result =>
        (dropUnpairedToolMessages result).1 := by
  have hcharge := sanitize_charge hroles
  have hlength := length_le_historyBytes hroles
  have hsanitized := sanitize_length messages
  have hlimit : messagesCharge (sanitize messages) ≤ chargeLimit := by
    rw [chargeLimit]
    omega
  unfold applyContextLimits
  split
  · rename_i h
    have hselected : selectMessages config (sanitize messages) = [] := by rw [h]; rfl
    have herase : truncateFront config [] = .ok [] := truncateFront_short (Nat.zero_le 1)
    rw [hselected, herase]
    rfl
  · obtain ⟨selected, hselected, hflatten⟩ := admitSegments_signed config 0
      (ContextEngine.buildMessageSegments (sanitize messages)).reverse
      (fun s hs => buildMessageSegments_range _ s (List.mem_reverse.mp hs))
      (by rw [segments_charge]; omega) (.inl rfl) (by omega)
    rw [← walked_eq (by omega)] at hselected
    dsimp only
    rw [buildMessageSegments_signed hlimit, ok_bind, ← walked, ← Nat.cast_zero, hselected,
      ok_bind, hflatten, ← selection, ← selectMessages_eq]
    cases herase : truncateFront config (selectMessages config (sanitize messages)) with
    | error e => rfl
    | ok result =>
        have hends := truncateFront_ends config (selectMessages config (sanitize messages))
        rw [herase, ends_ok] at hends
        have hselect := selectMessages_charge config (sanitize messages)
        have htokens := tokens_lt_of_charge (Nat.le_trans hselect (by omega))
        have hdropped := dropUnpaired_tokens result
        have hsub := calculateMessagesTokens_sublist hends
        rw [ok_bind, calculateMessagesTokens_signed (by omega)]
        rfl

/-- The run of the source's numbers is the window of the exact ones. -/
theorem applyContextLimits_exact {config : ContextConfig} {messages : List Message}
    (hmax : 0 ≤ config.maxMessages.toInt) (hroles : ∀ m ∈ messages, m.role ≠ [])
    (hbytes : historyBytes messages < 2 ^ 31) :
    applyContextLimits signed config messages =
      .ok (ContextEngine.applyContextLimits config messages) := by
  have hlength := length_le_historyBytes hroles
  have hsanitized := sanitize_length messages
  have hselect := selectMessages_length config (sanitize messages)
  rw [applyContextLimits_signed config hroles hbytes, applyContextLimits_eq]
  have hcast : toInt (selectMessages config (sanitize messages)).length =
      (selectMessages config (sanitize messages)).length := toInt_of_lt (by omega)
  unfold truncateFront ContextEngine.truncateFront
  rw [hcast]
  split
  · rename_i hover
    rw [← hcast] at hover
    rw [truncationExcess_nonneg hmax hover.1 hover.2, range_of (Nat.zero_le _) (by omega)]
    rfl
  · rfl

/-- A window of two messages for a history of three. -/
theorem applyContextLimits_exact_demo :
    applyContextLimits signed { maxMessages := 2 }
        [{ role := Role.user, content := lit "a" }, { role := Role.assistant, content := lit "b" },
          { role := Role.user, content := lit "c" }] =
      .ok (ContextEngine.applyContextLimits { maxMessages := 2 }
        [{ role := Role.user, content := lit "a" }, { role := Role.assistant, content := lit "b" },
          { role := Role.user, content := lit "c" }]) :=
  applyContextLimits_exact (by decide) (by decide) (by decide)

/-! ## The bounds -/

/-- Sums that go on with any number where they overflow. -/
def unchecked (arith : Int → Int) (n : Int) : Checks Int := .ok (arith n)

theorem unchecked_ends (arith : Int → Int) (n : Int) :
    Ends (unchecked arith n) (fun _ => True) fun _ => False := trivial

/-- What is asked of a window, whatever a sum gives that overflows. -/
structure Bounded (config : ContextConfig) (messages : List Message) : Prop where
  ranged : ∀ arith, applyContextLimits (unchecked arith) config messages ≠ .error .range
  summed : (∀ m ∈ messages, m.role ≠ []) → historyBytes messages < 2 ^ 31 →
    applyContextLimits signed config messages ≠ .error .overflow
  nonempty : (∃ m ∈ messages, m.isUser) → ∀ arith window,
    applyContextLimits (unchecked arith) config messages = .ok window → window ≠ []

/-- No sum of a history overflows, with any limits. -/
theorem sums_fit (config : ContextConfig) {messages : List Message}
    (hroles : ∀ m ∈ messages, m.role ≠ []) (hbytes : historyBytes messages < 2 ^ 31) :
    applyContextLimits signed config messages ≠ .error .overflow := by
  have hends := truncateFront_ends config (selectMessages config (sanitize messages))
  rw [applyContextLimits_signed config hroles hbytes]
  intro hoverflow
  cases herase : truncateFront config (selectMessages config (sanitize messages)) with
  | ok result =>
      rw [herase] at hoverflow
      cases hoverflow
  | error e =>
      rw [herase] at hends hoverflow
      rw [show e = Fault.range from hends] at hoverflow
      cases hoverflow

theorem Bounded.of_ends {config : ContextConfig} {messages : List Message}
    (h : ∀ arith, Ends (applyContextLimits (unchecked arith) config messages)
      (fun window => (∃ m ∈ messages, m.isUser) → window ≠ []) fun _ => False) :
    Bounded config messages where
  ranged := fun arith hrange => by
    have hends := h arith
    rw [hrange] at hends
    exact hends
  summed := sums_fit config
  nonempty := fun huser arith window hwindow => by
    have hends := h arith
    rw [hwindow] at hends
    exact hends huser

/-- With a limit that is not negative no list takes an iterator outside its vector. A list of fewer
than `2 ^ 31` messages has its window exactly when the limit is not negative or nothing is left
over behind the latest user message. -/
theorem bounded_iff (config : ContextConfig) (messages : List Message) :
    (0 ≤ config.maxMessages.toInt → ∀ arith,
      applyContextLimits (unchecked arith) config messages ≠ .error .range) ∧
    (messages.length < 2 ^ 31 →
      (Bounded config messages ↔ 0 ≤ config.maxMessages.toInt ∨ ¬Leftover messages)) := by
  refine ⟨fun hmax arith hrange => ?_, fun hlength => ⟨fun h => ?_, fun h => ?_⟩⟩
  · have hends := ranged_of_nonneg (unchecked_ends arith) hmax messages
    rw [hrange] at hends
    exact hends
  · by_contra hnot
    rw [not_or, not_not] at hnot
    exact h.ranged id (range_of_leftover (unchecked_ends id) (fun _ h => h) (by omega) hlength
      hnot.2)
  · refine .of_ends fun arith => ?_
    by_cases hmax : 0 ≤ config.maxMessages.toInt
    · by_cases huser : ∃ m ∈ messages, m.isUser
      · exact (nonempty_of_nonneg (unchecked_ends arith) hmax hlength huser).mono
          (fun _ hne _ => hne) fun _ h => h
      · exact (ranged_of_nonneg (unchecked_ends arith) hmax messages).mono
          (fun _ _ hsome => absurd hsome huser) fun _ h => h
    · exact ranged_of_not_leftover (unchecked_ends arith) (by omega) hlength
        (h.resolve_left hmax)

/-- With a limit of -1, a question and its answer are erased beyond the end. -/
theorem answer_erased_beyond_end :
    ¬∀ (config : ContextConfig) (messages : List Message), Bounded config messages := by
  intro h
  have hbounded := h { maxMessages := -1 }
    [{ role := Role.user, content := lit "hi" }, { role := Role.assistant, content := lit "hello" }]
  refine hbounded.ranged id (range_of_leftover (unchecked_ends id) (fun _ h => h) (by decide)
    (by decide) ⟨[], _, _, rfl, rfl, ?_, _, List.mem_cons_self, ?_⟩)
  · decide
  · exact .inr ⟨rfl, rfl, by decide⟩

end JiuwenCore.CheckedWindow
