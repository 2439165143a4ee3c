import JiuwenCore.Utils.ToolNames
import JiuwenCore.Models.AnthropicFormat
import JiuwenCore.Models.OpenAIFormat
import JiuwenCore.Models.RequestText

/-!
# Calls written as text and read back

Without native tool use `Format` writes the calls of an assistant message as lines of
JSON, and the ReAct loop reads calls from the text of a reply. What is written is read
back as it was, except for some names.
-/

namespace JiuwenCore

/-- What the library documents of `dump` and `parse`: compact texts, and printing what
was parsed loses nothing. -/
structure JsonLib.Compact (lib : JsonLib) (floatText : UInt64 → Str) : Prop
    extends lib.StrictUtf8 where
  dump_print : ∀ j text, lib.dump j = some text → text = j.print floatText
  float_unquoted : ∀ bits, ∀ b ∈ floatText bits, Unquoted b
  parse_print : ∀ text j, lib.parse text = some j → lib.parse (j.print floatText) = some j

namespace Models

/-- A call whose name survives: short, without braces, and standing where the parser
looks for it. -/
structure NameSurvives (lib : JsonLib) (floatText : UInt64 → Str) (tc : ToolCall) : Prop where
  utf8 : Utf8.Text tc.name
  short : tc.name.length < 50
  noBraces : 123 ∉ tc.name ∧ 125 ∉ tc.name
  found : ∀ args, lib.parse tc.argumentsJson = some args →
    Json.NameAt (args.print floatText) tc.name

/-- The text holds the calls, up to the spelling of their arguments. -/
def ReadsBack (lib : JsonLib) (calls : List ToolCall) (text : Str) : Prop :=
  (extractAllToolCalls text).map (fun p => (p.name, lib.parse p.arguments)) =
    calls.map fun tc => (tc.name, lib.parse tc.argumentsJson)

/-- Arguments that are an object. -/
def ObjectArguments (lib : JsonLib) (tc : ToolCall) : Prop :=
  ∃ members, lib.parse tc.argumentsJson = some (.obj members)

def printedCall (lib : JsonLib) (floatText : UInt64 → Str) (tc : ToolCall) : Str :=
  (Json.callObject ((lib.parse tc.argumentsJson).getD (.str tc.argumentsJson)) tc.name).print
    floatText

/-! ## One line -/

section

variable {lib : JsonLib} {floatText : UInt64 → Str} (hlib : lib.Compact floatText)

include hlib

theorem extractJson_printedCall (tc : ToolCall) (rest : Str) :
    extractJson (printedCall lib floatText tc ++ rest) = printedCall lib floatText tc :=
  Json.extractJson_print hlib.float_unquoted _ rest

/-- A line for every call. -/
theorem serializeCalls_print {calls : List ToolCall} {text : Str}
    (h : serializeCalls lib calls = some text) :
    text = calls.flatMap fun tc => printedCall lib floatText tc ++ lit "\n" := by
  induction calls generalizing text with
  | nil =>
      cases h
      rfl
  | cons tc rest ih =>
      simp only [serializeCalls, Option.bind_eq_bind, Option.bind_eq_some_iff] at h
      obtain ⟨call, hcall, lines, hlines, htext⟩ := h
      have hprint : call = printedCall lib floatText tc := hlib.dump_print _ _ hcall
      rw [← Option.some.inj htext, ih hlines, hprint]
      rfl

/-- The parser reads the lines one by one. -/
theorem serializeCalls_read {calls : List ToolCall} {text : Str}
    (h : serializeCalls lib calls = some text) :
    extractAllToolCalls text =
      calls.filterMap fun tc => parseToolCall (printedCall lib floatText tc) := by
  rw [serializeCalls_print hlib h]
  unfold extractAllToolCalls
  clear h
  induction calls with
  | nil => rfl
  | cons tc rest ih =>
      have hne : printedCall lib floatText tc ≠ [] := by
        rw [printedCall, Json.print_callObject]
        exact List.append_ne_nil_of_left_ne_nil (by decide) _
      rw [List.flatMap_cons, List.append_assoc,
        extractFrom_object (extractJson_printedCall hlib tc _) hne, extractFrom_newline, ih,
        List.filterMap_cons]
      cases parseToolCall (printedCall lib floatText tc) <;> rfl

theorem printedCall_reads {tc : ToolCall} (hname : tc.name ≠ [])
    (hobject : ObjectArguments lib tc) :
    (parseToolCall (printedCall lib floatText tc)).map
        (fun p => (p.name, lib.parse p.arguments)) = some (tc.name, lib.parse tc.argumentsJson) ↔
      tc.name.length < 50 ∧ (123 ∉ tc.name ∧ 125 ∉ tc.name) ∧
        ∀ args, lib.parse tc.argumentsJson = some args →
          Json.NameAt (args.print floatText) tc.name := by
  obtain ⟨members, hparse⟩ := hobject
  have hlast := Json.print_obj_last floatText members
  have hargs := hlib.parse_print _ _ hparse
  rw [printedCall, hparse, Option.getD_some, Json.parseToolCall_print hlib.float_unquoted]
  simp only [Option.some.injEq, forall_eq']
  constructor
  · intro h
    split at h
    · rename_i hvalid
      simp only [Option.map_some, Option.some.injEq, Prod.mk.injEq] at h
      rw [h.1] at hvalid
      exact ⟨hvalid.2.1, hvalid.2.2, (Json.readName_eq_iff hlast hname hvalid.2.2.2).mp h.1⟩
    · cases h
  · intro h
    have hread := (Json.readName_eq_iff hlast hname h.2.1.2).mpr h.2.2
    rw [hread, if_pos ⟨hname, h.1, h.2.1⟩, Option.map_some, hargs]

/-! ## All lines -/

omit hlib in
theorem filterMap_eq_map_iff {α β : Type} {f : α → Option β} {g : α → β} {l : List α} :
    l.filterMap f = l.map g ↔ ∀ x ∈ l, f x = some (g x) := by
  constructor
  · intro h
    induction l with
    | nil => simp
    | cons x l ih =>
        rw [List.filterMap_cons] at h
        cases hx : f x with
        | none =>
            rw [hx] at h
            have hle := List.length_filterMap_le f l
            have hlen := congrArg List.length h
            simp only [List.length_map, List.length_cons] at hlen
            omega
        | some y =>
            rw [hx] at h
            rw [List.map_cons, List.cons.injEq] at h
            exact List.forall_mem_cons.mpr ⟨by rw [hx, h.1], ih h.2⟩
  · intro h
    rw [List.filterMap_congr h, List.filterMap_eq_map']

/-- What is serialised is read back exactly when every name survives. -/
theorem serializeCalls_iff {calls : List ToolCall} (hnames : ∀ tc ∈ calls, tc.name ≠ [])
    (hobjects : ∀ tc ∈ calls, ObjectArguments lib tc) :
    (∃ text, serializeCalls lib calls = some text ∧ ReadsBack lib calls text) ↔
      ∀ tc ∈ calls, NameSurvives lib floatText tc := by
  have hreads : ∀ text, serializeCalls lib calls = some text →
      (ReadsBack lib calls text ↔ ∀ tc ∈ calls, tc.name.length < 50 ∧
        (123 ∉ tc.name ∧ 125 ∉ tc.name) ∧ ∀ args, lib.parse tc.argumentsJson = some args →
          Json.NameAt (args.print floatText) tc.name) := by
    intro text h
    rw [ReadsBack, serializeCalls_read hlib h, List.map_filterMap, filterMap_eq_map_iff]
    exact forall₂_congr fun tc htc => printedCall_reads hlib (hnames tc htc) (hobjects tc htc)
  have hsome : (serializeCalls lib calls).isSome ↔ ∀ tc ∈ calls, Utf8.Text tc.name := by
    rw [serializeCalls_isSome hlib.toStrictUtf8]
    refine forall₂_congr fun tc htc => ?_
    obtain ⟨members, hparse⟩ := hobjects tc htc
    simp [WritableCall, hparse]
  constructor
  · rintro ⟨text, htext, hback⟩ tc htc
    obtain ⟨hshort, hbraces, hfound⟩ := (hreads text htext).mp hback tc htc
    exact ⟨hsome.mp (by rw [htext]; rfl) tc htc, hshort, hbraces, hfound⟩
  · intro h
    obtain ⟨text, htext⟩ := Option.isSome_iff_exists.mp (hsome.mpr fun tc htc => (h tc htc).utf8)
    refine ⟨text, htext, (hreads text htext).mpr fun tc htc => ?_⟩
    exact ⟨(h tc htc).short, (h tc htc).noBraces, (h tc htc).found⟩

/-! ## Both models -/

omit hlib in
theorem openai_fallbackEntry (entries : List OpenAI.Entry) {m : Message} (hrole : m.isAssistant)
    (hcontent : m.content = []) (hcalls : m.toolCalls ≠ []) (text : Str) :
    OpenAI.formatMessage lib false entries m =
        some (entries ++ [{ role := Role.assistant, content := text }]) ↔
      serializeCalls lib m.toolCalls = some text := by
  have hempty : fixStringUTF8 [] = [] := rfl
  rw [OpenAI.formatMessage, if_pos hrole, OpenAI.assistantEntry, if_neg (by simp), if_pos hcalls,
    hcontent, hempty]
  simp [Option.map_eq_some_iff]

omit hlib in
theorem anthropic_fallbackEntry (st : Anthropic.FormatState) {m : Message}
    (hrole : m.isAssistant) (hcontent : m.content = []) (hcalls : m.toolCalls ≠ []) (text : Str) :
    Anthropic.formatMessage lib false st m = some
        { st with
          entries := st.entries ++
            [{ role := Role.assistant, content := Anthropic.textBlock text }]
          awaitingToolBlock := false } ↔
      serializeCalls lib m.toolCalls = some text := by
  have hempty : fixStringUTF8 [] = [] := rfl
  rw [Anthropic.formatMessage, if_pos hrole, Anthropic.assistantContent, if_neg (by simp),
    if_pos hcalls, hcontent, hempty]
  simp [Option.map_eq_some_iff, Anthropic.textBlock]

/-- When the calls of an assistant message without content survive their way through
the text of either model. -/
theorem fallback_reads_back_iff {m : Message} (hrole : m.isAssistant) (hcontent : m.content = [])
    (hcalls : m.toolCalls ≠ []) (hnames : ∀ tc ∈ m.toolCalls, tc.name ≠ [])
    (hobjects : ∀ tc ∈ m.toolCalls, ObjectArguments lib tc) (entries : List OpenAI.Entry)
    (st : Anthropic.FormatState) :
    ((∃ text, OpenAI.formatMessage lib false entries m =
          some (entries ++ [{ role := Role.assistant, content := text }]) ∧
          ReadsBack lib m.toolCalls text) ↔
        ∀ tc ∈ m.toolCalls, NameSurvives lib floatText tc) ∧
      ((∃ text, Anthropic.formatMessage lib false st m = some
          { st with
            entries := st.entries ++
              [{ role := Role.assistant, content := Anthropic.textBlock text }]
            awaitingToolBlock := false } ∧
          ReadsBack lib m.toolCalls text) ↔
        ∀ tc ∈ m.toolCalls, NameSurvives lib floatText tc) := by
  simp only [openai_fallbackEntry entries hrole hcontent hcalls,
    anthropic_fallbackEntry st hrole hcontent hcalls]
  exact ⟨serializeCalls_iff hlib hnames hobjects, serializeCalls_iff hlib hnames hobjects⟩

omit hlib in
theorem oneTextLib_compact {text : Str} {j : Json} (h : j.Utf8Only)
    (hprint : j.print (fun _ => lit "0.0") = text) :
    (oneTextLib text j).Compact fun _ => lit "0.0" where
  toStrictUtf8 := oneTextLib_strict h
  dump_print := by
    intro j' t hdump
    simp only [oneTextLib, compactLib] at hdump
    split at hdump
    · exact (Option.some.inj hdump).symm
    · cases hdump
  float_unquoted := fun _ => by decide
  parse_print := by
    intro t j' hparse
    simp only [oneTextLib, compactLib] at hparse ⊢
    split at hparse
    · cases hparse
      exact if_pos hprint
    · cases hparse

/-- A call with an argument `name`, and a library that parses it. -/
def writeCall : ToolCall := ⟨lit "1", lit "write", lit "\x7b\"name\":\"x\"\x7d"⟩

def writeLib : JsonLib :=
  oneTextLib writeCall.argumentsJson (.obj [(lit "name", .str (lit "x"))])

omit hlib in
theorem fallback_reads_back_weather :
    ∃ text, OpenAI.formatMessage (oneTextLib (lit "\x7b\x7d") (.obj [])) false []
        { role := Role.assistant, toolCalls := [⟨lit "1", lit "weather", lit "\x7b\x7d"⟩] } =
          some [{ role := Role.assistant, content := text }] ∧
      ReadsBack (oneTextLib (lit "\x7b\x7d") (.obj []))
        [⟨lit "1", lit "weather", lit "\x7b\x7d"⟩] text := by
  have hobject : ObjectArguments (oneTextLib (lit "\x7b\x7d") (.obj []))
      ⟨lit "1", lit "weather", lit "\x7b\x7d"⟩ := ⟨[], rfl⟩
  have hsurvives : NameSurvives (oneTextLib (lit "\x7b\x7d") (.obj [])) (fun _ => lit "0.0")
      ⟨lit "1", lit "weather", lit "\x7b\x7d"⟩ := by
    refine ⟨by decide, by decide, by decide, ?_⟩
    intro args hargs
    obtain rfl : .obj [] = args := Option.some.inj hargs
    have hplain : ∀ b ∈ lit "weather", Json.Literal b := by decide
    exact hplain
  exact (fallback_reads_back_iff (oneTextLib_compact (by decide) (by decide)) rfl rfl (by simp)
    (List.forall_mem_singleton.mpr (by decide)) (List.forall_mem_singleton.mpr hobject) []
    {}).1.mpr (List.forall_mem_singleton.mpr hsurvives)

omit hlib in
/-- An argument called `name` is taken for the name of the tool. -/
theorem fallback_reads_argument :
    ¬ ∀ (lib : JsonLib) (floatText : UInt64 → Str), lib.Compact floatText → ∀ m : Message,
      m.isAssistant → m.content = [] → m.toolCalls ≠ [] → (∀ tc ∈ m.toolCalls, tc.name ≠ []) →
      (∀ tc ∈ m.toolCalls, ObjectArguments lib tc) →
      ∃ text, OpenAI.formatMessage lib false [] m =
          some [{ role := Role.assistant, content := text }] ∧
        ReadsBack lib m.toolCalls text := by
  intro h
  have hobject : ObjectArguments writeLib writeCall := ⟨_, oneTextLib_parse _ _⟩
  obtain ⟨text, htext, hback⟩ := h writeLib (fun _ => lit "0.0")
    (oneTextLib_compact (by decide) (by decide))
    { role := Role.assistant, toolCalls := [writeCall] } rfl rfl (by simp)
    (List.forall_mem_singleton.mpr (by decide)) (List.forall_mem_singleton.mpr hobject)
  have hcalls := (openai_fallbackEntry [] rfl rfl (by simp) text).mp htext
  have hwritten : serializeCalls writeLib [writeCall] =
      some (lit "\x7b\"arguments\":\x7b\"name\":\"x\"\x7d,\"name\":\"write\"\x7d\n") := by
    decide +kernel
  obtain rfl := Option.some.inj (hwritten.symm.trans hcalls)
  have hnames := congrArg (List.map Prod.fst) hback
  rw [List.map_map, List.map_map] at hnames
  exact absurd hnames (by decide +kernel)

end

end Models

end JiuwenCore
