import JiuwenCore.Config.AgentConfig
import JiuwenCore.Lib.InPlace
import JiuwenCore.Utils.ToolNames

/-!
# Rendering a prompt

`RenderPrompt` replaces the placeholders of a template in the text it scans. What it leaves
is the template's own segments, each filled once: a value is copied and never read again.
-/

namespace JiuwenCore

open Config (AgentConfig PromptResource StrMap)

/-! ## The loop -/

/-- `RenderPrompt` from a position on; `none` where the fuel does not suffice. -/
def renderFrom (vars : StrMap Str) : Nat → Str → Nat → Option Str
  | 0, _, _ => none
  | fuel + 1, result, pos =>
      match findFrom (lit "\x7b$") result pos with
      | none => some result
      | some pos =>
          match findFrom (lit "\x7d") result pos with
          | none => some result
          | some endPos =>
              let key := substr result (pos + 2) (endPos - pos - 2)
              let replacement := (vars.get? key).getD []
              renderFrom vars fuel (InPlace.replace result pos (endPos - pos + 1) replacement)
                (pos + replacement.length)

/-- `RenderPrompt`. One round more than the template has bytes is enough. -/
def renderPrompt (templateStr : Str) (vars : StrMap Str) : Option Str :=
  renderFrom vars (templateStr.length + 1) templateStr 0

/-! ## The segments of a template -/

/-- A piece of a template: a byte that is copied, or the key of a placeholder. -/
inductive Segment
  | byte (b : UInt8)
  | placeholder (key : Str)
  deriving DecidableEq, Repr

/-- The template in one pass. A key runs to the first closing brace behind it; where there
is none, the rest is copied. -/
@[grind =] def segments : Str → List Segment
  | [] => []
  | 123 :: 36 :: rest =>
      if 125 ∈ rest then
        .placeholder (rest.takeWhile (· ≠ 125)) :: segments (rest.dropWhile (· ≠ 125)).tail
      else (123 :: 36 :: rest).map .byte
  | b :: rest => .byte b :: segments rest
termination_by template => template.length
decreasing_by
  · have hle := (rest.dropWhile_sublist (· ≠ 125)).length_le
    simp only [List.length_tail, List.length_cons]
    omega
  · simp

/-- What a segment stands for in the template. -/
def Segment.source : Segment → Str
  | byte b => [b]
  | placeholder key => lit "\x7b$" ++ key ++ lit "\x7d"

/-- What a segment becomes. -/
def Segment.fill (vars : StrMap Str) : Segment → Str
  | byte b => [b]
  | placeholder key => (vars.get? key).getD []

theorem segments_open {rest : Str} (h : 125 ∈ rest) :
    segments (123 :: 36 :: rest) =
      .placeholder (rest.takeWhile (· ≠ 125)) :: segments (rest.dropWhile (· ≠ 125)).tail := by
  rw [segments, if_pos h]

theorem segments_unclosed {rest : Str} (h : 125 ∉ rest) :
    segments (123 :: 36 :: rest) = (123 :: 36 :: rest).map .byte := by
  rw [segments, if_neg h]

theorem segments_cons {b : UInt8} {rest : Str} (h : ¬ lit "\x7b$" <+: b :: rest) :
    segments (b :: rest) = .byte b :: segments rest := by
  rw [segments]
  rintro tail rfl rfl
  exact h ⟨tail, rfl⟩

/-- What the recursion knows of a byte that opens no placeholder. -/
theorem not_open {b : UInt8} {rest : Str} (h : ∀ tail, b = 123 → rest = 36 :: tail → False) :
    ¬ lit "\x7b$" <+: b :: rest := by
  rintro ⟨tail, htail⟩
  cases htail
  exact h tail rfl rfl

/-! ## One pass -/

/-- The first closed placeholder, with what replaces it. -/
@[grind =] def nextPlaceholder (vars : StrMap Str) (rest : Str) : Option (InPlace.Edit UInt8) :=
  match indexOf (lit "\x7b$") rest with
  | none => none
  | some offset =>
      match indexOf (lit "\x7d") (rest.drop offset) with
      | none => none
      | some size =>
          some { offset := offset
                 length := size + 1
                 text := (vars.get? (substr rest (offset + 2) (size - 2))).getD [] }

def placeholders (vars : StrMap Str) : InPlace.Finder UInt8 where
  next := nextPlaceholder vars
  within rest e h := by
    unfold nextPlaceholder at h
    cases hoffset : indexOf (lit "\x7b$") rest with
    | none => simp [hoffset] at h
    | some offset =>
        cases hsize : indexOf (lit "\x7d") (rest.drop offset) with
        | none => simp [hoffset, hsize] at h
        | some size =>
            have hle := indexOf_eq_some hsize
            have hbrace : (lit "\x7d").length = 1 := rfl
            simp only [hoffset, hsize, Option.some.injEq] at h
            subst h
            rw [List.length_drop] at hle
            simp only
            omega

theorem renderFrom_eq (vars : StrMap Str) (fuel : Nat) (result : Str) (pos : Nat) :
    renderFrom vars fuel result pos = InPlace.editFrom (placeholders vars) fuel result pos := by
  induction fuel generalizing result pos with
  | zero => rfl
  | succ fuel ih =>
      have hopen : lit "\x7b$" ≠ [] := by decide
      have hclose : lit "\x7d" ≠ [] := by decide
      simp only [renderFrom, InPlace.editFrom, placeholders, nextPlaceholder,
        findFrom_eq hopen, findFrom_eq hclose]
      cases indexOf (lit "\x7b$") (result.drop pos) with
      | none => rfl
      | some offset =>
          simp only [Option.map_some, List.drop_drop, Nat.add_comm offset pos]
          cases indexOf (lit "\x7d") (result.drop (pos + offset)) with
          | none => rfl
          | some size =>
              have hsize : size + (pos + offset) - (pos + offset) = size :=
                Nat.add_sub_cancel _ _
              simp only [Option.map_some, hsize, substr, List.drop_drop, Nat.add_assoc]
              exact ih _ _

theorem nextPlaceholder_cons {vars : StrMap Str} {b : UInt8} {rest : Str}
    (h : ¬ lit "\x7b$" <+: b :: rest) :
    nextPlaceholder vars (b :: rest) = (nextPlaceholder vars rest).map InPlace.Edit.behind := by
  have hfront : ¬ (lit "\x7b$").isPrefixOf (b :: rest) :=
    fun hprefix => h (List.isPrefixOf_iff_prefix.mp hprefix)
  rw [nextPlaceholder, nextPlaceholder, indexOf, if_neg hfront]
  cases indexOf (lit "\x7b$") rest with
  | none => rfl
  | some offset =>
      simp only [Option.map_some, List.drop_succ_cons]
      cases indexOf (lit "\x7d") (rest.drop offset) with
      | none => rfl
      | some size => rfl

/-- A text with a closing brace, cut at the first one. -/
theorem cut_brace {rest : Str} (h : 125 ∈ rest) :
    rest.takeWhile (· ≠ 125) ++ 125 :: (rest.dropWhile (· ≠ 125)).tail = rest := by
  have hcut := List.takeWhile_append_dropWhile (p := fun c : UInt8 => c ≠ 125) (l := rest)
  cases hdrop : rest.dropWhile (· ≠ 125) with
  | nil =>
      have hall := List.dropWhile_eq_nil_iff.mp hdrop 125 h
      simp at hall
  | cons b tail =>
      have hb : b = 125 := by
        have hhead := List.head?_dropWhile_not (· ≠ 125) rest
        rw [hdrop] at hhead
        simpa using hhead
      rw [hdrop, hb] at hcut
      exact hcut

theorem brace_not_mem (rest : Str) : 125 ∉ rest.takeWhile (· ≠ 125) := by
  intro hmem
  simpa using List.mem_takeWhile_imp hmem

theorem nextPlaceholder_open (vars : StrMap Str) {key : Str} (h : 125 ∉ key) (rest : Str) :
    nextPlaceholder vars (123 :: 36 :: (key ++ 125 :: rest)) =
      some { offset := 0, length := key.length + 3, text := (vars.get? key).getD [] } := by
  have hopen : indexOf (lit "\x7b$") (123 :: 36 :: (key ++ 125 :: rest)) = some 0 := by
    rw [indexOf, if_pos (by rfl)]
  have hmem : 125 ∉ 123 :: 36 :: key := by simpa using h
  have hclose : indexOf (lit "\x7d") (123 :: 36 :: (key ++ 125 :: rest)) =
      some (key.length + 2) := indexOf_byte_of hmem rest
  rw [nextPlaceholder, hopen]
  simp only [List.drop_zero, hclose]
  simp [substr]

/-- Without a closing brace nothing is replaced. -/
theorem nextPlaceholder_unclosed (vars : StrMap Str) {rest : Str} (h : 125 ∉ rest) :
    nextPlaceholder vars (123 :: 36 :: rest) = none := by
  have hopen : indexOf (lit "\x7b$") (123 :: 36 :: rest) = some 0 := by
    rw [indexOf, if_pos (by rfl)]
  have hclose : indexOf (lit "\x7d") (123 :: 36 :: rest) = none := by
    cases hfound : indexOf (lit "\x7d") (123 :: 36 :: rest) with
    | none => rfl
    | some k =>
        have hcut := (indexOf_byte (b := 125) hfound).1
        have hmem : 125 ∈ 123 :: 36 :: rest := by
          rw [hcut]
          simp
        simp [h] at hmem
  rw [nextPlaceholder, hopen]
  simp only [List.drop_zero, hclose]

theorem drop_placeholder (key rest : Str) :
    (123 :: 36 :: (key ++ 125 :: rest)).drop (key.length + 3) = rest := by
  have hlength : key.length + 3 = ((123 :: 36 :: key) ++ [125]).length := by simp
  have happend : 123 :: 36 :: (key ++ 125 :: rest) = ((123 :: 36 :: key) ++ [125]) ++ rest := by
    simp
  rw [hlength, happend, List.drop_left]

theorem pass_placeholders (vars : StrMap Str) (template : Str) :
    InPlace.pass (placeholders vars) template = (segments template).flatMap (Segment.fill vars) := by
  induction template using segments.induct with
  | case1 =>
      rw [InPlace.pass_none _ (by rfl)]
      simp [segments]
  | case2 rest hmem ih =>
      have hnext := nextPlaceholder_open vars (brace_not_mem rest) (rest.dropWhile (· ≠ 125)).tail
      rw [cut_brace hmem] at hnext
      have hbehind : (123 :: 36 :: rest).drop ((rest.takeWhile (· ≠ 125)).length + 3) =
          (rest.dropWhile (· ≠ 125)).tail := by
        have hdrop := drop_placeholder (rest.takeWhile (· ≠ 125)) (rest.dropWhile (· ≠ 125)).tail
        rwa [cut_brace hmem] at hdrop
      rw [InPlace.pass_some _ hnext, segments_open hmem, List.flatMap_cons, ← ih]
      simp only [Nat.zero_add, hbehind]
      rfl
  | case3 rest hmem =>
      rw [InPlace.pass_none _ (nextPlaceholder_unclosed vars hmem), segments_unclosed hmem,
        List.flatMap_map]
      exact (List.flatMap_singleton' _).symm
  | case4 b rest hopen ih =>
      have hfront := not_open hopen
      rw [InPlace.pass_cons _ (nextPlaceholder_cons hfront), segments_cons hfront, ih]
      rfl

/-- The segments, read one after the other, are the template. -/
theorem flatMap_source (template : Str) : (segments template).flatMap Segment.source = template := by
  induction template using segments.induct with
  | case1 => simp [segments]
  | case2 rest hmem ih =>
      rw [segments_open hmem, List.flatMap_cons, ih]
      conv_rhs => rw [← cut_brace hmem]
      simp [Segment.source, lit]
  | case3 rest hmem =>
      rw [segments_unclosed hmem, List.flatMap_map]
      exact List.flatMap_singleton' _
  | case4 b rest hopen ih =>
      have hfront := not_open hopen
      rw [segments_cons hfront, List.flatMap_cons, ih]
      rfl

theorem renderFrom_segments (vars : StrMap Str) {fuel : Nat} {template : Str}
    (h : template.length < fuel) :
    renderFrom vars fuel template 0 = some ((segments template).flatMap (Segment.fill vars)) := by
  rw [renderFrom_eq, InPlace.editFrom_zero _ h, pass_placeholders]

/-- The rendering ends, whatever the variables hold, and fills each segment of the template
once. The segments do not depend on the variables, so no value is read as a template. -/
theorem renderPrompt_fills_segments (templateStr : Str) (vars : StrMap Str) :
    renderPrompt templateStr vars = some ((segments templateStr).flatMap (Segment.fill vars)) ∧
      (∀ extra, renderFrom vars (templateStr.length + 1 + extra) templateStr 0 =
        renderPrompt templateStr vars) ∧
      (segments templateStr).flatMap Segment.source = templateStr := by
  have hrender : renderPrompt templateStr vars =
      some ((segments templateStr).flatMap (Segment.fill vars)) :=
    renderFrom_segments vars (Nat.lt_succ_self _)
  refine ⟨hrender, fun extra => ?_, flatMap_source templateStr⟩
  rw [hrender]
  exact renderFrom_segments vars (by omega)

/-! ## The system prompt -/

/-- What a prompt is built from besides the configuration. An engine that is not there has
the empty text. -/
structure PromptSources where
  readFile : Str → Option Str
  /-- `templates/REACT_SYSTEM.md` in the working directory. -/
  fallback : Option Str
  currentTime : Str
  skillCatalog : Str
  toolSchema : Str
  memoryContent : Str
  todoSnippet : Str

/-- `ResolvePromptResource`. A file that cannot be opened is empty. -/
def resolvePromptResource (sources : PromptSources) (resource : PromptResource) : Str :=
  match resource.type with
  | .filePath => (sources.readFile resource.value).getD []
  | .text => resource.value

/-- The template of a name. -/
def promptTemplate (config : AgentConfig) (sources : PromptSources) (templateName : Str) : Str :=
  match config.promptTemplates.get? templateName with
  | some resource => resolvePromptResource sources resource
  | none => sources.fallback.getD []

def memorySection (memoryContent : Str) : Str :=
  if memoryContent = [] then [] else lit "# Long-term Memory\n\n" ++ memoryContent

/-- The variables in the order in which `BuildPrompt` sets them: a template of the
configuration takes the place of the first four, and is replaced by the last three. -/
def promptVars (config : AgentConfig) (sources : PromptSources) (templateName query context : Str) :
    StrMap Str :=
  let vars := OrderedMap.empty
    |>.insert (lit "query") query
    |>.insert (lit "context") context
    |>.insert (lit "current_time") sources.currentTime
    |>.insert (lit "session_id") config.contextConfig.sessionId
  let vars := config.promptTemplates.entries.foldl (fun vars entry =>
    if entry.1 = templateName then vars
    else vars.insert entry.1 (resolvePromptResource sources entry.2)) vars
  vars.insert (lit "skills") sources.skillCatalog
    |>.insert (lit "tools") sources.toolSchema
    |>.insert (lit "memory") (memorySection sources.memoryContent)

def todoSection (todoSnippet : Str) : Str :=
  if todoSnippet = [] then [] else lit "\n\n" ++ todoSnippet

/-- `AgentWorker::BuildPrompt`. -/
def buildPrompt (config : AgentConfig) (sources : PromptSources) (templateName query context : Str) :
    Option Str :=
  let template := promptTemplate config sources templateName
  if template = [] then some query
  else
    (renderPrompt template (promptVars config sources templateName query context)).map
      (· ++ todoSection sources.todoSnippet)

/-- The query, the memory and the files stand in the prompt where the template wants them,
and the template alone says where that is. -/
theorem buildPrompt_eq (config : AgentConfig) (sources : PromptSources)
    (templateName query context : Str) :
    buildPrompt config sources templateName query context =
      if promptTemplate config sources templateName = [] then some query
      else some ((segments (promptTemplate config sources templateName)).flatMap
        (Segment.fill (promptVars config sources templateName query context)) ++
          todoSection sources.todoSnippet) := by
  rw [buildPrompt]
  split
  · rfl
  · rw [renderPrompt, renderFrom_segments _ (Nat.lt_succ_self _), Option.map_some]

end JiuwenCore
