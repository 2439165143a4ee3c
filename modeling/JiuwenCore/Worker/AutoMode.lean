import JiuwenCore.Context.CheckedWindow
import JiuwenCore.JsonReader
import JiuwenCore.Models.Request
import JiuwenCore.Worker.Disclosure

/-!
# The automatic mode

A worker in the mode AUTO settles on one of the others when it is first asked for it: by the tokens
that the schemas of its tools and the catalog of them would take. The sessions of an agent share
the worker and ask at any moment, while its tools come and go.
-/

namespace JiuwenCore.AutoMode

open CheckedWindow (estimate toInt)
open ContextEngine (countChars estimateTokens)
open Disclosure (Discloses)
open Models (ToolSchema)
open Reload (ToolDisclosureMode)

/-! ## The budgets -/

structure Budgets where
  toolSchemaTokenBudget : Int := 0
  toolCatalogTokenBudget : Int := 0

def resolveModeByTokenBudget (tier2 tier1 schemaBudget catalogBudget : Int) : ToolDisclosureMode :=
  if 0 < schemaBudget ∧ schemaBudget < tier2 then
    if 0 < catalogBudget ∧ catalogBudget < tier1 then .selective else .progressive
  else .disabled

/-- What the registered tools give for a name: a schema, or nothing if there is no such tool or it
cannot be made. -/
abbrev Tools := Str → Option ToolSchema

def buildToolSchemas (tools : Tools) (names : List Str) : List ToolSchema := names.filterMap tools

def catalogHeader : Str :=
  lit "Available Tools (name + description; use tool_search load to enable a tool):\n"

/-- A line of the catalog; a tool without a description has none. -/
def catalogLine (tools : Tools) (name : Str) : Str :=
  match tools name with
  | none => []
  | some s =>
      if s.description = [] then []
      else lit "- " ++ name ++ lit ": " ++ s.description ++ lit "\n"

/-- `GetToolCatalog` for native function calls; the names are in order in a `std::set`. -/
def getToolCatalog (tools : Tools) (visibleNames : List Str) : Str :=
  catalogHeader ++ (visibleNames.dedup.insertionSort (· ≤ ·)).flatMap (catalogLine tools)

variable (lib : JsonLib)

/-- `none` where the parameters cannot be dumped. -/
def schemaText : List ToolSchema → Option Str
  | [] => some []
  | s :: rest =>
      (lib.dump s.parameters).bind fun parameters =>
        (schemaText rest).map fun text => s.name ++ s.description ++ parameters ++ text

/-- `ResolveByBudget`, `none` where it throws. -/
def resolveByBudget (tools : Tools) (alwaysOn : Finset Str) (budgets : Budgets)
    (pool : List Str) : Option ToolDisclosureMode :=
  let nonAlwaysOn := pool.filter (· ∉ alwaysOn)
  (schemaText lib (buildToolSchemas tools nonAlwaysOn)).map fun text =>
    resolveModeByTokenBudget (estimate text) (estimate (getToolCatalog tools pool))
      budgets.toolSchemaTokenBudget budgets.toolCatalogTokenBudget

/-! ## Counting characters -/

/-- The ASCII characters and the others of a text. -/
def chars (text : Str) : Nat × Nat := countChars 0 0 0 text

theorem countChars_add (skip ascii wide : Nat) (text : Str) :
    countChars skip ascii wide text =
      (ascii + (countChars skip 0 0 text).1, wide + (countChars skip 0 0 text).2) := by
  induction text generalizing skip ascii wide with
  | nil => cases skip <;> simp [countChars]
  | cons c text ih =>
      cases skip with
      | succ skip =>
          rw [countChars, countChars]
          exact ih skip ascii wide
      | zero =>
          rw [countChars, countChars]
          split
          · rw [ih 0 (ascii + 1), ih 0 (0 + 1)]
            simp [Nat.add_assoc]
          · have hwide : ∀ skip, countChars skip ascii (wide + 1) text =
                (ascii + (countChars skip 0 (0 + 1) text).1,
                  wide + (countChars skip 0 (0 + 1) text).2) := by
              intro skip
              rw [ih skip ascii, ih skip 0 (0 + 1)]
              simp [Nat.add_assoc]
            split
            · exact hwide 1
            · split
              · exact hwide 2
              · split
                · exact hwide 3
                · exact hwide 0

/-- The lead byte of a character says how many bytes to pass over. -/
def LeadBits (a : UInt8) : Prop :=
  (0xC2 ≤ a → a ≤ 0xDF → ¬ a < 0x80 ∧ a >>> 5 = 0x6) ∧
    (0xE0 ≤ a → a ≤ 0xEF → ¬ a < 0x80 ∧ a >>> 5 ≠ 0x6 ∧ a >>> 4 = 0xE) ∧
    (0xF0 ≤ a → a ≤ 0xF4 → ¬ a < 0x80 ∧ a >>> 5 ≠ 0x6 ∧ a >>> 4 ≠ 0xE ∧ a >>> 3 = 0x1E)

instance (a : UInt8) : Decidable (LeadBits a) := inferInstanceAs (Decidable (_ ∧ _ ∧ _))

theorem lead_bits (a : UInt8) : LeadBits a :=
  byte_below (motive := LeadBits) (n := 256) (by decide +kernel) a.toNat_lt

/-- A text in UTF-8 leaves nothing to be passed over in the text behind it. -/
theorem chars_append {s : Str} (h : Utf8.Text s) (rest : Str) :
    chars (s ++ rest) = ((chars s).1 + (chars rest).1, (chars s).2 + (chars rest).2) := by
  have hchar : ∀ {c : Str}, Utf8.Char c → ∀ tail : Str,
      ∃ ascii wide, countChars 0 0 0 (c ++ tail) = countChars 0 ascii wide tail ∧
        countChars 0 0 0 c = (ascii, wide) := by
    intro c hc tail
    cases hc with
    | one ha =>
        have hascii := UInt8.lt_of_le_of_lt ha (show (0x7F : UInt8) < 0x80 by decide)
        exact ⟨1, 0, by simp [countChars, hascii], by simp [countChars, hascii]⟩
    | two h₁ h₂ _ =>
        obtain ⟨hwide, hfive⟩ := (lead_bits _).1 h₁ h₂
        exact ⟨0, 1, by simp [countChars, hwide, hfive], by simp [countChars, hwide, hfive]⟩
    | three h₁ h₂ _ _ _ _ =>
        obtain ⟨hwide, hfive, hfour⟩ := (lead_bits _).2.1 h₁ h₂
        exact ⟨0, 1, by simp [countChars, hwide, hfive, hfour],
          by simp [countChars, hwide, hfive, hfour]⟩
    | four h₁ h₂ _ _ _ _ _ =>
        obtain ⟨hwide, hfive, hfour, hthree⟩ := (lead_bits _).2.2 h₁ h₂
        exact ⟨0, 1, by simp [countChars, hwide, hfive, hfour, hthree],
          by simp [countChars, hwide, hfive, hfour, hthree]⟩
  induction h with
  | nil => simp [chars, countChars]
  | @cons c s hc _ ih =>
      obtain ⟨ascii, wide, hmore, halone⟩ := hchar hc (s ++ rest)
      obtain ⟨ascii', wide', hmore', halone'⟩ := hchar hc s
      rw [halone] at halone'
      cases halone'
      unfold chars at ih ⊢
      rw [List.append_assoc, hmore, hmore', countChars_add, countChars_add 0 ascii wide s, ih]
      simp [Nat.add_assoc]

/-- One text has no more characters of either kind than another one. -/
def Fewer (s t : Str) : Prop := (chars s).1 ≤ (chars t).1 ∧ (chars s).2 ≤ (chars t).2

theorem Fewer.estimateTokens {s t : Str} (h : Fewer s t) : estimateTokens s ≤ estimateTokens t := by
  have hascii := Nat.div_le_div_right (c := 4) h.1
  have hwide := Nat.div_le_div_right (c := 4) (Nat.mul_le_mul_right 3 h.2)
  rw [ContextEngine.estimateTokens, ContextEngine.estimateTokens]
  exact Nat.add_le_add hascii hwide

/-- The characters of texts in UTF-8 that are written one behind the other. -/
theorem chars_flatten {texts : List Str} (h : ∀ s ∈ texts, Utf8.Text s) (rest : Str) :
    chars (texts.flatten ++ rest) =
      ((texts.map fun s => (chars s).1).sum + (chars rest).1,
        (texts.map fun s => (chars s).2).sum + (chars rest).2) := by
  induction texts with
  | nil => simp
  | cons s texts ih =>
      rw [List.forall_mem_cons] at h
      rw [List.flatten_cons, List.append_assoc, chars_append h.1, ih h.2]
      simp [Nat.add_assoc]

theorem sum_subperm {l l' : List Str} (h : l.Subperm l') (f : Str → Nat) :
    (l.map f).sum ≤ (l'.map f).sum := by
  obtain ⟨m, hperm, hsub⟩ := h
  rw [← (hperm.map f).sum_eq]
  exact List.Sublist.sum_le_sum (hsub.map f) fun _ _ => Nat.zero_le _

/-- With more texts there are more characters. -/
theorem fewer_flatten {texts texts' : List Str} (h : texts.Subperm texts')
    (hutf8 : ∀ s ∈ texts', Utf8.Text s) (front : Str) (hfront : Utf8.Text front) :
    Fewer (front ++ texts.flatten) (front ++ texts'.flatten) := by
  have hfirst := chars_flatten (fun s hs => hutf8 s (h.subset hs)) []
  have hsecond := chars_flatten hutf8 []
  rw [List.append_nil] at hfirst hsecond
  have hascii := sum_subperm h fun s => (chars s).1
  have hwide := sum_subperm h fun s => (chars s).2
  rw [Fewer, chars_append hfront, chars_append hfront, hfirst, hsecond]
  exact ⟨by omega, by omega⟩

/-! ## More tools -/

section More

variable {lib : JsonLib} {tools : Tools} {alwaysOn : Finset Str} {budgets : Budgets}

/-- What the text of the schemas has of a tool. -/
def schemaPiece (lib : JsonLib) (s : ToolSchema) : Option Str :=
  (lib.dump s.parameters).map fun parameters => s.name ++ s.description ++ parameters

theorem schemaText_cons (s : ToolSchema) (rest : List ToolSchema) :
    schemaText lib (s :: rest) =
      (schemaPiece lib s).bind fun piece =>
        (schemaText lib rest).map fun text => piece ++ text := by
  rw [schemaText, schemaPiece]
  cases lib.dump s.parameters <;> rfl

/-- There is a text if there is one of every tool. -/
theorem schemaText_eq_some {schemas : List ToolSchema} {text : Str} :
    schemaText lib schemas = some text ↔
      (∀ s ∈ schemas, (schemaPiece lib s).isSome) ∧
        text = (schemas.filterMap (schemaPiece lib)).flatten := by
  induction schemas generalizing text with
  | nil =>
      rw [schemaText, Option.some.injEq, eq_comm]
      simp
  | cons s rest ih =>
      rw [schemaText_cons, List.forall_mem_cons]
      cases hpiece : schemaPiece lib s with
      | none => simp
      | some piece =>
          rw [Option.bind_some, Option.map_eq_some_iff, List.filterMap_cons_some hpiece]
          constructor
          · rintro ⟨more, hmore, rfl⟩
            obtain ⟨hall, rfl⟩ := ih.mp hmore
            exact ⟨⟨rfl, hall⟩, by rw [List.flatten_cons]⟩
          · rintro ⟨⟨_, hall⟩, rfl⟩
            exact ⟨_, ih.mpr ⟨hall, rfl⟩, by rw [List.flatten_cons]⟩

theorem filterMap_subperm {α β : Type} (f : α → Option β) {l l' : List α} (h : l.Subperm l') :
    (l.filterMap f).Subperm (l'.filterMap f) := by
  obtain ⟨m, hperm, hsub⟩ := h
  exact ⟨m.filterMap f, hperm.filterMap f, hsub.filterMap f⟩

theorem map_subperm {α β : Type} (f : α → β) {l l' : List α} (h : l.Subperm l') :
    (l.map f).Subperm (l'.map f) := by
  obtain ⟨m, hperm, hsub⟩ := h
  exact ⟨m.map f, hperm.map f, hsub.map f⟩

/-- The names of the tools and what they say of themselves are in UTF-8. -/
def Readable (tools : Tools) (pool : List Str) : Prop :=
  ∀ name ∈ pool, Utf8.Text name ∧
    ∀ s, tools name = some s → Utf8.Text s.name ∧ Utf8.Text s.description

theorem schemaText_fewer (hlib : lib.StrictUtf8) {schemas schemas' : List ToolSchema}
    (hsub : schemas.Subperm schemas')
    (hread : ∀ s ∈ schemas', Utf8.Text s.name ∧ Utf8.Text s.description) {text' : Str}
    (h : schemaText lib schemas' = some text') :
    ∃ text, schemaText lib schemas = some text ∧ Fewer text text' := by
  obtain ⟨hall, rfl⟩ := schemaText_eq_some.mp h
  refine ⟨_, schemaText_eq_some.mpr ⟨fun s hs => hall s (hsub.subset hs), rfl⟩, ?_⟩
  have hutf8 : ∀ piece ∈ schemas'.filterMap (schemaPiece lib), Utf8.Text piece := by
    intro piece hpiece
    obtain ⟨s, hs, heq⟩ := List.mem_filterMap.mp hpiece
    obtain ⟨parameters, hdump, rfl⟩ := Option.map_eq_some_iff.mp heq
    have hparameters := hlib.dump_text _ _ hdump
    exact ((hread s hs).1.append (hread s hs).2).append hparameters
  exact fewer_flatten (filterMap_subperm _ hsub) hutf8 [] .nil

theorem getToolCatalog_eq (pool : List Str) :
    getToolCatalog tools pool =
      catalogHeader ++ ((pool.dedup.insertionSort (· ≤ ·)).map (catalogLine tools)).flatten := by
  rw [getToolCatalog, List.flatMap_def]

theorem getToolCatalog_fewer {pool pool' : List Str} (hsub : pool ⊆ pool')
    (hread : Readable tools pool') :
    Fewer (getToolCatalog tools pool) (getToolCatalog tools pool') := by
  rw [getToolCatalog_eq, getToolCatalog_eq]
  have hnames : (pool.dedup.insertionSort (· ≤ ·)).Subperm
      (pool'.dedup.insertionSort (· ≤ ·)) := by
    have hdedup : pool.dedup.Subperm pool'.dedup :=
      List.subperm_of_subset pool.nodup_dedup fun name hname =>
        List.mem_dedup.mpr (hsub (List.mem_dedup.mp hname))
    exact (List.perm_insertionSort _ _).subperm.trans
      (hdedup.trans (List.perm_insertionSort _ _).symm.subperm)
  refine fewer_flatten (map_subperm _ hnames) ?_ catalogHeader (Utf8.Ascii.text (by decide))
  intro line hline
  obtain ⟨name, hname, rfl⟩ := List.mem_map.mp hline
  obtain ⟨hutf8, hschema⟩ := hread name
    (List.mem_dedup.mp ((List.perm_insertionSort _ _).mem_iff.mp hname))
  unfold catalogLine
  split
  · exact .nil
  · rename_i s hs
    split
    · exact .nil
    · have hfront := (Utf8.Ascii.text (a := lit "- ") (by decide)).append hutf8
      have hcolon := hfront.append (Utf8.Ascii.text (a := lit ": ") (by decide))
      exact (hcolon.append (hschema s hs).2).append (Utf8.Ascii.text (by decide))

/-- From the mode that hides nothing to the one that hides most. -/
def tier : ToolDisclosureMode → Nat
  | .disabled => 0
  | .progressive => 1
  | .selective => 2
  | .auto => 3

theorem resolveModeByTokenBudget_mono {tier2 tier1 tier2' tier1' : Int} (h2 : tier2 ≤ tier2')
    (h1 : tier1 ≤ tier1') (schemaBudget catalogBudget : Int) :
    tier (resolveModeByTokenBudget tier2 tier1 schemaBudget catalogBudget) ≤
      tier (resolveModeByTokenBudget tier2' tier1' schemaBudget catalogBudget) := by
  unfold resolveModeByTokenBudget
  by_cases hover : 0 < schemaBudget ∧ schemaBudget < tier2
  · have hover' : 0 < schemaBudget ∧ schemaBudget < tier2' := ⟨hover.1, by omega⟩
    rw [if_pos hover, if_pos hover']
    by_cases hboth : 0 < catalogBudget ∧ catalogBudget < tier1
    · have hboth' : 0 < catalogBudget ∧ catalogBudget < tier1' := ⟨hboth.1, by omega⟩
      rw [if_pos hboth, if_pos hboth']
    · rw [if_neg hboth]
      split <;> decide
  · rw [if_neg hover]
    exact Nat.zero_le _

theorem estimate_mono {s t : Str} (h : Fewer s t) (hfits : estimateTokens t < 2 ^ 31) :
    estimate s ≤ estimate t := by
  have hle := h.estimateTokens
  rw [estimate, estimate, toInt, toInt]
  have hsmall : estimateTokens s % 2 ^ 32 = estimateTokens s := Nat.mod_eq_of_lt (by omega)
  have hlarge : estimateTokens t % 2 ^ 32 = estimateTokens t := Nat.mod_eq_of_lt (by omega)
  rw [if_pos (by omega), if_pos (by omega)]
  omega

/-- What a worker makes of a pool, it makes of a larger one, or it hides more of that. -/
theorem resolveByBudget_mono (hlib : lib.StrictUtf8) {pool pool' : List Str}
    (hsub : pool.Subperm pool') (hread : Readable tools pool')
    (hcatalog : estimateTokens (getToolCatalog tools pool') < 2 ^ 31)
    (htext : ∀ text ∈ schemaText lib (buildToolSchemas tools (pool'.filter (· ∉ alwaysOn))),
      estimateTokens text < 2 ^ 31)
    {mode' : ToolDisclosureMode}
    (h : resolveByBudget lib tools alwaysOn budgets pool' = some mode') :
    ∃ mode, resolveByBudget lib tools alwaysOn budgets pool = some mode ∧
      tier mode ≤ tier mode' := by
  obtain ⟨text', htext', rfl⟩ := Option.map_eq_some_iff.mp h
  have hnames : (pool.filter (· ∉ alwaysOn)).Subperm (pool'.filter (· ∉ alwaysOn)) :=
    hsub.filter _
  have hutf8 : ∀ s ∈ buildToolSchemas tools (pool'.filter (· ∉ alwaysOn)),
      Utf8.Text s.name ∧ Utf8.Text s.description := by
    intro s hs
    obtain ⟨name, hname, hschema⟩ := List.mem_filterMap.mp hs
    exact (hread name (List.mem_of_mem_filter hname)).2 s hschema
  obtain ⟨text, hsome, hfewer⟩ :=
    schemaText_fewer hlib (filterMap_subperm tools hnames) hutf8 htext'
  refine ⟨_, Option.map_eq_some_iff.mpr ⟨text, hsome, rfl⟩, ?_⟩
  have htier2 := estimate_mono hfewer (htext _ htext')
  have htier1 := estimate_mono (getToolCatalog_fewer hsub.subset hread) hcatalog
  exact resolveModeByTokenBudget_mono htier2 htier1 _ _

/-- Two tools, of which one says much of itself. -/
def demoTools : Tools := fun name =>
  if name = lit "ls" then some ⟨name, lit "Lists", .obj []⟩
  else if name = lit "grep" then some ⟨name, lit "Searches the files of a tree", .obj []⟩
  else none

theorem resolveByBudget_mono_demo :
    ∃ mode, resolveByBudget readerLib demoTools ∅ ⟨5, 40⟩ [lit "ls"] = some mode ∧
      tier mode ≤ tier .progressive :=
  resolveByBudget_mono readerLib_faithful.toStrictUtf8
    (List.sublist_cons_self (lit "grep") [lit "ls"]).subperm
    (by
      intro name hname
      have hknown : Utf8.Ascii name ∧ ∀ s, demoTools name = some s →
          Utf8.Ascii s.name ∧ Utf8.Ascii s.description := by
        rcases List.mem_pair.mp hname with rfl | rfl
        · exact ⟨by decide, by rintro _ ⟨⟩; decide⟩
        · exact ⟨by decide, by rintro _ ⟨⟩; decide⟩
      exact ⟨hknown.1.text, fun s hs => ⟨(hknown.2 s hs).1.text, (hknown.2 s hs).2.text⟩⟩)
    (by decide +kernel) (by decide +kernel) (by decide +kernel)

end More

/-! ## One resolution

`IsProgressiveDisclosureActive` looks at the mode, goes through a `call_once` if it is AUTO, and
answers by the mode that it finds behind it.
-/

/-- Where a caller stands. -/
inductive Phase where
  | idle
  /-- It has seen AUTO. -/
  | atOnce
  | resolving
  /-- It has taken the names of the tools. -/
  | budgeting (pool : List Str)
  | past
  deriving DecidableEq, Repr

inductive OnceFlag where
  | fresh
  | running (caller : Nat)
  | done
  deriving DecidableEq, Repr

/-- A worker and its callers, with what has happened. -/
structure Worker where
  effectiveMode : ToolDisclosureMode
  resolveOnce : OnceFlag := .fresh
  toolNames : List Str
  callers : Nat → Phase := fun _ => .idle
  /-- The names of the tools it has had. -/
  pools : List (List Str) := [toolNames]
  /-- What the mode was resolved from. -/
  resolutions : List (Tools × List Str) := []
  /-- The modes by which the callers were answered. -/
  answers : List ToolDisclosureMode := []

inductive Event where
  /-- `AddTools`, `RemoveTools` or `SyncMcpTools`. -/
  | change (toolNames : List Str)
  | call (caller : Nat)
  | enter (caller : Nat)
  | readPool (caller : Nat)
  /-- The budget is held against the tools as they are registered. -/
  | resolve (caller : Nat) (tools : Tools)
  | answer (caller : Nat)

def Worker.moves (w : Worker) (caller : Nat) (phase : Phase) : Worker :=
  { w with callers := Function.update w.callers caller phase }

section Once

variable (lib : JsonLib) (alwaysOn : Finset Str) (budgets : Budgets)

def step (w : Worker) : Event → Option Worker
  | .change toolNames =>
      some { w with toolNames := toolNames, pools := w.pools ++ [toolNames] }
  | .call caller =>
      if w.callers caller = .idle then
        some (w.moves caller (if w.effectiveMode = .auto then .atOnce else .past))
      else none
  | .enter caller =>
      if w.callers caller = .atOnce then
        match w.resolveOnce with
        | .fresh => some { w.moves caller .resolving with resolveOnce := .running caller }
        -- it waits
        | .running _ => none
        | .done => some (w.moves caller .past)
      else none
  | .readPool caller =>
      if w.callers caller = .resolving then some (w.moves caller (.budgeting w.toolNames))
      else none
  | .resolve caller tools =>
      match w.callers caller with
      | .budgeting pool =>
          match resolveByBudget lib tools alwaysOn budgets pool with
          -- the exception goes to the caller, and the next one may try
          | none => some { w.moves caller .idle with resolveOnce := .fresh }
          | some mode => some { w.moves caller .past with
              effectiveMode := mode
              resolveOnce := .done
              resolutions := w.resolutions ++ [(tools, pool)] }
      | _ => none
  | .answer caller =>
      if w.callers caller = .past then
        some { w.moves caller .idle with answers := w.answers ++ [w.effectiveMode] }
      else none

end Once

section Resolved

variable {lib : JsonLib} {alwaysOn : Finset Str} {budgets : Budgets}

@[simp] theorem moves_self (w : Worker) (caller : Nat) (phase : Phase) :
    (w.moves caller phase).callers caller = phase := by
  simp [Worker.moves]

theorem moves_of_ne (w : Worker) {caller other : Nat} (h : other ≠ caller) (phase : Phase) :
    (w.moves caller phase).callers other = w.callers other := by
  simp [Worker.moves, h]

theorem step_call {w w' : Worker} {caller : Nat}
    (h : step lib alwaysOn budgets w (.call caller) = some w') :
    w.callers caller = .idle ∧
      ((w.effectiveMode = .auto ∧ w' = w.moves caller .atOnce) ∨
        (w.effectiveMode ≠ .auto ∧ w' = w.moves caller .past)) := by
  obtain ⟨hidle, heq⟩ := Option.ite_none_right_eq_some.mp h
  refine ⟨hidle, ?_⟩
  split at heq
  · rename_i hauto
    exact Or.inl ⟨hauto, (Option.some.inj heq).symm⟩
  · rename_i hauto
    exact Or.inr ⟨hauto, (Option.some.inj heq).symm⟩

theorem step_enter {w w' : Worker} {caller : Nat}
    (h : step lib alwaysOn budgets w (.enter caller) = some w') :
    w.callers caller = .atOnce ∧
      ((w.resolveOnce = .fresh ∧
          w' = { w.moves caller .resolving with resolveOnce := .running caller }) ∨
        (w.resolveOnce = .done ∧ w' = w.moves caller .past)) := by
  obtain ⟨hat, heq⟩ := Option.ite_none_right_eq_some.mp h
  refine ⟨hat, ?_⟩
  split at heq
  · rename_i honce
    exact Or.inl ⟨honce, (Option.some.inj heq).symm⟩
  · cases heq
  · rename_i honce
    exact Or.inr ⟨honce, (Option.some.inj heq).symm⟩

theorem step_readPool {w w' : Worker} {caller : Nat}
    (h : step lib alwaysOn budgets w (.readPool caller) = some w') :
    w.callers caller = .resolving ∧ w' = w.moves caller (.budgeting w.toolNames) := by
  obtain ⟨hat, heq⟩ := Option.ite_none_right_eq_some.mp h
  exact ⟨hat, (Option.some.inj heq).symm⟩

theorem step_resolve {w w' : Worker} {caller : Nat} {tools : Tools}
    (h : step lib alwaysOn budgets w (.resolve caller tools) = some w') :
    ∃ pool, w.callers caller = .budgeting pool ∧
      (w' = { w.moves caller .idle with resolveOnce := .fresh } ∨
        ∃ mode, resolveByBudget lib tools alwaysOn budgets pool = some mode ∧
          w' = { w.moves caller .past with
            effectiveMode := mode
            resolveOnce := .done
            resolutions := w.resolutions ++ [(tools, pool)] }) := by
  rw [step] at h
  split at h
  · rename_i pool hat
    refine ⟨pool, hat, ?_⟩
    split at h
    · exact Or.inl (Option.some.inj h).symm
    · rename_i mode hmode
      exact Or.inr ⟨mode, hmode, (Option.some.inj h).symm⟩
  · cases h

theorem resolve_goes_on {w : Worker} {caller : Nat} {pool : List Str} (tools : Tools)
    (hat : w.callers caller = .budgeting pool) :
    ∃ w', step lib alwaysOn budgets w (.resolve caller tools) = some w' := by
  rw [step, hat]
  dsimp only
  cases resolveByBudget lib tools alwaysOn budgets pool with
  | none => exact ⟨_, rfl⟩
  | some mode => exact ⟨_, rfl⟩

theorem step_answer {w w' : Worker} {caller : Nat}
    (h : step lib alwaysOn budgets w (.answer caller) = some w') :
    w.callers caller = .past ∧
      w' = { w.moves caller .idle with answers := w.answers ++ [w.effectiveMode] } := by
  obtain ⟨hat, heq⟩ := Option.ite_none_right_eq_some.mp h
  exact ⟨hat, (Option.some.inj heq).symm⟩

theorem resolveByBudget_ne_auto {tools : Tools} {pool : List Str} {mode : ToolDisclosureMode}
    (h : resolveByBudget lib tools alwaysOn budgets pool = some mode) : mode ≠ .auto := by
  obtain ⟨text, -, rfl⟩ := Option.map_eq_some_iff.mp h
  unfold resolveModeByTokenBudget
  split
  · split <;> decide
  · decide

theorem forall_moves {w : Worker} {caller : Nat} {phase : Phase} {motive : Nat → Phase → Prop}
    (hself : motive caller phase) (hother : ∀ t, t ≠ caller → motive t (w.callers t)) (t : Nat) :
    motive t ((w.moves caller phase).callers t) := by
  by_cases ht : t = caller
  · subst ht
    rw [moves_self]
    exact hself
  · rw [moves_of_ne w ht]
    exact hother t ht

/-- A caller that runs the resolution. -/
def Phase.Inside : Phase → Prop
  | .resolving | .budgeting _ => True
  | .idle | .atOnce | .past => False

/-- What a phase says of the worker. -/
def Fits (configured : ToolDisclosureMode) (w : Worker) : Phase → Prop
  | .idle => True
  | .atOnce | .resolving => configured = .auto
  | .budgeting pool => configured = .auto ∧ pool ∈ w.pools
  | .past => w.effectiveMode ≠ .auto

/-- The mode is the configured one until it is resolved. -/
structure Sound (lib : JsonLib) (alwaysOn : Finset Str) (budgets : Budgets)
    (configured : ToolDisclosureMode) (w : Worker) : Prop where
  owner : ∀ t, (w.callers t).Inside ↔ w.resolveOnce = .running t
  fits : ∀ t, Fits configured w (w.callers t)
  names : w.toolNames ∈ w.pools
  undone : w.resolveOnce ≠ .done → w.effectiveMode = configured ∧ w.resolutions = []
  done : w.resolveOnce = .done → configured = .auto ∧ ∃ tools, ∃ pool ∈ w.pools,
    w.resolutions = [(tools, pool)] ∧
      resolveByBudget lib tools alwaysOn budgets pool = some w.effectiveMode
  answers : ∀ a ∈ w.answers, a = w.effectiveMode ∧ a ≠ .auto

section Steps

variable {configured : ToolDisclosureMode} {w w' : Worker}

theorem Sound.change (h : Sound lib alwaysOn budgets configured w) (toolNames : List Str) :
    Sound lib alwaysOn budgets configured
      { w with toolNames := toolNames, pools := w.pools ++ [toolNames] } where
  owner := h.owner
  fits := by
    intro t
    have hfits := h.fits t
    change Fits configured _ (w.callers t)
    cases hphase : w.callers t with
    | budgeting pool =>
        rw [hphase] at hfits
        exact ⟨hfits.1, List.mem_append_left _ hfits.2⟩
    | idle | atOnce | resolving | past =>
        rw [hphase] at hfits
        exact hfits
  names := List.mem_append_right _ (List.mem_singleton.mpr rfl)
  undone := h.undone
  done := by
    intro hdone
    obtain ⟨hauto, tools, pool, hpool, hrest⟩ := h.done hdone
    exact ⟨hauto, tools, pool, List.mem_append_left _ hpool, hrest⟩
  answers := h.answers

/-- A caller moves on outside of the resolution. -/
theorem Sound.moves (h : Sound lib alwaysOn budgets configured w) {caller : Nat} {phase : Phase}
    (hsame : (w.callers caller).Inside ↔ phase.Inside) (hfits : Fits configured w phase) :
    Sound lib alwaysOn budgets configured (w.moves caller phase) where
  owner := forall_moves (motive := fun t phase => phase.Inside ↔ w.resolveOnce = .running t)
    (hsame.symm.trans (h.owner caller)) fun t _ => h.owner t
  fits := forall_moves (motive := fun _ phase => Fits configured w phase) hfits
    fun t _ => h.fits t
  names := h.names
  undone := h.undone
  done := h.done
  answers := h.answers

theorem Sound.begins (h : Sound lib alwaysOn budgets configured w) {caller : Nat}
    (hat : w.callers caller = .atOnce) (honce : w.resolveOnce = .fresh) :
    Sound lib alwaysOn budgets configured
      { w.moves caller .resolving with resolveOnce := .running caller } where
  owner := by
    refine forall_moves
      (motive := fun t phase => phase.Inside ↔ OnceFlag.running caller = .running t)
      (iff_of_true trivial rfl) fun t ht => iff_of_false ?_ ?_
    · rw [h.owner t, honce]
      exact OnceFlag.noConfusion
    · intro heq
      exact ht (OnceFlag.running.inj heq).symm
  fits := by
    have hfits := h.fits caller
    rw [hat] at hfits
    exact forall_moves (motive := fun _ phase => Fits configured w phase) hfits fun t _ => h.fits t
  names := h.names
  undone := fun _ => h.undone (by rw [honce]; exact OnceFlag.noConfusion)
  done := fun hdone => OnceFlag.noConfusion hdone
  answers := h.answers

/-- Only the caller that runs the resolution is inside. -/
theorem Sound.not_inside (h : Sound lib alwaysOn budgets configured w) {caller t : Nat}
    (hrunning : w.resolveOnce = .running caller) (ht : t ≠ caller) :
    ¬ (w.callers t).Inside := by
  rw [h.owner t, hrunning]
  intro heq
  exact ht (OnceFlag.running.inj heq).symm

theorem Sound.throws (h : Sound lib alwaysOn budgets configured w) {caller : Nat}
    (hrunning : w.resolveOnce = .running caller) :
    Sound lib alwaysOn budgets configured
      { w.moves caller .idle with resolveOnce := .fresh } where
  owner := forall_moves (motive := fun t phase => phase.Inside ↔ OnceFlag.fresh = .running t)
    (iff_of_false id OnceFlag.noConfusion)
    fun t ht => iff_of_false (h.not_inside hrunning ht) OnceFlag.noConfusion
  fits := forall_moves (motive := fun _ phase => Fits configured w phase) trivial
    fun t _ => h.fits t
  names := h.names
  undone := fun _ => h.undone (by rw [hrunning]; exact OnceFlag.noConfusion)
  done := fun hdone => OnceFlag.noConfusion hdone
  answers := h.answers

theorem Sound.resolves (h : Sound lib alwaysOn budgets configured w) {caller : Nat}
    {tools : Tools} {pool : List Str} {mode : ToolDisclosureMode}
    (hat : w.callers caller = .budgeting pool)
    (hmode : resolveByBudget lib tools alwaysOn budgets pool = some mode) :
    Sound lib alwaysOn budgets configured
      { w.moves caller .past with
        effectiveMode := mode
        resolveOnce := .done
        resolutions := w.resolutions ++ [(tools, pool)] } := by
  have hrunning : w.resolveOnce = .running caller := (h.owner caller).mp (by rw [hat]; trivial)
  have hfits := h.fits caller
  rw [hat] at hfits
  obtain ⟨hauto, hpool⟩ := hfits
  obtain ⟨hmode_eq, hnone⟩ := h.undone (by rw [hrunning]; exact OnceFlag.noConfusion)
  have hne := resolveByBudget_ne_auto hmode
  exact {
    owner := forall_moves (motive := fun t phase => phase.Inside ↔ OnceFlag.done = .running t)
      (iff_of_false id OnceFlag.noConfusion)
      fun t ht => iff_of_false (h.not_inside hrunning ht) OnceFlag.noConfusion
    fits := by
      refine forall_moves (motive := fun _ phase =>
        Fits configured { w with effectiveMode := mode } phase) hne fun t _ => ?_
      have hthis := h.fits t
      cases hphase : w.callers t with
      | past => exact hne
      | idle | atOnce | resolving | budgeting _ =>
          rw [hphase] at hthis
          exact hthis
    names := h.names
    undone := fun hundone => absurd rfl hundone
    done := fun _ => ⟨hauto, tools, pool, hpool, by rw [hnone]; rfl, hmode⟩
    -- nobody was answered before, as the mode was still AUTO
    answers := by
      intro a ha
      obtain ⟨heq, hnot⟩ := h.answers a ha
      exact absurd (heq.trans (hmode_eq.trans hauto)) hnot }

theorem Sound.answer (h : Sound lib alwaysOn budgets configured w) {caller : Nat}
    (hat : w.callers caller = .past) :
    Sound lib alwaysOn budgets configured
      { w.moves caller .idle with answers := w.answers ++ [w.effectiveMode] } := by
  have hfits := h.fits caller
  rw [hat] at hfits
  have hmoved : Sound lib alwaysOn budgets configured (w.moves caller .idle) :=
    h.moves (by rw [hat]; exact Iff.rfl) trivial
  exact { hmoved with
    fits := hmoved.fits
    answers := by
      intro a ha
      rcases List.mem_append.mp ha with ha | ha
      · exact h.answers a ha
      · rw [List.mem_singleton.mp ha]
        exact ⟨rfl, hfits⟩ }

theorem Sound.step (h : Sound lib alwaysOn budgets configured w) {event : Event}
    (hstep : step lib alwaysOn budgets w event = some w') :
    Sound lib alwaysOn budgets configured w' := by
  cases event with
  | change toolNames =>
      cases hstep
      exact h.change toolNames
  | call caller =>
      obtain ⟨hidle, ⟨hauto, rfl⟩ | ⟨hauto, rfl⟩⟩ := step_call hstep
      · refine h.moves (by rw [hidle]; exact Iff.rfl) ?_
        -- a resolved mode is never AUTO
        by_cases hdone : w.resolveOnce = .done
        · exact (h.done hdone).1
        · exact (h.undone hdone).1.symm.trans hauto
      · exact h.moves (by rw [hidle]; exact Iff.rfl) hauto
  | enter caller =>
      obtain ⟨hat, ⟨honce, rfl⟩ | ⟨honce, rfl⟩⟩ := step_enter hstep
      · exact h.begins hat honce
      · obtain ⟨-, tools, pool, -, -, hmode⟩ := h.done honce
        exact h.moves (by rw [hat]; exact Iff.rfl) (resolveByBudget_ne_auto hmode)
  | readPool caller =>
      obtain ⟨hat, rfl⟩ := step_readPool hstep
      have hfits := h.fits caller
      rw [hat] at hfits
      exact h.moves (by rw [hat]; exact Iff.rfl) ⟨hfits, h.names⟩
  | resolve caller tools =>
      obtain ⟨pool, hat, rfl | ⟨mode, hmode, rfl⟩⟩ := step_resolve hstep
      · exact h.throws ((h.owner caller).mp (by rw [hat]; trivial))
      · exact h.resolves hat hmode
  | answer caller =>
      obtain ⟨hat, rfl⟩ := step_answer hstep
      exact h.answer hat

end Steps

/-- A step of a caller that has asked. -/
def Event.Serves : Event → Prop
  | .change _ | .call _ => False
  | .enter _ | .readPool _ | .resolve .. | .answer _ => True

/-- As long as a caller waits, some caller can go on. -/
theorem Sound.goes_on {configured : ToolDisclosureMode} {w : Worker}
    (h : Sound lib alwaysOn budgets configured w) {caller : Nat}
    (hasked : w.callers caller ≠ .idle) :
    ∃ event w', event.Serves ∧ AutoMode.step lib alwaysOn budgets w event = some w' := by
  have hinside : ∀ t, (w.callers t).Inside →
      ∃ event w', event.Serves ∧ AutoMode.step lib alwaysOn budgets w event = some w' := by
    intro t ht
    cases hphase : w.callers t with
    | resolving => exact ⟨.readPool t, _, trivial, if_pos hphase⟩
    | budgeting pool =>
        obtain ⟨w', hw'⟩ := resolve_goes_on (fun _ => none) hphase
        exact ⟨.resolve t fun _ => none, w', trivial, hw'⟩
    | idle | atOnce | past =>
        rw [hphase] at ht
        exact ht.elim
  cases hphase : w.callers caller with
  | idle => exact absurd hphase hasked
  | atOnce =>
      cases honce : w.resolveOnce with
      | fresh =>
          exact ⟨.enter caller, _, trivial, by rw [AutoMode.step, if_pos hphase, honce]⟩
      | running t => exact hinside t ((h.owner t).mpr honce)
      | done => exact ⟨.enter caller, _, trivial, by rw [AutoMode.step, if_pos hphase, honce]⟩
  | resolving => exact hinside caller (by rw [hphase]; trivial)
  | budgeting pool => exact hinside caller (by rw [hphase]; trivial)
  | past => exact ⟨.answer caller, _, trivial, if_pos hphase⟩

/-- In every run all callers are answered by one mode, which is not AUTO. It is the configured one,
or else it was resolved once, from a pool that the worker had. As long as a caller waits, some
caller can go on. -/
theorem auto_resolves_once {configured : ToolDisclosureMode} {toolNames : List Str} {w : Worker}
    (h : Run (step lib alwaysOn budgets) AnyStep
      { effectiveMode := configured, toolNames := toolNames } w) :
    (∀ a ∈ w.answers, a = w.effectiveMode ∧ a ≠ .auto) ∧
      ((w.effectiveMode = configured ∧ w.resolutions = []) ∨
        (configured = .auto ∧ ∃ tools, ∃ pool ∈ w.pools, w.resolutions = [(tools, pool)] ∧
          resolveByBudget lib tools alwaysOn budgets pool = some w.effectiveMode)) ∧
      ∀ caller, w.callers caller ≠ .idle →
        ∃ event w', event.Serves ∧ step lib alwaysOn budgets w event = some w' := by
  have hsound : Sound lib alwaysOn budgets configured w := by
    refine h.invariant (motive := Sound lib alwaysOn budgets configured) ?_
      fun _ _ _ ih _ hstep => ih.step hstep
    exact {
      owner := fun _ => iff_of_false id OnceFlag.noConfusion
      fits := fun _ => trivial
      names := List.mem_singleton.mpr rfl
      undone := fun _ => ⟨rfl, rfl⟩
      done := fun hdone => OnceFlag.noConfusion hdone
      answers := by simp }
  refine ⟨hsound.answers, ?_, fun _ => hsound.goes_on⟩
  by_cases hdone : w.resolveOnce = .done
  · exact Or.inr (hsound.done hdone)
  · exact Or.inl (hsound.undone hdone)

/-- Two callers; the pool shrinks while the first of them resolves. -/
def demoEvents : List Event :=
  [.call 0, .call 1, .enter 0, .readPool 0, .change [], .resolve 0 demoTools, .enter 1, .answer 1,
    .answer 0]

theorem auto_resolves_once_demo :
    ∃ w, Run (step readerLib ∅ ⟨5, 40⟩) AnyStep
        { effectiveMode := .auto, toolNames := [lit "grep"] } w ∧
      w.answers = [.progressive, .progressive] ∧
        ∀ a ∈ w.answers, a = w.effectiveMode ∧ a ≠ .auto := by
  obtain ⟨w, hrun, hanswers⟩ := exists_run_of_any (step readerLib ∅ ⟨5, 40⟩) AnyStep
    { effectiveMode := .auto, toolNames := [lit "grep"] } demoEvents
    (p := fun w => w.answers = [.progressive, .progressive]) (by decide +kernel)
  exact ⟨w, hrun, hanswers, (auto_resolves_once hrun).1⟩

end Resolved

end JiuwenCore.AutoMode
