import JiuwenCore.Lib.Shell
import JiuwenCore.Tools.Arguments

/-!
# Running a command

`ExecutePosix` writes a line for the shell: the command in quotes, a `timeout` in front of
it, and between them a change of the directory where one is asked for.
-/

namespace JiuwenCore.Tools.ExecTool

/-! ## The tool -/

/-- The characters of the output of a command, where the whole is too long, are its first and
its last ones. -/
def truncateOutput (output : Str) : Str :=
  let kMaxOutput : Nat := 10000
  if (output.length : Int).bmod (2 ^ 32) ≤ kMaxOutput then output
  else
    let half := kMaxOutput / 2
    output.take half ++ lit "\n\n... (" ++ toDecimal (output.length - kMaxOutput) ++
      lit " chars truncated) ...\n\n" ++ output.drop (output.length - half)

def shellQuote (s : Str) : Str :=
  [39] ++ (s.flatMap fun c => if c = 39 then lit "'\\''" else [c]) ++ [39]

/-- `fullCmd`. -/
def fullCmd (command workingDir : Str) (timeoutSec : Int) : Str :=
  let bashCmd := lit "bash -c " ++ shellQuote command
  let fullCmd :=
    if workingDir ≠ [] then lit "cd " ++ shellQuote workingDir ++ lit " && " ++ bashCmd
    else bashCmd
  lit "timeout " ++ Json.printInt timeoutSec ++ lit "s " ++ fullCmd ++ lit " 2>&1"

/-- The line that a `const char*` stands for. -/
def cString (s : Str) : Str := s.takeWhile (· ≠ 0)

/-- `ExecutePosix`; `popen` gives the output and the status of a line. -/
def executePosix (popen : Str → Option (Str × Int)) (command workingDir : Str) (timeoutSec : Int) :
    Str :=
  match popen (cString (fullCmd command workingDir timeoutSec)) with
  | none => lit "Error: Failed to execute command"
  | some (result, exitCode) =>
      if exitCode = 124 then
        lit "Error: Command timed out after " ++ Json.printInt timeoutSec ++ lit " seconds"
      else
        truncateOutput ((if result = [] then lit "(no output)" else result) ++
          lit "\nExit code: " ++ Json.printInt exitCode)

/-- `ExecTool::Invoke`; `guardCommand` is empty where no dangerous pattern is found. -/
def invoke (guardCommand : Str → Str) (popen : Str → Option (Str × Int)) (input : Str) : Str :=
  let command := parseStringField input (lit "command")
  if command = [] then lit "Error: 'command' parameter is required"
  else
    let workingDir := parseStringField input (lit "working_dir")
    let timeout := parseIntField input (lit "timeout") 60
    let timeout := if timeout > 600 then 600 else timeout
    let timeout := if timeout < 1 then 60 else timeout
    let guardError := guardCommand command
    if guardError ≠ [] then guardError else executePosix popen command workingDir timeout

/-! ## What the line is for -/

/-- `timeout 5s command ..`: the limit, and the command that runs under it. -/
def underTimeout : List Str → Option (Nat × List Str)
  | name :: duration :: command =>
      if name = lit "timeout" ∧ duration.getLast? = some 115 ∧ duration.dropLast ≠ [] ∧
          duration.dropLast.all Json.isDigit ∧ command ≠ [] then
        some (ofDecimal duration.dropLast, command)
      else none
  | _ => none

/-- The line starts one program: bash with the command as the one argument of `-c`, under the
limit, in the directory where one is given, its errors going where its output goes. -/
def RunsAsked {Dir : Type} (around : Shell.Surroundings Dir) (dir : Dir) (command workingDir : Str)
    (timeoutSec : Int) (line : Str) : Prop :=
  ∃ started, Shell.lineLaunches around dir line = some started ∧
    match if workingDir = [] then some dir else around.chdir dir workingDir with
    | none => started = []
    | some target =>
        ∃ (limit : Nat) (launch : Shell.Launch Dir), started = [launch] ∧ (limit : Int) = timeoutSec ∧
          underTimeout launch.argv = some (limit, [lit "bash", lit "-c", command]) ∧
          launch.dir = target ∧ launch.dups = [(lit "2", lit "1")]

/-! ## The line as the shell reads it -/

open Shell

theorem shellQuote_eq (s : Str) : shellQuote s = quote s := rfl

/-- A word that is written out, and the blank behind it. -/
theorem foldlM_word (ts : List Token) {word : Str} (hne : word ≠ [])
    (h : ∀ b ∈ word, isPlain b = true) :
    (word ++ [32]).foldlM step ⟨ts, .gap⟩ = some ⟨ts ++ [.word word], .gap⟩ := by
  cases word with
  | nil => exact absurd rfl hne
  | cons c s =>
      have hfirst : step ⟨ts, .gap⟩ c = some ⟨ts, .word [c] false⟩ :=
        stepOpen_plain (h c List.mem_cons_self)
      have hrest := foldlM_plain ts [c] false fun b hb => h b (List.mem_cons_of_mem c hb)
      rw [List.cons_append, List.foldlM_cons, hfirst, Option.bind_eq_bind, Option.bind_some,
        List.foldlM_append, hrest]
      rfl

/-- A quoted word and the blank behind it. -/
theorem foldlM_quoted (ts : List Token) (s : Str) :
    (quote s ++ [32]).foldlM step ⟨ts, .gap⟩ = some ⟨ts ++ [.word s], .gap⟩ := by
  rw [List.foldlM_append, foldlM_quote]
  rfl

theorem duration_plain (timeoutSec : Int) :
    ∀ b ∈ Json.printInt timeoutSec ++ [115], isPlain b = true := by
  have hdigit : ∀ b ∈ toDecimal timeoutSec.natAbs, isPlain b = true := by
    intro b hb
    have hb := Json.toDecimal_digits _ b hb
    simp only [Json.isDigit, decide_eq_true_eq] at hb
    simp [isPlain, hb]
  intro b hb
  rcases List.mem_append.mp hb with hb | hb
  · unfold Json.printInt at hb
    split at hb
    · rcases List.mem_cons.mp hb with rfl | hb
      · rfl
      · exact hdigit b hb
    · exact hdigit b hb
  · rw [List.mem_singleton.mp hb]
    rfl

/-- The two words in front of the line. -/
theorem foldlM_timeout (timeoutSec : Int) (rest : Str) :
    (lit "timeout " ++ (Json.printInt timeoutSec ++ (lit "s " ++ rest))).foldlM step ⟨[], .gap⟩ =
      rest.foldlM step
        ⟨[.word (lit "timeout"), .word (Json.printInt timeoutSec ++ [115])], .gap⟩ := by
  have hsplit : lit "timeout " ++ (Json.printInt timeoutSec ++ (lit "s " ++ rest)) =
      (lit "timeout" ++ [32]) ++ (((Json.printInt timeoutSec ++ [115]) ++ [32]) ++ rest) := by
    rw [show lit "timeout " = lit "timeout" ++ [32] from rfl,
      show lit "s " = ([115] : Str) ++ [32] from rfl]
    simp only [List.append_assoc]
  rw [hsplit, List.foldlM_append, foldlM_word [] (by decide) (by decide), Option.bind_eq_bind,
    Option.bind_some, List.foldlM_append, foldlM_word _ (by simp) (duration_plain timeoutSec)]
  rfl

/-- The words of bash, with the command, and the redirection behind them. -/
theorem foldlM_bash (ts : List Token) (command : Str) :
    (lit "bash -c " ++ (shellQuote command ++ lit " 2>&1")).foldlM step ⟨ts, .gap⟩ =
      some ⟨ts ++ [.word (lit "bash"), .word (lit "-c"), .word command, .dup (lit "2")],
        .word (lit "1") false⟩ := by
  have hsplit : lit "bash -c " ++ (shellQuote command ++ lit " 2>&1") =
      (lit "bash" ++ [32]) ++ ((lit "-c" ++ [32]) ++ ((quote command ++ [32]) ++ lit "2>&1")) := by
    rw [show lit "bash -c " = lit "bash" ++ [32] ++ (lit "-c" ++ [32]) from rfl,
      show lit " 2>&1" = ([32] : Str) ++ lit "2>&1" from rfl, shellQuote_eq]
    simp only [List.append_assoc]
  have hredirect : ∀ ts : List Token, (lit "2>&1").foldlM step ⟨ts, .gap⟩ =
      some ⟨ts ++ [.dup (lit "2")], .word (lit "1") false⟩ := fun _ => rfl
  rw [hsplit, List.foldlM_append, foldlM_word ts (by decide) (by decide), Option.bind_eq_bind,
    Option.bind_some, List.foldlM_append, foldlM_word _ (by decide) (by decide),
    Option.bind_eq_bind, Option.bind_some, List.foldlM_append, foldlM_quoted,
    Option.bind_eq_bind, Option.bind_some, hredirect]
  simp

theorem commands_fullCmd (command : Str) (timeoutSec : Int) :
    commands (fullCmd command [] timeoutSec) =
      some [⟨[lit "timeout", Json.printInt timeoutSec ++ [115], lit "bash", lit "-c", command],
        [(lit "2", lit "1")]⟩] := by
  have htokens : tokens (fullCmd command [] timeoutSec) =
      some [.word (lit "timeout"), .word (Json.printInt timeoutSec ++ [115]), .word (lit "bash"),
        .word (lit "-c"), .word command, .dup (lit "2"), .word (lit "1")] := by
    rw [tokens, fullCmd]
    simp only [ne_eq, not_true_eq_false, if_false, List.append_assoc]
    rw [foldlM_timeout, foldlM_bash]
    rfl
  rw [commands, htokens]
  rfl

/-- With a directory, `timeout` is in front of `cd`, and bash is behind the `&&`. -/
theorem commands_fullCmd_cd (command : Str) {workingDir : Str} (hdir : workingDir ≠ [])
    (timeoutSec : Int) :
    commands (fullCmd command workingDir timeoutSec) =
      some [⟨[lit "timeout", Json.printInt timeoutSec ++ [115], lit "cd", workingDir], []⟩,
        ⟨[lit "bash", lit "-c", command], [(lit "2", lit "1")]⟩] := by
  have htokens : tokens (fullCmd command workingDir timeoutSec) =
      some [.word (lit "timeout"), .word (Json.printInt timeoutSec ++ [115]), .word (lit "cd"),
        .word workingDir, .andIf, .word (lit "bash"), .word (lit "-c"), .word command,
        .dup (lit "2"), .word (lit "1")] := by
    have hsplit : ∀ rest : Str, lit "cd " ++ (shellQuote workingDir ++ (lit " && " ++ rest)) =
        (lit "cd" ++ [32]) ++ ((quote workingDir ++ [32]) ++ (lit "&& " ++ rest)) := by
      intro rest
      rw [show lit "cd " = lit "cd" ++ [32] from rfl,
        show lit " && " = ([32] : Str) ++ lit "&& " from rfl, shellQuote_eq]
      simp only [List.append_assoc]
    have hand : ∀ ts : List Token, (lit "&& ").foldlM step ⟨ts, .gap⟩ =
        some ⟨ts ++ [.andIf], .gap⟩ := by
      intro ts
      simp [lit, step, stepOpen]
    rw [tokens, fullCmd]
    simp only [ne_eq, hdir, not_false_eq_true, if_true, List.append_assoc]
    rw [foldlM_timeout, hsplit, List.foldlM_append, foldlM_word _ (by decide) (by decide),
      Option.bind_eq_bind, Option.bind_some, List.foldlM_append, foldlM_quoted,
      Option.bind_eq_bind, Option.bind_some, List.foldlM_append, hand, Option.bind_eq_bind,
      Option.bind_some, foldlM_bash]
    rfl
  rw [commands, htokens]
  rfl

/-! ## What the shell starts -/

theorem fullCmd_noNul {command workingDir : Str} (hcommand : 0 ∉ command) (hdir : 0 ∉ workingDir)
    (timeoutSec : Int) :
    cString (fullCmd command workingDir timeoutSec) = fullCmd command workingDir timeoutSec := by
  have hquote : ∀ s : Str, 0 ∉ s → 0 ∉ shellQuote s := by
    intro s hs hmem
    simp only [shellQuote, List.mem_append, List.mem_flatMap, List.mem_singleton] at hmem
    rcases hmem with (h | ⟨c, hc, h⟩) | h
    · cases h
    · split at h
      · revert h
        decide
      · rw [List.mem_singleton.mp h] at hs
        exact hs hc
    · cases h
  have hnumber : 0 ∉ Json.printInt timeoutSec := by
    intro hmem
    have hplain := duration_plain timeoutSec 0 (List.mem_append_left _ hmem)
    cases hplain
  have hwords : 0 ∉ lit "timeout " ∧ 0 ∉ lit "s " ∧ 0 ∉ lit " 2>&1" ∧ 0 ∉ lit "bash -c " ∧
      0 ∉ lit "cd " ∧ 0 ∉ lit " && " := by decide
  obtain ⟨htimeout, hseconds, herrors, hbash, hcd, hand⟩ := hwords
  have hline : 0 ∉ fullCmd command workingDir timeoutSec := by
    unfold fullCmd
    split <;> simp [htimeout, hseconds, herrors, hbash, hcd, hand, hnumber, hquote, hcommand, hdir]
  rw [cString, List.takeWhile_eq_self_iff]
  intro b hb
  exact decide_eq_true fun hzero => hline (hzero ▸ hb)

theorem underTimeout_eq (timeoutSec : Int) (command : List Str) (hcommand : command ≠ []) :
    underTimeout (lit "timeout" :: (Json.printInt timeoutSec ++ [115]) :: command) =
      if 0 ≤ timeoutSec then some (timeoutSec.toNat, command) else none := by
  simp only [underTimeout, List.getLast?_concat, List.dropLast_concat]
  split
  · rename_i hseconds
    obtain ⟨-, -, -, hdigits, -⟩ := hseconds
    have hpos : ¬ timeoutSec < 0 := by
      intro hneg
      simp [Json.printInt, hneg, Json.isDigit] at hdigits
    rw [if_pos (by omega), Json.printInt, if_neg hpos, ofDecimal_toDecimal]
    simp only [Option.some.injEq, Prod.mk.injEq, and_true]
    omega
  · rename_i hseconds
    refine (if_neg fun hpos => hseconds ?_).symm
    have hprint : Json.printInt timeoutSec = toDecimal timeoutSec.natAbs := if_neg (by omega)
    rw [hprint, List.all_eq_true]
    exact ⟨trivial, trivial, Json.toDecimal_ne_nil _, Json.toDecimal_digits _, hcommand⟩

/-- The line does what it is for where no directory is given. Where one is, the limit is on a
program `cd`, and the command runs where the shell is, without a limit. -/
theorem runsAsked_iff {Dir : Type} (around : Surroundings Dir) (dir : Dir)
    {command workingDir : Str} (hcommand : 0 ∉ command) (hdir : 0 ∉ workingDir)
    (timeoutSec : Int) :
    RunsAsked around dir command workingDir timeoutSec
        (cString (fullCmd command workingDir timeoutSec)) ↔
      workingDir = [] ∧ 0 ≤ timeoutSec := by
  rw [fullCmd_noNul hcommand hdir, RunsAsked, lineLaunches]
  by_cases hempty : workingDir = []
  · subst hempty
    rw [commands_fullCmd, Option.map_some, launches_program around dir (by simp [lit]), launches]
    simp only [ite_self, if_true, and_iff_right, Option.some.injEq, exists_eq_left']
    have hunder := underTimeout_eq timeoutSec [lit "bash", lit "-c", command] (by simp)
    constructor
    · intro h
      obtain ⟨limit, launch, -, hlimit, -⟩ := h
      omega
    · intro h
      rw [if_pos h] at hunder
      exact ⟨timeoutSec.toNat, _, rfl, Int.toNat_of_nonneg h, hunder, rfl, rfl⟩
  · rw [commands_fullCmd_cd command hempty, Option.map_some,
      launches_program around dir (by simp [lit])]
    refine iff_of_false (fun h => ?_) (fun h => hempty h.1)
    obtain ⟨started, hstarted, h⟩ := h
    rw [if_neg hempty] at h
    cases htarget : around.chdir dir workingDir with
    | none =>
        rw [htarget] at h
        rw [h] at hstarted
        cases hstarted
    | some target =>
        rw [htarget] at h
        obtain ⟨limit, launch, hsingle, -, hunder, -⟩ := h
        rw [hsingle, Option.some.injEq] at hstarted
        have hargv := congrArg Launch.argv (List.cons.inj hstarted).1
        simp only at hargv
        rw [← hargv, underTimeout_eq timeoutSec [lit "cd", workingDir] (by simp)] at hunder
        split at hunder
        · simp at hunder
        · cases hunder

/-- A shell in a directory without others, whose programs all succeed. -/
def sampleShell : Surroundings Str where
  chdir dir target := some (dir ++ lit "/" ++ target)
  succeeds _ := true

theorem runsAsked_quotes :
    RunsAsked sampleShell (lit "/home") (lit "echo 'a\\' $HOME\n") [] 60
      (cString (fullCmd (lit "echo 'a\\' $HOME\n") [] 60)) :=
  (runsAsked_iff sampleShell (lit "/home") (by decide) (by decide) 60).mpr ⟨rfl, by decide⟩

/-- With a directory, two programs are started in the shell's own one: `cd` under the limit,
and then bash without it. -/
theorem fullCmd_cd_started :
    lineLaunches sampleShell (lit "/home") (cString (fullCmd (lit "ls") (lit "src") 60)) =
        some [⟨[lit "timeout", lit "60s", lit "cd", lit "src"], [], lit "/home"⟩,
          ⟨[lit "bash", lit "-c", lit "ls"], [(lit "2", lit "1")], lit "/home"⟩] ∧
      ¬ RunsAsked sampleShell (lit "/home") (lit "ls") (lit "src") 60
        (cString (fullCmd (lit "ls") (lit "src") 60)) := by
  have hstarted : lineLaunches sampleShell (lit "/home")
      (cString (fullCmd (lit "ls") (lit "src") 60)) =
        some [⟨[lit "timeout", lit "60s", lit "cd", lit "src"], [], lit "/home"⟩,
          ⟨[lit "bash", lit "-c", lit "ls"], [(lit "2", lit "1")], lit "/home"⟩] := by
    have hline : cString (fullCmd (lit "ls") (lit "src") 60) = fullCmd (lit "ls") (lit "src") 60 :=
      fullCmd_noNul (by decide) (by decide) 60
    rw [hline, lineLaunches, commands_fullCmd_cd _ (by decide)]
    decide
  refine ⟨hstarted, fun h => ?_⟩
  obtain ⟨started, hsome, limit, launch, hsingle, -⟩ := h
  rw [hstarted, hsingle, Option.some.injEq] at hsome
  cases hsome

end JiuwenCore.Tools.ExecTool
