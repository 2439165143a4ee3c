import Mathlib.Data.List.Basic

/-!
# Shell command lines

The part of the POSIX shell's language that needs no expansion: words with quoting, lists
joined by `&&`, and the duplication of a descriptor. A line with anything else has no meaning
here. A list is run from the left; `cd` is the shell's own and changes the directory of what
follows, everything else is a program the shell launches.
-/

namespace JiuwenCore.Shell

abbrev Bytes := List UInt8

/-! ## Tokens -/

inductive Token
  | word (text : Bytes)
  | andIf
  | dup (fd : Bytes)
  deriving DecidableEq, Repr

/-- Where the reader of a line stands. A word remembers whether a part of it was quoted. -/
inductive Mode
  | gap
  | word (text : Bytes) (quoted : Bool)
  | inQuote (text : Bytes)
  | escape (word : Option (Bytes × Bool))
  | amp
  | great (fd : Bytes)
  deriving DecidableEq, Repr

structure Reader where
  tokens : List Token
  mode : Mode
  deriving DecidableEq, Repr

/-- The bytes that stand for themselves outside quotes, whatever is next to them. -/
def isPlain (c : UInt8) : Bool :=
  48 ≤ c ∧ c ≤ 57 ∨ 65 ≤ c ∧ c ≤ 90 ∨ 97 ≤ c ∧ c ≤ 122 ∨ c = 45 ∨ c = 46 ∨ c = 47 ∨ c = 95

def isDigit (c : UInt8) : Bool := 48 ≤ c ∧ c ≤ 57

/-- A byte outside quotes, with the word that is open. -/
def stepOpen (tokens : List Token) (word : Option (Bytes × Bool)) (c : UInt8) : Option Reader :=
  let text := (word.map (·.1)).getD []
  let closed := tokens ++ (word.map fun w => Token.word w.1).toList
  if c = 39 then some ⟨tokens, .inQuote text⟩
  else if c = 92 then some ⟨tokens, .escape word⟩
  else if c = 32 ∨ c = 9 then some ⟨closed, .gap⟩
  else if c = 38 then some ⟨closed, .amp⟩
  else if c = 62 then
    match word with
    | some (fd, false) =>
        if fd.all isDigit then some ⟨tokens, .great fd⟩ else some ⟨closed, .great [49]⟩
    | _ => some ⟨closed, .great [49]⟩
  else if isPlain c then
    some ⟨tokens, .word (text ++ [c]) ((word.map (·.2)).getD false)⟩
  else none

def step (reader : Reader) (c : UInt8) : Option Reader :=
  match reader.mode with
  | .gap => stepOpen reader.tokens none c
  | .word text quoted => stepOpen reader.tokens (some (text, quoted)) c
  | .inQuote text =>
      if c = 39 then some ⟨reader.tokens, .word text true⟩
      else some ⟨reader.tokens, .inQuote (text ++ [c])⟩
  | .escape word =>
      -- an escaped line end joins two lines
      if c = 10 then
        match word with
        | none => some ⟨reader.tokens, .gap⟩
        | some (text, quoted) => some ⟨reader.tokens, .word text quoted⟩
      else some ⟨reader.tokens, .word ((word.map (·.1)).getD [] ++ [c]) true⟩
  | .amp => if c = 38 then some ⟨reader.tokens ++ [.andIf], .gap⟩ else none
  | .great fd => if c = 38 then some ⟨reader.tokens ++ [.dup fd], .gap⟩ else none

def Reader.finish (reader : Reader) : Option (List Token) :=
  match reader.mode with
  | .gap => some reader.tokens
  | .word text _ => some (reader.tokens ++ [.word text])
  | _ => none

def tokens (line : Bytes) : Option (List Token) :=
  (line.foldlM step ⟨[], .gap⟩).bind Reader.finish

/-! ## Lists of commands -/

/-- The words that are no commands: `if`, `then`, `else`, `elif`, `fi`, `do`, `done`, `case`,
`esac`, `while`, `until`, `for`, `in`. -/
def reserved : List Bytes :=
  ["if", "then", "else", "elif", "fi", "do", "done", "case", "esac", "while", "until", "for",
    "in"].map fun word => word.toList.map fun c => UInt8.ofNat c.toNat

structure Command where
  argv : List Bytes
  dups : List (Bytes × Bytes)
  deriving DecidableEq, Repr

/-- Whether the words make a command. -/
def Command.valid (c : Command) : Bool :=
  match c.argv with
  | [] => false
  | name :: _ => !reserved.contains name

def commandsFrom (open_ : Command) : List Token → Option (List Command)
  | [] => if open_.valid then some [open_] else none
  | .word text :: rest => commandsFrom { open_ with argv := open_.argv ++ [text] } rest
  | .dup fd :: .word target :: rest =>
      commandsFrom { open_ with dups := open_.dups ++ [(fd, target)] } rest
  | .dup _ :: _ => none
  | .andIf :: rest =>
      if open_.valid then (commandsFrom ⟨[], []⟩ rest).map (open_ :: ·) else none

def commands (line : Bytes) : Option (List Command) := (tokens line).bind (commandsFrom ⟨[], []⟩)

/-! ## Running a list -/

/-- What the shell starts, and in which directory. -/
structure Launch (Dir : Type) where
  argv : List Bytes
  dups : List (Bytes × Bytes)
  dir : Dir
  deriving DecidableEq, Repr

/-- The surroundings of a shell: where `cd` leads, and which programs succeed. -/
structure Surroundings (Dir : Type) where
  chdir : Dir → Bytes → Option Dir
  succeeds : Launch Dir → Bool

variable {Dir : Type}

/-- The programs a list starts; it ends with the first command that fails. -/
def launches (around : Surroundings Dir) (dir : Dir) : List Command → List (Launch Dir)
  | [] => []
  | c :: rest =>
      match c.argv with
      | [[99, 100], target] =>
          match around.chdir dir target with
          | some dir => launches around dir rest
          | none => []
      | argv =>
          let launch : Launch Dir := ⟨argv, c.dups, dir⟩
          launch :: if around.succeeds launch then launches around dir rest else []

theorem launches_program (around : Surroundings Dir) (dir : Dir) {c : Command}
    (h : c.argv.head? ≠ some [99, 100]) (rest : List Command) :
    launches around dir (c :: rest) =
      ⟨c.argv, c.dups, dir⟩ ::
        if around.succeeds ⟨c.argv, c.dups, dir⟩ then launches around dir rest else [] := by
  rw [launches]
  split
  · rename_i hcd
    rw [hcd] at h
    exact absurd rfl h
  · rfl

/-- The programs a line starts. -/
def lineLaunches (around : Surroundings Dir) (dir : Dir) (line : Bytes) :
    Option (List (Launch Dir)) :=
  (commands line).map (launches around dir)

/-! ## Quoting -/

theorem isPlain_ne {c : UInt8} (h : isPlain c = true) :
    c ≠ 39 ∧ c ≠ 92 ∧ ¬ (c = 32 ∨ c = 9) ∧ c ≠ 38 ∧ c ≠ 62 := by
  simp only [isPlain, UInt8.le_iff_toNat_le, ← UInt8.toNat_inj, UInt8.reduceToNat,
    decide_eq_true_eq] at h
  simp only [ne_eq, ← UInt8.toNat_inj, UInt8.reduceToNat]
  omega

theorem stepOpen_plain {ts : List Token} {word : Option (Bytes × Bool)} {c : UInt8}
    (h : isPlain c = true) :
    stepOpen ts word c =
      some ⟨ts, .word ((word.map (·.1)).getD [] ++ [c]) ((word.map (·.2)).getD false)⟩ := by
  obtain ⟨hquote, hslash, hblank, hamp, hgreat⟩ := isPlain_ne h
  simp [stepOpen, hquote, hslash, hblank, hamp, hgreat, h]

/-- Plain bytes go to the word. -/
theorem foldlM_plain (ts : List Token) (text : Bytes) (quoted : Bool) {s : Bytes}
    (h : ∀ c ∈ s, isPlain c = true) :
    s.foldlM step ⟨ts, .word text quoted⟩ = some ⟨ts, .word (text ++ s) quoted⟩ := by
  induction s generalizing text with
  | nil => simp
  | cons c s ih =>
      have hc := h c List.mem_cons_self
      have hstep : step ⟨ts, .word text quoted⟩ c = some ⟨ts, .word (text ++ [c]) quoted⟩ :=
        stepOpen_plain hc
      rw [List.foldlM_cons, hstep]
      exact (ih (text ++ [c]) fun b hb => h b (List.mem_cons_of_mem c hb)).trans (by simp)

/-- A text in single quotes, each single quote of it written outside them. -/
def quote (s : Bytes) : Bytes :=
  39 :: (s.flatMap fun c => if c = 39 then [39, 92, 39, 39] else [c]) ++ [39]

/-- Between the quotes every byte goes to the word. -/
theorem foldlM_inQuote (ts : List Token) (text s : Bytes) :
    (s.flatMap fun c => if c = 39 then [39, 92, 39, 39] else [c]).foldlM step
        ⟨ts, .inQuote text⟩ = some ⟨ts, .inQuote (text ++ s)⟩ := by
  induction s generalizing text with
  | nil => simp
  | cons c s ih =>
      rw [List.flatMap_cons, List.foldlM_append]
      by_cases hc : c = 39
      · subst hc
        have hstep : ([39, 92, 39, 39] : Bytes).foldlM step ⟨ts, .inQuote text⟩ =
            some ⟨ts, .inQuote (text ++ [39])⟩ := rfl
        rw [if_pos rfl, hstep]
        exact (ih (text ++ [39])).trans (by simp)
      · have hstep : ([c] : Bytes).foldlM step ⟨ts, .inQuote text⟩ =
            some ⟨ts, .inQuote (text ++ [c])⟩ := by
          simp [step, hc]
        rw [if_neg hc, hstep]
        exact (ih (text ++ [c])).trans (by simp)

/-- A quoted text is one word, whatever its bytes are. -/
theorem foldlM_quote (ts : List Token) (s : Bytes) :
    (quote s).foldlM step ⟨ts, .gap⟩ = some ⟨ts, .word s true⟩ := by
  have hopen : ([39] : Bytes).foldlM step ⟨ts, .gap⟩ = some ⟨ts, .inQuote []⟩ := rfl
  have hclose : ([39] : Bytes).foldlM step ⟨ts, .inQuote s⟩ = some ⟨ts, .word s true⟩ := rfl
  have hquote := foldlM_inQuote ts [] s
  rw [quote, List.cons_append, ← List.singleton_append, List.foldlM_append, hopen,
    Option.bind_eq_bind, Option.bind_some, List.foldlM_append, hquote]
  exact hclose

end JiuwenCore.Shell
