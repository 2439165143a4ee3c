import JiuwenCore.Lib.LineFeed
import JiuwenCore.Lib.Pages
import JiuwenCore.Tools.Arguments
import JiuwenCore.Tools.Disk

/-!
# Reading a file page by page

`read_file` shows lines from an offset on, as many as the limit and the budget of characters
let through, and names the offset to go on with. An `int` wraps.
-/

namespace JiuwenCore.Tools.ReadFileTool

open LineFeed (getLines)

/-! ## The tool -/

def kMaxChars : Int := 128000

def kDefaultLimit : Int := 2000

/-- The value an `int` has. Sums are wrapped once: it is the same after every step. -/
def wrap (i : Int) : Int := i.bmod (2 ^ 32)

/-- A line as it is shown, with its index. -/
def lineEntry (i : Int) (line : Str) : Str := Json.printInt (i + 1) ++ lit "| " ++ line

/-- The loop over the lines from index `i` on, with the index at which it stops: all lines in
front of it have been shown, so it is `actualEnd`. -/
def showFrom (last : Int) : Int → Int → List Str → List Str × Int
  | i, _, [] => ([], i)
  | i, charCount, line :: rest =>
      let charCount := wrap (charCount + (lineEntry i line).length + 1)
      if i < last ∧ charCount ≤ kMaxChars then
        let shown := showFrom last (i + 1) charCount rest
        (lineEntry i line :: shown.1, shown.2)
      else ([], i)

inductive Page
  | emptyFile
  | beyond (offset total : Int)
  | lines (offset : Int) (entries : List Str) (actualEnd total : Int)
  deriving DecidableEq, Repr

def readPage (allLines : List Str) (offset limit : Int) : Page :=
  let offset := if offset < 1 then 1 else offset
  let limit := if limit < 1 then kDefaultLimit else limit
  let total := wrap allLines.length
  if total = 0 then .emptyFile
  else if offset > total then .beyond offset total
  else
    let start := offset - 1
    let last := min (wrap (start + limit)) total
    let shown := showFrom last start 0 (allLines.drop start.toNat)
    .lines offset shown.1 shown.2 total

/-- The offset the answer suggests. -/
def Page.next : Page → Option Int
  | .lines _ _ actualEnd total => if actualEnd < total then some (actualEnd + 1) else none
  | _ => none

def Page.text (filePath : Str) : Page → Str
  | .emptyFile => lit "(Empty file: " ++ filePath ++ lit ")"
  | .beyond offset total =>
      lit "Error: offset " ++ Json.printInt offset ++ lit " is beyond end of file (" ++
        Json.printInt total ++ lit " lines)"
  | .lines offset entries actualEnd total =>
      (lit "\n").intercalate entries ++
        if actualEnd < total then
          lit "\n\n(Showing lines " ++ Json.printInt offset ++ lit "-" ++ Json.printInt actualEnd ++
            lit " of " ++ Json.printInt total ++ lit ". Use offset=" ++
            Json.printInt (actualEnd + 1) ++ lit " to continue.)"
        else
          lit "\n\n(End of file " ++ [0xE2, 0x80, 0x94] ++ lit " " ++ Json.printInt total ++
            lit " lines total)"

/-- `ReadFileTool::Invoke`. -/
def invoke (disk : Disk) (input : Str) : Str :=
  let filePath := parseStringField input (lit "path")
  if filePath = [] then lit "Error: 'path' parameter is required"
  else
    let offset := parseIntField input (lit "offset") 1
    let limit := parseIntField input (lit "limit") kDefaultLimit
    match disk.get? filePath with
    | none => lit "Error: File not found: " ++ filePath
    | some .directory => lit "Error: Not a file: " ++ filePath
    | some (.file _ false _) => lit "Error: Cannot open file: " ++ filePath
    | some (.file content true _) => (readPage (getLines 10 content) offset limit).text filePath

/-! ## Following the answers -/

/-- The lines of a page, and behind them what a reader sees from the next offset on. -/
def Page.followed (rest : Int → Option (List Str)) : Page → Option (List Str)
  | .lines _ entries actualEnd total =>
      if actualEnd < total then (rest (actualEnd + 1)).map (entries ++ ·) else some entries
  | _ => none

/-- The lines shown from an offset on, until the answer that ends the file; `none` where the
fuel does not suffice, or an answer shows no page. -/
def follow (allLines : List Str) (limit : Int) : Nat → Int → Option (List Str)
  | 0, _ => none
  | fuel + 1, offset => (readPage allLines offset limit).followed (follow allLines limit fuel)

/-- All lines with their indices. -/
def entriesFrom : Int → List Str → List Str
  | _, [] => []
  | i, line :: rest => lineEntry i line :: entriesFrom (i + 1) rest

/-- Every line is shown, once and in order, and the end is reached. -/
def Complete (allLines : List Str) (limit : Int) : Prop :=
  ∃ fuel, follow allLines limit fuel 1 = some (entriesFrom 0 allLines)

/-- The offsets of a reader that follows the answers. -/
inductive Reached (allLines : List Str) (limit : Int) : Int → Prop
  | first : Reached allLines limit 1
  | next {offset next : Int} (h : Reached allLines limit offset)
      (hnext : (readPage allLines offset limit).next = some next) : Reached allLines limit next

/-- The line at the offset fits into the budget on its own, and the end of the page into an
`int`. -/
def Advances (allLines : List Str) (limit offset : Int) : Prop :=
  offset - 1 + (if limit < 1 then kDefaultLimit else limit) < 2 ^ 31 ∧
    ∀ line ∈ allLines[(offset - 1).toNat]?,
      wrap ((lineEntry (offset - 1) line).length + 1) ≤ kMaxChars

instance (allLines : List Str) (limit offset : Int) : Decidable (Advances allLines limit offset) :=
  inferInstanceAs (Decidable (_ ∧ _))

/-! ## One page -/

theorem wrap_le (i : Int) : wrap i < 2 ^ 31 := by
  have h := Int.bmod_lt (x := i) (m := 2 ^ 32) (by omega)
  exact h

theorem wrap_eq {i : Int} (h0 : 0 ≤ i) (h : i < 2 ^ 31) : wrap i = i :=
  Int.bmod_eq_of_le (by omega) (by omega)

/-- A sum of two numbers of an `int` that an `int` does not hold is negative. -/
theorem wrap_neg {i : Int} (h : 2 ^ 31 ≤ i) (h' : i < 2 ^ 32) : wrap i < 0 := by
  rw [wrap, Int.bmod_def]
  split <;> omega

theorem length_entriesFrom (i : Int) (allLines : List Str) :
    (entriesFrom i allLines).length = allLines.length := by
  induction allLines generalizing i with
  | nil => rfl
  | cons line rest ih => simp [entriesFrom, ih]

theorem drop_entriesFrom (i : Int) (allLines : List Str) (k : Nat) :
    (entriesFrom i allLines).drop k = entriesFrom (i + k) (allLines.drop k) := by
  induction k generalizing i allLines with
  | zero => simp
  | succ k ih =>
      cases allLines with
      | nil => rfl
      | cons line rest =>
          rw [entriesFrom, List.drop_succ_cons, List.drop_succ_cons, ih]
          congr 1
          push_cast
          omega

/-- The loop shows lines from its index on and stops behind them. -/
theorem showFrom_spec (last i charCount : Int) (rest : List Str) :
    (showFrom last i charCount rest).1 <+: entriesFrom i rest ∧
      (showFrom last i charCount rest).2 = i + (showFrom last i charCount rest).1.length := by
  induction rest generalizing i charCount with
  | nil => simp [showFrom, entriesFrom]
  | cons line rest ih =>
      rw [showFrom, entriesFrom]
      split
      · obtain ⟨hfront, hend⟩ := ih (i + 1) (wrap (charCount + (lineEntry i line).length + 1))
        refine ⟨(List.prefix_cons_inj _).mpr hfront, ?_⟩
        simp only [hend, List.length_cons]
        push_cast
        omega
      · simp

theorem showFrom_le {last i charCount bound : Int} (rest : List Str) (hi : i ≤ bound)
    (hlast : last ≤ bound) : (showFrom last i charCount rest).2 ≤ bound := by
  induction rest generalizing i charCount with
  | nil => exact hi
  | cons line rest ih =>
      rw [showFrom]
      split
      · exact ih (by omega)
      · exact hi

/-- How many lines the page at a line shows. -/
def pageSize (allLines : List Str) (limit : Int) (pos : Nat) : Nat :=
  (showFrom (min (wrap (pos + (if limit < 1 then kDefaultLimit else limit)))
    (wrap allLines.length)) pos 0 (allLines.drop pos)).1.length

section Page

variable {allLines : List Str} {limit : Int}

/-- A page shows something where its first line fits and its end is behind it. -/
theorem showFrom_pos_iff {last i charCount : Int} {rest : List Str} (hrest : rest ≠ []) :
    0 < (showFrom last i charCount rest).1.length ↔
      i < last ∧ ∀ line ∈ rest.head?,
        wrap (charCount + (lineEntry i line).length + 1) ≤ kMaxChars := by
  cases rest with
  | nil => exact absurd rfl hrest
  | cons line rest =>
      rw [showFrom]
      split
      · rename_i h
        simpa using h
      · rename_i h
        simpa using h

theorem pageSize_pos_iff (hlimit : limit < 2 ^ 31) (htotal : (allLines.length : Int) < 2 ^ 31)
    {pos : Nat} (hpos : pos < allLines.length) :
    0 < pageSize allLines limit pos ↔ Advances allLines limit (pos + 1) := by
  have hrest : allLines.drop pos ≠ [] := by
    rw [Ne, List.drop_eq_nil_iff]
    omega
  have hend : (pos : Int) < min (wrap (pos + (if limit < 1 then kDefaultLimit else limit)))
      (wrap allLines.length) ↔
        (pos : Int) + (if limit < 1 then kDefaultLimit else limit) < 2 ^ 31 := by
    have hdefault : kDefaultLimit = 2000 := rfl
    generalize hk : (if limit < 1 then kDefaultLimit else limit) = k
    have hbound : 1 ≤ k ∧ k < 2 ^ 31 := by
      split at hk <;> omega
    rw [wrap_eq (by omega) htotal, lt_min_iff]
    by_cases hsum : (pos : Int) + k < 2 ^ 31
    · rw [wrap_eq (by omega) hsum]
      omega
    · have hneg := wrap_neg (i := pos + k) (by omega) (by omega)
      omega
  rw [pageSize, showFrom_pos_iff hrest, hend, Advances]
  simp

/-- A page of a file whose lines an `int` can count. -/
theorem readPage_eq (htotal : (allLines.length : Int) < 2 ^ 31) {pos : Nat}
    (hpos : pos < allLines.length) :
    readPage allLines (pos + 1) limit =
      .lines (pos + 1) (Pages.shown (entriesFrom 0 allLines) (pageSize allLines limit) pos)
        (pos + pageSize allLines limit pos) allLines.length := by
  have hwrap : wrap allLines.length = allLines.length := wrap_eq (by omega) htotal
  have hfirst : ¬ (pos : Int) + 1 < 1 := by omega
  have hzero : ¬ (allLines.length : Int) = 0 := by omega
  have hbeyond : ¬ (pos : Int) + 1 > allLines.length := by omega
  obtain ⟨hfront, hend⟩ := showFrom_spec
    (min (wrap (pos + (if limit < 1 then kDefaultLimit else limit))) (wrap allLines.length)) pos 0
    (allLines.drop pos)
  have hentries : (entriesFrom 0 allLines).drop pos = entriesFrom pos (allLines.drop pos) := by
    rw [drop_entriesFrom, Int.zero_add]
  rw [readPage, Pages.shown, hentries, pageSize, ← List.prefix_iff_eq_take.mp hfront, ← hend]
  simp only [if_neg hfirst, hwrap, if_neg hzero, if_neg hbeyond, Int.add_sub_cancel,
    Int.toNat_natCast]

/-! ## All pages -/

theorem follow_eq (htotal : (allLines.length : Int) < 2 ^ 31) (fuel : Nat) {pos : Nat}
    (hpos : pos < allLines.length) :
    follow allLines limit fuel (pos + 1) =
      Pages.follow (entriesFrom 0 allLines) (pageSize allLines limit) fuel pos := by
  induction fuel generalizing pos with
  | zero => rfl
  | succ fuel ih =>
      have hlength := length_entriesFrom 0 allLines
      rw [follow, readPage_eq htotal hpos, Page.followed, Pages.follow, hlength]
      by_cases hmore : pos + pageSize allLines limit pos < allLines.length
      · have hmore' : (pos : Int) + pageSize allLines limit pos < allLines.length := by omega
        have hnext := ih hmore
        rw [Nat.cast_add] at hnext
        rw [if_pos hmore, if_pos hmore', hnext]
      · have hmore' : ¬ (pos : Int) + pageSize allLines limit pos < allLines.length := by omega
        rw [if_neg hmore, if_neg hmore']

theorem reached_iff (htotal : (allLines.length : Int) < 2 ^ 31) (hne : allLines ≠ [])
    {offset : Int} :
    Reached allLines limit offset ↔
      ∃ pos : Nat, offset = pos + 1 ∧
        Pages.Reached (entriesFrom 0 allLines) (pageSize allLines limit) pos := by
  have hlength := length_entriesFrom 0 allLines
  constructor
  · intro h
    induction h with
    | first => exact ⟨0, rfl, .start⟩
    | next _ hnext ih =>
        obtain ⟨pos, rfl, hpos⟩ := ih
        have hlt := hpos.lt _ _ (List.ne_nil_of_length_pos (by
          rw [hlength]
          exact List.length_pos_of_ne_nil hne))
        rw [hlength] at hlt
        rw [readPage_eq htotal hlt, Page.next] at hnext
        split at hnext
        · rename_i hmore
          cases hnext
          refine ⟨pos + pageSize allLines limit pos, by push_cast; rfl, hpos.next ?_⟩
          omega
        · cases hnext
  · rintro ⟨pos, rfl, h⟩
    induction h with
    | start => exact .first
    | @next pos hpos hmore ih =>
        rw [hlength] at hmore
        have hmore' : (pos : Int) + pageSize allLines limit pos < allLines.length := by omega
        refine ih.next ?_
        rw [readPage_eq htotal (by omega), Page.next, if_pos hmore', Nat.cast_add]

/-- A page ends with the lines it shows, and not behind the count the tool has of them. -/
theorem readPage_lines {offset o actualEnd total : Int} {entries : List Str} (hoffset : 1 ≤ offset)
    (h : readPage allLines offset limit = .lines o entries actualEnd total) :
    total = wrap allLines.length ∧ actualEnd = offset - 1 + entries.length ∧
      actualEnd ≤ total := by
  have hfirst : ¬ offset < 1 := by omega
  rw [readPage] at h
  simp only [if_neg hfirst] at h
  split at h
  · cases h
  · split at h
    · cases h
    · rename_i hbeyond
      cases h
      exact ⟨rfl, (showFrom_spec _ _ _ _).2, showFrom_le _ (by omega) (min_le_right _ _)⟩

/-- No page shows a line beyond the count the tool has of them. -/
theorem length_follow {fuel : Nat} {offset : Int} (hoffset : 1 ≤ offset) {shown : List Str}
    (h : follow allLines limit fuel offset = some shown) :
    (shown.length : Int) ≤ wrap allLines.length - (offset - 1) := by
  induction fuel generalizing offset shown with
  | zero => cases h
  | succ fuel ih =>
      rw [follow] at h
      cases hpage : readPage allLines offset limit with
      | emptyFile =>
          rw [hpage] at h
          cases h
      | beyond o t =>
          rw [hpage] at h
          cases h
      | lines o entries actualEnd total =>
          obtain ⟨htotal, hend, hle⟩ := readPage_lines hoffset hpage
          rw [hpage, Page.followed] at h
          split at h
          · rename_i hmore
            obtain ⟨rest, hrest, rfl⟩ := Option.map_eq_some_iff.mp h
            have hlater := ih (by omega) hrest
            rw [List.length_append]
            push_cast
            omega
          · cases h
            omega

theorem complete_lines_iff (hne : allLines ≠ []) (hlimit : limit < 2 ^ 31) :
    Complete allLines limit ↔
      (allLines.length : Int) < 2 ^ 31 ∧
        ∀ offset, Reached allLines limit offset → Advances allLines limit offset := by
  have hlength := length_entriesFrom 0 allLines
  have hpos := List.length_pos_of_ne_nil hne
  have hentries : entriesFrom 0 allLines ≠ [] := List.ne_nil_of_length_pos (by omega)
  by_cases htotal : (allLines.length : Int) < 2 ^ 31
  · have hpages := Pages.complete_iff (entriesFrom 0 allLines) (pageSize allLines limit) hentries
    have hfollow : Complete allLines limit ↔ ∃ fuel,
        Pages.follow (entriesFrom 0 allLines) (pageSize allLines limit) fuel 0 =
          some (entriesFrom 0 allLines) :=
      exists_congr fun fuel => by rw [← follow_eq htotal fuel hpos]; rfl
    rw [hfollow, hpages, and_iff_right htotal]
    constructor
    · intro h offset hoffset
      obtain ⟨pos, rfl, hreached⟩ := (reached_iff htotal hne).mp hoffset
      have hlt := hreached.lt _ _ hentries
      exact (pageSize_pos_iff hlimit htotal (by omega)).mp (h pos hreached)
    · intro h pos hreached
      have hlt := hreached.lt _ _ hentries
      exact (pageSize_pos_iff hlimit htotal (by omega)).mpr
        (h _ ((reached_iff htotal hne).mpr ⟨pos, rfl, hreached⟩))
  · refine iff_of_false (fun h => ?_) (fun h => htotal h.1)
    obtain ⟨fuel, hfuel⟩ := h
    have hle := length_follow (by omega) hfuel
    have hwrap := wrap_le allLines.length
    omega

theorem Reached.range (htotal : (allLines.length : Int) < 2 ^ 31) (hne : allLines ≠ [])
    {offset : Int} (h : Reached allLines limit offset) :
    1 ≤ offset ∧ offset ≤ allLines.length := by
  have hlength := length_entriesFrom 0 allLines
  have hpos := List.length_pos_of_ne_nil hne
  obtain ⟨pos, rfl, hreached⟩ := (reached_iff htotal hne).mp h
  have hlt := hreached.lt _ _ (List.ne_nil_of_length_pos (by omega))
  omega

/-- No limit near the greatest `int`, and no line too long for the budget: this is enough,
whatever pages come out. -/
theorem complete_of_fits (hne : allLines ≠ []) (hlimit : limit < 2 ^ 31)
    (hsum : (allLines.length : Int) + (if limit < 1 then kDefaultLimit else limit) ≤ 2 ^ 31)
    (hfits : ∀ (i : Nat) (line : Str), allLines[i]? = some line →
      wrap ((lineEntry i line).length + 1) ≤ kMaxChars) : Complete allLines limit := by
  have hdefault : kDefaultLimit = 2000 := rfl
  have htotal : (allLines.length : Int) < 2 ^ 31 := by
    split at hsum <;> omega
  refine (complete_lines_iff hne hlimit).mpr ⟨htotal, fun offset hreached => ⟨?_, ?_⟩⟩
  · obtain ⟨-, hlast⟩ := hreached.range htotal hne
    omega
  · intro line hline
    obtain ⟨hfirst, -⟩ := hreached.range htotal hne
    have hindex : ((offset - 1).toNat : Int) = offset - 1 := Int.toNat_of_nonneg (by omega)
    rw [← hindex]
    exact hfits _ line hline

end Page

/-- A reader that follows the answers sees every line of a file once and in order, and its end,
just where an `int` counts the lines and every page on the way shows one. -/
theorem readFile_complete_iff {content : Str} (h : content ≠ []) (limit : Int32) :
    Complete (getLines 10 content) limit.toInt ↔
      ((getLines 10 content).length : Int) < 2 ^ 31 ∧
        ∀ offset, Reached (getLines 10 content) limit.toInt offset →
          Advances (getLines 10 content) limit.toInt offset :=
  complete_lines_iff (LineFeed.getLines_ne_nil 10 h) limit.toInt_lt

theorem readFile_complete_two : Complete (getLines 10 (lit "a\nb\n")) 1 := by
  have hlines : getLines 10 (lit "a\nb\n") = [lit "a", lit "b"] := by decide
  refine (readFile_complete_iff (by decide) 1).mpr ⟨by decide, fun offset hreached => ?_⟩
  obtain ⟨hfirst, hlast⟩ := hreached.range (by decide) (by decide)
  rw [hlines] at hlast ⊢
  simp only [List.length_cons, List.length_nil] at hlast
  obtain rfl | rfl : offset = 1 ∨ offset = 2 := by omega
  · decide
  · decide

def longLine : Str := List.replicate 128000 120

/-- A line longer than the budget is never shown: its page is empty, and the answer names the
offset it was asked for. -/
theorem readFile_long_line :
    readPage (getLines 10 longLine) 1 2000 = .lines 1 [] 0 1 ∧ ¬ Complete (getLines 10 longLine) 2000 := by
  have hlength : longLine.length = 128000 := List.length_replicate
  have hlines : getLines 10 longLine = [longLine] := by
    refine LineFeed.getLines_single 10 ?_ (List.ne_nil_of_length_pos (by omega))
    intro hmem
    cases List.eq_of_mem_replicate hmem
  have hentry : (lineEntry 0 longLine).length = 128003 := by
    have hindex : Json.printInt (0 + 1) ++ lit "| " = [49, 124, 32] := by decide
    rw [lineEntry, hindex, List.length_append, hlength]
    rfl
  have hover : ¬ wrap (0 + (lineEntry 0 longLine).length + 1) ≤ kMaxChars := by
    rw [hentry]
    decide
  rw [hlines]
  refine ⟨?_, fun hcomplete => ?_⟩
  · have hshow : ∀ last, showFrom last 0 0 [longLine] = ([], 0) := by
      intro last
      rw [showFrom]
      exact if_neg fun h => hover h.2
    have hwrap : wrap 1 = 1 := by decide
    simp [readPage, hwrap, hshow]
  · have hadvances := ((complete_lines_iff (by simp) (by decide)).mp hcomplete).2 1 .first
    exact hover (by simpa using hadvances.2 longLine rfl)

end JiuwenCore.Tools.ReadFileTool
